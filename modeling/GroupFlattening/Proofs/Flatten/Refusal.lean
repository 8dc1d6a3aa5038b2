import GroupFlattening.Proofs.Dataset.Extension
import GroupFlattening.Proofs.Flatten.Mode
import GroupFlattening.Proofs.Hierarchy.Complete
import GroupFlattening.Proofs.Shape.Budget
import Mathlib.Logic.Relation

/-!
# Refusals

Flattening refuses datasets and settings that do not go together, and groups that are nested too
deeply. The survey does so before anything is written. Two refusals come late, when the copy of a
variable has been created (`LateCause`): the variable may be missing from the snapshot, which needs
a name that is not a proper one, and the slice shape listed for it may not suit it. Flattening is
refused early and leaves the output as it was, or late and does not (`refused_early_or_late`).

`Refuses` follows the writes of a step up to the point where the step is refused. It is closed under
sequences and walks, so that only two steps have to be looked at, those with a late refusal.
-/

namespace GroupFlattening

open ObjectPath (join)

/-- Whether the fault says that datasets and settings do not go together, or that a group is nested
too deeply. -/
def Fault.isRefusal : Fault → Bool
  | .configuration _ => true
  | .groupDepthExceeded .. => true
  | _ => false

/-- The fault is not a refusal. -/
def Fault.IsAccepted (fault : Fault) : Prop := fault.isRefusal = false

namespace Flatten

open Transfer (compute fromInput onOutput record)

/-! ## Writes -/

section Writes

variable {σ : Type} [Writable σ]

/-- A write to a dataset that succeeds. -/
inductive Writes (d d' : σ) : Prop
  | dimension (group name : String) (size : Option Nat)
      (h : Writable.createDimension group name size d = .ok () d')
  | «variable» (group : String) (definition : VariableDefinition)
      (h : Writable.createVariable group definition d = .ok () d')
  | groupAttribute (group name : String) (value : AttributeValue)
      (h : Writable.setGroupAttribute group name value d = .ok () d')
  | variableAttribute (path name : String) (value : AttributeValue)
      (h : Writable.setVariableAttribute path name value d = .ok () d')
  | data (path : String) (selection : Selection) (data : Buffer)
      (h : Writable.writeData path selection data d = .ok () d')

/-- The second dataset comes from the first one by writes that succeed. -/
abbrev Written : σ → σ → Prop := Relation.ReflTransGen Writes

end Writes

/-! ## Steps that may be refused -/

section Refuses

variable {σ α β : Type} [Writable σ] {S : Fault → σ → σ → Prop}

/-- A step that succeeds has written, and where it is refused, the refusal is as described. -/
structure Refuses (S : Fault → σ → σ → Prop) (step : TransferM σ α) : Prop where
  written : ∀ t a t', step t = .ok a t' → Written t.output t'.output
  refused : ∀ t fault t', step t = .error fault t' → fault.isRefusal = true →
    S fault t.output t'.output

/-- A description of refusals that allows for writes before. -/
def Absorbs (S : Fault → σ → σ → Prop) : Prop :=
  ∀ fault d d₁ d', Written d d₁ → S fault d₁ d' → S fault d d'

namespace Refuses

theorem pure (a : α) : Refuses S (Pure.pure a : TransferM σ α) := by
  refine ⟨fun t b t' h => ?_, fun t fault t' h => nomatch h⟩
  obtain ⟨-, rfl⟩ := EStateM.pure_eq_ok_iff.mp h
  exact .refl

theorem of_read (read : Except StoreFault α) : Refuses S (fromInput read : TransferM σ α) := by
  refine ⟨fun t a t' h => ?_, fun t fault t' h hrefusal => ?_⟩
  · obtain ⟨-, rfl⟩ := Transfer.fromInput_eq_ok_iff.mp h
    exact .refl
  · unfold fromInput at h
    cases read with
    | error cause =>
      cases h
      cases hrefusal
    | ok a => cases h

theorem of_result {result : Except Fault α}
    (hresult : Except.FaultsIn (fun fault => fault.isRefusal = true → ∀ d, S fault d d) result) :
    Refuses S (compute result : TransferM σ α) := by
  refine ⟨fun t a t' h => ?_, fun t fault t' h hrefusal => ?_⟩
  · obtain ⟨-, rfl⟩ := Transfer.compute_eq_ok_iff.mp h
    exact .refl
  · cases result with
    | error other =>
      cases h
      exact hresult fault rfl hrefusal t.output
    | ok a => cases h

/-- A computation whose faults are not refusals is not refused. -/
theorem of_accepted {result : Except Fault α}
    (hresult : Except.FaultsIn Fault.IsAccepted result) :
    Refuses S (compute result : TransferM σ α) := by
  apply of_result
  intro fault hfault hrefusal
  have haccepted : fault.isRefusal = false := hresult fault hfault
  rw [hrefusal] at haccepted
  cases haccepted

theorem onOutput {write : EStateM StoreFault σ α}
    (hwrite : ∀ d a d', write d = .ok a d' → Written d d') :
    Refuses S (onOutput write : TransferM σ α) := by
  refine ⟨fun t a t' h => ?_, fun t fault t' h hrefusal => ?_⟩
  · obtain ⟨output, hrun, rfl⟩ := Transfer.onOutput_eq_ok_iff.mp h
    exact hwrite _ a output hrun
  · unfold Transfer.onOutput at h
    cases hrun : write t.output with
    | error cause output =>
      rw [hrun] at h
      cases h
      -- a fault of the output is not a refusal
      cases hrefusal
    | ok a output =>
      rw [hrun] at h
      cases h

theorem record (change : ProvenanceMaps → ProvenanceMaps) :
    Refuses S (record change : TransferM σ Unit) := by
  refine ⟨fun t a t' h => ?_, fun t fault t' h => nomatch h⟩
  obtain rfl := Transfer.record_eq_ok_iff.mp h
  exact .refl

/-- What follows a step need only be looked at for the results that the step can have. -/
theorem bind (hS : Absorbs S) {first : TransferM σ α} {next : α → TransferM σ β}
    (hfirst : Refuses S first) (hnext : ∀ t a t', first t = .ok a t' → Refuses S (next a)) :
    Refuses S (first >>= next) := by
  refine ⟨fun t b t' h => ?_, fun t fault t' h hrefusal => ?_⟩
  · obtain ⟨a, t₁, hrun, hrest⟩ := EStateM.bind_eq_ok_iff.mp h
    exact (hfirst.written t a t₁ hrun).trans ((hnext t a t₁ hrun).written t₁ b t' hrest)
  · rcases EStateM.bind_eq_error_iff.mp h with h | ⟨a, t₁, hrun, hrest⟩
    · exact hfirst.refused t fault t' h hrefusal
    · exact hS fault _ _ _ (hfirst.written t a t₁ hrun)
        ((hnext t a t₁ hrun).refused t₁ fault t' hrest hrefusal)

theorem mapM (hS : Absorbs S) {f : α → TransferM σ β} {as : List α}
    (hf : ∀ a ∈ as, Refuses S (f a)) : Refuses S (as.mapM f) := by
  induction as with
  | nil => exact pure []
  | cons a rest ih =>
    rw [List.forall_mem_cons] at hf
    rw [List.mapM_cons]
    exact bind hS hf.1 fun _ b _ _ => bind hS (ih hf.2) fun _ bs _ _ => pure (b :: bs)

theorem forM (hS : Absorbs S) {f : α → TransferM σ Unit} (hf : ∀ a, Refuses S (f a))
    (as : List α) : Refuses S (as.forM f) := by
  induction as with
  | nil => exact pure ()
  | cons a rest ih => exact bind hS (hf a) fun _ _ _ _ => ih

end Refuses

/-- A refusal for a cause, after some writes. -/
def Caused (cause : Fault → Prop) : Fault → σ → σ → Prop :=
  fun fault d d' => cause fault ∧ Written d d'

theorem absorbs_caused (cause : Fault → Prop) : Absorbs (Caused cause : Fault → σ → σ → Prop) :=
  fun _ _ _ _ hwritten h => ⟨h.1, hwritten.trans h.2⟩

end Refuses

/-! ## Steps that are not refused -/

section Accepted

variable {ι σ : Type} [Readable ι] [Writable σ] {S : Fault → σ → σ → Prop} (hS : Absorbs S)

theorem refuses_setAttribute (flatPath name : String) (value : AttributeValue) :
    Refuses S (Transfer.setAttribute flatPath name value : TransferM σ Unit) :=
  .onOutput fun _ _ _ h => .single (.variableAttribute _ _ _ h)

include hS

theorem refuses_group (input : ι) (path : String) :
    Refuses S (Transfer.group input path : TransferM σ (List VariableInfo)) := by
  have hattribute : ∀ entry,
      Refuses S (Transfer.groupAttribute path entry : TransferM σ Unit) := by
    intro entry
    apply (Refuses.onOutput fun _ _ _ h => .single (.groupAttribute _ _ _ h)).bind hS
    intro _ _ _ _
    apply Refuses.record
  have hdimension : ∀ dim, Refuses S (Transfer.dimension path dim : TransferM σ Unit) := by
    intro dim
    apply (Refuses.onOutput fun _ _ _ h => .single (.dimension _ _ _ h)).bind hS
    intro _ _ _ _
    apply Refuses.record
  apply (Refuses.of_read _).bind hS
  intro _ attributes _ _
  apply (Refuses.forM hS hattribute attributes).bind hS
  intro _ _ _ _
  apply (Refuses.of_read _).bind hS
  intro _ dimensions _ _
  apply (Refuses.forM hS hdimension dimensions).bind hS
  intro _ _ _ _
  apply Refuses.of_read

theorem refuses_variableAttribute (path flatPath : String) (entry : String × AttributeValue) :
    Refuses S (Transfer.variableAttribute path flatPath entry : TransferM σ _) := by
  apply (Refuses.of_accepted (faultsIn_pending? (fun _ _ => rfl) _ _ entry)).bind hS
  intro _ pending _ _
  apply (refuses_setAttribute _ _ _).bind hS
  intro _ _ _ _
  apply Refuses.pure

theorem refuses_createVariable (input : ι) (names : NameTable) (group : String)
    (info : VariableInfo) :
    Refuses S (Transfer.createVariable input names group info : TransferM σ _) := by
  -- a dimension without a flat name is not a refusal of the settings
  have hdimensions : Except.FaultsIn Fault.IsAccepted
      (info.dimensions.mapM (Transfer.flatDimension names (join group info.name))) := by
    apply Except.FaultsIn.mapM
    intro path _
    exact faultsIn_flatDimension (fun _ => rfl) names _ path
  apply (Refuses.of_accepted hdimensions).bind hS
  intro _ dimensions _ _
  apply (Refuses.of_read _).bind hS
  intro _ attributes _ _
  apply (Refuses.onOutput fun _ _ _ h => .single (.variable _ _ h)).bind hS
  intro _ _ _ _
  apply (Refuses.record _).bind hS
  intro _ _ _ _
  apply (Refuses.mapM hS fun entry _ => refuses_variableAttribute hS _ _ entry).bind hS
  intro _ pending _ _
  apply Refuses.pure

theorem refuses_finish : Refuses S (Transfer.finish : TransferM σ ProvenanceMaps) := by
  have hget : Refuses S (get : TransferM σ (Transfer σ)) := by
    refine ⟨fun t a t' h => ?_, fun t fault t' h => nomatch h⟩
    cases h
    exact .refl
  -- three attributes of the root, one after the other
  have hwrite : ∀ (p : ProvenanceMaps) (d : σ) (u : Unit) (d' : σ),
      p.write d = .ok u d' → Written d d' := by
    intro p d u d' h
    obtain ⟨⟨⟩, d₁, h₁, h⟩ := EStateM.bind_eq_ok_iff.mp h
    obtain ⟨⟨⟩, d₂, h₂, h₃⟩ := EStateM.bind_eq_ok_iff.mp h
    exact ((Relation.ReflTransGen.single (.groupAttribute _ _ _ h₁)).tail
      (.groupAttribute _ _ _ h₂)).tail (.groupAttribute _ _ _ h₃)
  apply hget.bind hS
  intro _ transfer _ _
  apply (Refuses.onOutput (hwrite transfer.provenance)).bind hS
  intro _ _ _ _
  apply Refuses.pure

end Accepted

/-! ## Faults of references -/

theorem failure_accepted (site : ReferenceSite) (token : String) (candidates : List String) :
    (site.failure token candidates).IsAccepted := by
  unfold ReferenceSite.failure
  split <;> rfl

/-- Settling a value fails where it cannot be read, or in strict mode for a token. -/
theorem faultsIn_settle {P : Fault → Prop} (hparse : ∀ name value, P (.parse name value))
    {site : ReferenceSite} {lax : Bool}
    (hfailure : ∀ token candidates, P (site.failure token candidates)) (h : Hierarchy)
    (v : Hierarchy.Variable) (value : String) :
    Except.FaultsIn P (site.settle h v lax value) := by
  -- in lax mode an undecided token is no fault at all
  have hdegrade : ∀ token candidates, Except.FaultsIn P (site.degrade lax token candidates) := by
    intro token candidates
    unfold ReferenceSite.degrade
    split
    · exact .ok _
    · exact .error (hfailure token candidates)
  -- so the only faults are those of the two undecided outcomes
  have houtcome : ∀ token outcome, Except.FaultsIn P (site.settleOutcome lax token outcome) := by
    intro token outcome
    cases outcome with
    | object path kind => exact .ok _
    | standardName => exact .ok _
    | unresolved => exact hdegrade token []
    | ambiguous candidates => exact hdegrade token candidates
  unfold ReferenceSite.settle
  apply (faultsIn_ofAttribute hparse site.name value).bind
  intro references
  refine (Except.FaultsIn.mapM fun token _ => ?_).bind fun settled => .pure _
  apply (faultsIn_resolve hparse h site.rule v token).bind
  intro outcome
  apply (houtcome token outcome).bind
  intro r
  apply Except.FaultsIn.pure

/-! ## Late refusals -/

/-- The slice shape listed for a variable does not suit it, and there is data to be copied. -/
structure Misfit (settings : Settings) (path : String) (shape sliceShape : Shape) : Prop where
  copied : settings.copyData = true
  full : 0 ∉ shape
  listed : settings.sliceShapes.bind (·.find? path) = some (some sliceShape)
  unsuited : sliceShape.length ≠ shape.length ∨ 0 ∈ sliceShape

/-- Why flattening is refused when the copy of a variable has been created. -/
inductive LateCause (settings : Settings) (h : Hierarchy) (path : String) (shape : Shape) :
    Fault → Prop
  | missing (hmissing : h.findVariable? path = none) :
      LateCause settings h path shape (.configuration (.missingFromSnapshot path))
  | misfit {sliceShape : Shape} (hmisfit : Misfit settings path shape sliceShape) :
      LateCause settings h path shape
        (.configuration (.sliceShapeMisfit sliceShape path shape))

/-- No late refusal is a fault of the survey. -/
theorem LateCause.isEarly_eq_false {settings : Settings} {h : Hierarchy} {path : String}
    {shape : Shape} {fault : Fault} (hcause : LateCause settings h path shape fault) :
    fault.isEarly = false := by
  cases hcause <;> rfl

/-- A refusal for a variable whose copy has been created. -/
inductive Late {ι σ : Type} [Readable ι] [Writable σ] (input : ι) (settings : Settings)
    (h : Hierarchy) (fault : Fault) (output output' : σ) : Prop
  | mk {g : Hierarchy.Group} {infos : List VariableInfo} {info : VariableInfo}
      {definition : VariableDefinition} {before after : σ} (hg : g ∈ h.groups.labels)
      (hinfos : Readable.variableInfos input g.path = .ok infos) (hinfo : info ∈ infos)
      (hcause : LateCause settings h (join g.path info.name) info.shape fault)
      (hname : definition.name = flatName g.path info.name) (hbefore : Written output before)
      (hcreate : Writable.createVariable ObjectPath.root definition before = .ok () after)
      (hafter : Written after output')

section Late

variable {ι σ : Type} [Readable ι] [Writable σ]

theorem Late.isEarly_eq_false {input : ι} {settings : Settings} {h : Hierarchy} {fault : Fault}
    {output output' : σ} (hlate : Late input settings h fault output output') :
    fault.isEarly = false := by
  obtain ⟨-, -, -, hcause, -, -, -, -⟩ := hlate
  exact hcause.isEarly_eq_false

theorem absorbs_late (input : ι) (settings : Settings) (h : Hierarchy) :
    Absorbs (Late input settings h : Fault → σ → σ → Prop) := by
  rintro fault d d₁ d' hwritten ⟨hg, hinfos, hinfo, hcause, hname, hbefore, hcreate, hafter⟩
  exact ⟨hg, hinfos, hinfo, hcause, hname, hwritten.trans hbefore, hcreate, hafter⟩

/-- A variable is looked up in the snapshot, and refused if it is missing there. -/
theorem refuses_surveyed {settings : Settings} (h : Hierarchy) (path : String) (shape : Shape) :
    Refuses (Caused (LateCause settings h path shape))
      (compute (surveyed h path) : TransferM σ Hierarchy.Variable) := by
  apply Refuses.of_result
  intro fault hfault _ d
  unfold surveyed at hfault
  split at hfault
  · cases hfault
  · next hmissing =>
    cases hfault
    exact ⟨.missing hmissing, .refl⟩

theorem refuses_replacePending {S : Fault → σ → σ → Prop} (hS : Absorbs S) (names : NameTable)
    (settings : Settings) (entry : Transfer.Pending × ReferenceSite.Settled) :
    Refuses S (replacePending names settings entry : TransferM σ _) := by
  have hreplace : Except.FaultsIn Fault.IsAccepted (entry.1.site.replaceAll names settings.laxMode
      entry.2.references entry.2.resolutions) :=
    faultsIn_replaceAll fun token _ _ _ => failure_accepted entry.1.site token []
  apply (Refuses.of_accepted hreplace).bind hS
  intro _ text _ _
  apply (refuses_setAttribute _ _ _).bind hS
  intro _ _ _ _
  apply Refuses.pure

/-- References are refused only for a variable that was not surveyed. -/
theorem refuses_references (h : Hierarchy) (names : NameTable) (settings : Settings)
    (created : Transfer.Created) (shape : Shape) :
    Refuses (Caused (LateCause settings h created.path shape))
      (references h names settings created : TransferM σ Tally) := by
  have hS := absorbs_caused (σ := σ) (LateCause settings h created.path shape)
  unfold references
  split
  · exact .pure _
  · apply (refuses_surveyed h created.path shape).bind hS
    intro _ v _ _
    -- settling a token reads nothing and refuses nothing
    have hsettle : Except.FaultsIn Fault.IsAccepted
        (created.pending.mapM (settlePending h settings v)) := by
      apply Except.FaultsIn.mapM
      intro pending _
      apply (faultsIn_settle (fun _ _ => rfl) (failure_accepted pending.site) h v _).bind
      intro settled
      apply Except.FaultsIn.pure
    apply (Refuses.of_accepted hsettle).bind hS
    intro _ settled _ _
    apply (Refuses.mapM hS fun entry _ => refuses_replacePending hS names settings entry).bind hS
    intro _ unnamed _ _
    apply Refuses.pure

/-- Data is refused only for a slice shape that is listed and does not suit the variable. -/
theorem refuses_data (input : ι) (settings : Settings) (h : Hierarchy) (path flatPath : String)
    (info : VariableInfo) :
    Refuses (Caused (LateCause settings h path info.shape))
      (Transfer.data input settings path flatPath info : TransferM σ Unit) := by
  have hS := absorbs_caused (σ := σ) (LateCause settings h path info.shape)
  -- a part is read and written, and neither is a refusal
  have hpart : ∀ part place, Refuses (Caused (LateCause settings h path info.shape))
      (Transfer.dataPart input path flatPath part place : TransferM σ Unit) := by
    intro part place
    apply (Refuses.of_read _).bind hS
    intro _ data _ _
    exact .onOutput fun _ _ _ hwrite => .single (.data _ _ _ hwrite)
  unfold Transfer.data
  split
  · exact .pure ()
  · next hcopied =>
    rw [not_or, not_not] at hcopied
    split
    -- as a whole, in one part
    · exact hpart _ _
    · next sliceShape hsliceShape =>
      split
      -- the slice shape does not suit the variable, and nothing of it has been written
      · next hmisfit =>
        refine ⟨fun t a t' hrun => absurd hrun EStateM.throw_ne_ok, fun t fault t' hrun _ => ?_⟩
        cases hrun
        refine ⟨.misfit ⟨hcopied.1, hcopied.2, ?_, hmisfit⟩, .refl⟩
        -- a shape derived from the budget would suit the variable
        obtain ⟨listed, hlisted, heq⟩ := Option.map_eq_some_iff.mp hsliceShape
        cases listed with
        | some shape => exact hlisted.trans (congrArg (fun s => some (some s)) heq)
        | none =>
          have hsuits := info.shape.withinBudget_suits info.type.size settings.sliceBudget
          rw [← heq] at hmisfit
          exact absurd hmisfit (by simpa [hsuits.1] using hsuits.2)
      · rw [SliceGrid.forSlices_eq]
        exact .forM hS (fun box => hpart _ _) _

/-- A variable that has been created has been created under its flat name. -/
theorem written_createVariable {input : ι} {names : NameTable} {group : String}
    {info : VariableInfo} {t t' : Transfer σ} {created : Transfer.Created}
    (hrun : Transfer.createVariable input names group info t = .ok created t') :
    created.path = join group info.name ∧ ∃ definition after,
      definition.name = flatName group info.name ∧
      Writable.createVariable ObjectPath.root definition t.output = .ok () after ∧
      Written after t'.output := by
  obtain ⟨dimensions, t₁, hdims, hrun⟩ := EStateM.bind_eq_ok_iff.mp hrun
  obtain ⟨-, rfl⟩ := Transfer.compute_eq_ok_iff.mp hdims
  obtain ⟨attributes, t₂, hattributes, hrun⟩ := EStateM.bind_eq_ok_iff.mp hrun
  obtain ⟨-, rfl⟩ := Transfer.fromInput_eq_ok_iff.mp hattributes
  obtain ⟨⟨⟩, t₃, hwrite, hrun⟩ := EStateM.bind_eq_ok_iff.mp hrun
  obtain ⟨after, hcreate, rfl⟩ := Transfer.onOutput_eq_ok_iff.mp hwrite
  obtain ⟨⟨⟩, t₄, hrecord, hrun⟩ := EStateM.bind_eq_ok_iff.mp hrun
  obtain rfl := Transfer.record_eq_ok_iff.mp hrecord
  obtain ⟨pending, t₅, hpending, hpure⟩ := EStateM.bind_eq_ok_iff.mp hrun
  obtain ⟨rfl, rfl⟩ := EStateM.pure_eq_ok_iff.mp hpure
  -- the attributes are written after the variable
  have hS := absorbs_caused (σ := σ) fun _ => False
  have hwritten := (Refuses.mapM hS fun entry _ =>
    refuses_variableAttribute hS _ _ entry).written _ _ _ hpending
  exact ⟨rfl, _, after, rfl, hcreate, hwritten⟩

/-- A variable is refused when its copy has been created, if at all. -/
theorem late_variableStep (input : ι) {h : Hierarchy} (names : NameTable) (settings : Settings)
    {g : Hierarchy.Group} (hg : g ∈ h.groups.labels) {infos : List VariableInfo}
    (hinfos : Readable.variableInfos input g.path = .ok infos) {info : VariableInfo}
    (hinfo : info ∈ infos) :
    Refuses (Late input settings h)
      (variableStep input h names settings g.path info : TransferM σ Tally) := by
  have hcreated : Refuses (Caused fun _ => False)
      (Transfer.createVariable input names g.path info : TransferM σ _) :=
    refuses_createVariable (absorbs_caused _) input names g.path info
  -- what follows the creation
  let rest (created : Transfer.Created) : TransferM σ Tally := do
    let tally ← references h names settings created
    Transfer.data input settings created.path created.flatPath info
    pure tally
  have hrest : ∀ created, Refuses (Caused (LateCause settings h created.path info.shape))
      (rest created) := by
    intro created
    apply (refuses_references h names settings created info.shape).bind (absorbs_caused _)
    intro _ tally _ _
    apply (refuses_data input settings h created.path created.flatPath info).bind (absorbs_caused _)
    intro _ _ _ _
    apply Refuses.pure
  refine ⟨fun t tally t' hrun => ?_, fun t fault t' hrun hrefusal => ?_⟩
  -- a success writes the copy and then the rest
  · obtain ⟨created, t₁, hfirst, hrun⟩ := EStateM.bind_eq_ok_iff.mp hrun
    exact (hcreated.written t created t₁ hfirst).trans
      ((hrest created).written t₁ tally t' hrun)
  · rcases EStateM.bind_eq_error_iff.mp hrun with hfirst | ⟨created, t₁, hfirst, hrun⟩
    -- the creation refuses nothing, so the refusal comes after the variable was written
    · exact (hcreated.refused t fault t' hfirst hrefusal).1.elim
    · obtain ⟨hpath, definition, after, hname, hcreate, hafter⟩ := written_createVariable hfirst
      obtain ⟨hcause, hwritten⟩ := (hrest created).refused t₁ fault t' hrun hrefusal
      rw [hpath] at hcause
      exact ⟨hg, hinfos, hinfo, hcause, hname, .refl, hcreate, hafter.trans hwritten⟩

/-- Carrying over a variable is a number of writes. -/
theorem written_variableStep {input : ι} {h : Hierarchy} {names : NameTable} {settings : Settings}
    {group : String} {info : VariableInfo} {t t' : Transfer σ} {tally : Tally}
    (hrun : variableStep input h names settings group info t = .ok tally t') :
    Written t.output t'.output := by
  obtain ⟨created, t₁, hcreate, hrun⟩ := EStateM.bind_eq_ok_iff.mp hrun
  obtain ⟨tally', t₂, hreferences, hrun⟩ := EStateM.bind_eq_ok_iff.mp hrun
  obtain ⟨⟨⟩, t₃, hdata, hpure⟩ := EStateM.bind_eq_ok_iff.mp hrun
  obtain ⟨-, rfl⟩ := EStateM.pure_eq_ok_iff.mp hpure
  -- the copy, its references and its data, in this order
  have hcreated := (refuses_createVariable (absorbs_caused fun _ => False) input names group
    info).written _ _ _ hcreate
  have hreplaced := (refuses_references h names settings created info.shape).written _ _ _
    hreferences
  have hcopied := (refuses_data input settings h created.path created.flatPath info).written _ _ _
    hdata
  exact (hcreated.trans hreplaced).trans hcopied

theorem variableInfos_of_group {input : ι} {path : String} {t t' : Transfer σ}
    {infos : List VariableInfo} (hrun : Transfer.group input path t = .ok infos t') :
    Readable.variableInfos input path = .ok infos := by
  obtain ⟨attributes, t₁, -, hrun⟩ := EStateM.bind_eq_ok_iff.mp hrun
  obtain ⟨⟨⟩, t₂, -, hrun⟩ := EStateM.bind_eq_ok_iff.mp hrun
  obtain ⟨dimensions, t₃, -, hrun⟩ := EStateM.bind_eq_ok_iff.mp hrun
  obtain ⟨⟨⟩, t₄, -, hrun⟩ := EStateM.bind_eq_ok_iff.mp hrun
  exact (Transfer.fromInput_eq_ok_iff.mp hrun).1

theorem late_groupStep (input : ι) {h : Hierarchy} (names : NameTable) (settings : Settings)
    {g : Hierarchy.Group} (hg : g ∈ h.groups.labels) :
    Refuses (Late input settings h)
      (groupStep input h names settings g : TransferM σ Tally) := by
  have hS := absorbs_late (σ := σ) input settings h
  apply (refuses_group hS input g.path).bind hS
  intro t infos t' hrun
  have hinfos := variableInfos_of_group hrun
  apply (Refuses.mapM hS fun info hinfo =>
    late_variableStep input names settings hg hinfos hinfo).bind hS
  intro _ tallies _ _
  apply Refuses.pure

/-- Whatever is refused in a transfer is refused late. -/
theorem late_transferAll (input : ι) (settings : Settings) (h : Hierarchy) :
    Refuses (Late input settings h) (transferAll input settings h : TransferM σ Report) := by
  have hS := absorbs_late (σ := σ) input settings h
  apply (Refuses.mapM hS fun g hg =>
    late_groupStep input (NameTable.ofHierarchy h) settings hg).bind hS
  intro _ tallies _ _
  apply (refuses_finish hS).bind hS
  intro _ provenance _ _
  apply Refuses.pure

end Late

/-! ## Datasets in memory -/

section Memory

open Dataset (rootId)

theorem exists_apply_of_writes {d d' : Dataset} (h : Writes d d') :
    ∃ change : Dataset.Change, change.apply d = d' := by
  -- each write that succeeds is the change of its kind
  cases h with
  | dimension group name size h =>
    exact ⟨.dimension group name size, congrArg Dataset.stateAfter h⟩
  | «variable» group definition h =>
    exact ⟨.variable group definition, congrArg Dataset.stateAfter h⟩
  | groupAttribute group name value h =>
    exact ⟨.groupAttribute group name value, congrArg Dataset.stateAfter h⟩
  | variableAttribute path name value h =>
    exact ⟨.variableAttribute path name value, congrArg Dataset.stateAfter h⟩
  | data path selection data h =>
    exact ⟨.data path selection data, congrArg Dataset.stateAfter h⟩

theorem exists_applyAll_of_written {d d' : Dataset} (h : Written d d') :
    ∃ changes, d.applyAll changes = d' := by
  induction h with
  | refl => exact ⟨[], rfl⟩
  | tail _ hwrite ih =>
    obtain ⟨changes, rfl⟩ := ih
    obtain ⟨change, rfl⟩ := exists_apply_of_writes hwrite
    exact ⟨changes ++ [change], by rw [Dataset.applyAll, List.foldl_append]; rfl⟩

/-- Writes leave a dataset reachable, and a variable stays in its group under its name. -/
theorem written_reachable {d d' : Dataset} (hd : d.Reachable) (h : Written d d') :
    d'.Reachable ∧ ∀ id, ∀ v ∈ (d.group id).vars, ∃ w ∈ (d'.group id).vars, w.name = v.name := by
  obtain ⟨changes, rfl⟩ := exists_applyAll_of_written h
  refine ⟨hd.applyAll changes, fun id v hv => ?_⟩
  obtain ⟨k, hk⟩ := List.getElem?_of_mem hv
  obtain ⟨w, hw, hkeeps⟩ := (hd.wellFormed.extends_applyAll changes).vars id k v hk
  exact ⟨w, List.mem_of_getElem? hw, hkeeps.name⟩

/-- A variable that is created in the root was not there. -/
theorem vars_of_createVariable {d d' : Dataset} (hd : d.WellFormed)
    {definition : VariableDefinition}
    (h : Dataset.createVariable ObjectPath.root definition d = .ok () d') :
    (∀ v ∈ (d.group rootId).vars, v.name ≠ definition.name) ∧
      ∃ w ∈ (d'.group rootId).vars, w.name = definition.name := by
  obtain ⟨⟨id, shape⟩, hcheck, heq⟩ := Dataset.checked_eq_ok_iff.mp h
  obtain ⟨-, rfl⟩ := Prod.mk.inj heq
  obtain ⟨hid, hfree, -⟩ := Dataset.checkVariable_eq_ok_iff.mp hcheck
  -- the name was free in the root, and now it is taken
  obtain rfl := Except.ok.inj ((Dataset.groupId_root d).symm.trans hid)
  rw [Dataset.isNameTaken, Bool.or_eq_false_iff, List.any_eq_false] at hfree
  refine ⟨fun v hv => by simpa using hfree.1 v hv, ?_⟩
  rw [Dataset.group_changeGroup_self d hd.root_lt]
  exact ⟨_, List.mem_append_right _ (List.mem_singleton_self _), rfl⟩

/-- A late refusal does not leave the output as it was: it holds the copy of a variable. -/
theorem ne_of_late {ι : Type} [Readable ι] {input : ι} {settings : Settings} {h : Hierarchy}
    {fault : Fault} {output output' : Dataset} (houtput : output.Reachable)
    (hlate : Late input settings h fault output output') : output' ≠ output := by
  rintro rfl
  obtain ⟨-, -, -, -, -, hbefore, hcreate, hafter⟩ := hlate
  obtain ⟨hreachable, hkept⟩ := written_reachable houtput hbefore
  obtain ⟨hnew, w, hw, hname⟩ := vars_of_createVariable hreachable.wellFormed hcreate
  have hcreated : Written _ _ := .single (.variable _ _ hcreate)
  obtain ⟨hreachable', -⟩ := written_reachable hreachable hcreated
  obtain ⟨-, hkept'⟩ := written_reachable hreachable' hafter
  -- the copy would have been there before it was created
  obtain ⟨u, hu, huname⟩ := hkept' rootId w hw
  obtain ⟨v, hv, hvname⟩ := hkept rootId u hu
  exact hnew v hv (hvname.trans (huname.trans hname))

/-- Where all names are proper, only slice shapes are refused late. -/
theorem misfit_of_late {σ : Type} [Writable σ] {input : Dataset} {settings : Settings}
    {h : Hierarchy} {limit : Nat} {fault : Fault} {output output' : σ} (hinput : input.WellFormed)
    (hproper : input.HasProperNames) (hsnapshot : Hierarchy.ofDataset input limit = .ok h)
    (hlate : Late input settings h fault output output') :
    ∃ id, ∃ v ∈ (input.group id).vars, ∃ sliceShape,
      Misfit settings (join (input.group id).path v.name) (input.currentShape v) sliceShape ∧
      fault = .configuration (.sliceShapeMisfit sliceShape
        (join (input.group id).path v.name) (input.currentShape v)) := by
  obtain ⟨hg, hinfos, hinfo, hcause, -, -, -, -⟩ := hlate
  obtain ⟨hsurveyed, -⟩ := Hierarchy.forall₂_surveyed hinput hproper.groups hsnapshot
  obtain ⟨n, hn⟩ := List.getElem?_of_mem hg
  rw [Forest.getElem?_labels] at hn
  obtain ⟨id, hid, hsg⟩ := Hierarchy.exists_surveyed hsurveyed hn
  have hlt := hinput.mem_groupIds_iff.mp hid
  -- what is listed is a variable of the group
  obtain ⟨i, hi, hlisted⟩ := Hierarchy.variableInfos_eq_ok_iff.mp hinfos
  rw [hsg.path, hinput.groupId_path hproper.groups hlt] at hi
  obtain rfl := Except.ok.inj hi
  obtain ⟨v, hv, hinfo⟩ := Forall₂.exists_left hlisted hinfo
  obtain ⟨shape, hshape, rfl⟩ := Hierarchy.infoOf_eq_ok_iff.mp hinfo
  obtain rfl := Dataset.shape_eq_of_shapeOf hshape
  rw [hsg.path] at hcause
  -- every listed variable is in the hierarchy, so only the slice shape is left
  cases hcause with
  | missing hmissing =>
    obtain ⟨w, hw⟩ := Hierarchy.exists_findVariable? hinput hproper hsnapshot hlt hv
    rw [hw] at hmissing
    cases hmissing
  | misfit hmisfit => exact ⟨id, v, hv, _, hmisfit, rfl⟩

-- a name with a separator stands for a path of its own, which hides another group
example : EStateM.failsWith (· == .configuration (.missingFromSnapshot "/b/v"))
    (flatten ((Dataset.create "alias" true).applyAll
      [.group "/" "x", .group "/x" "b", .group "/" "x/b", .group "/" "b",
        .variable "/b" ⟨"v", .int, [], none⟩,
        .variableAttribute "/b/v" "coordinates" (.text "v")]) {}
      (Dataset.create "flat" false)) = true := by decide +kernel

end Memory

/-! ## Early or late -/

theorem early_surveyOf {ι σ : Type} [Readable ι] [Writable σ] (input : ι) (output : σ)
    (settings : Settings) : Except.FaultsIn Fault.IsEarly (survey input output settings) :=
  (early_checkDatasets input output settings).bind fun _ => early_survey input _ _ _ _ _

/-- Flattening is refused by the survey, before anything is written, or for a variable whose copy
has been created. -/
theorem early_or_late {ι σ : Type} [Readable ι] [Writable σ] {input : ι} {settings : Settings}
    {output output' : σ} {fault : Fault}
    (hrun : flatten input settings output = .error fault output')
    (hrefusal : fault.isRefusal = true) :
    survey input output settings = .error fault ∧ fault.isEarly = true ∧ output' = output ∨
      ∃ h, survey input output settings = .ok h ∧ fault.isEarly = false ∧
        Late input settings h fault output output' := by
  rcases flatten_eq_error_iff.mp hrun with ⟨hsurvey, rfl⟩ | ⟨h, t', hsurvey, htransfer, rfl⟩
  · exact Or.inl ⟨hsurvey, early_surveyOf input output settings fault hsurvey, rfl⟩
  · have hlate := (late_transferAll input settings h).refused _ fault t' htransfer hrefusal
    exact Or.inr ⟨h, hsurvey, hlate.isEarly_eq_false, hlate⟩

/-- Whatever datasets take part, flattening is refused by the survey or when the copy of a variable
has been created. An output in memory is as it was in the first case only, and an input in memory
whose names are proper brings about the second case only by a slice shape that does not suit a
variable. -/
theorem refused_early_or_late (settings : Settings) (fault : Fault)
    (hrefusal : fault.isRefusal = true) :
    (∀ (ι σ : Type) [Readable ι] [Writable σ] (input : ι) (output output' : σ),
      flatten input settings output = .error fault output' →
        survey input output settings = .error fault ∧ fault.isEarly = true ∧ output' = output ∨
          ∃ h, survey input output settings = .ok h ∧ fault.isEarly = false ∧
            Late input settings h fault output output') ∧
    (∀ (ι : Type) [Readable ι] (input : ι) (output output' : Dataset), output.Reachable →
      flatten input settings output = .error fault output' →
        (output' = output ↔ fault.isEarly = true)) ∧
    ∀ (σ : Type) [Writable σ] (input : Dataset) (output output' : σ), input.Reachable →
      input.HasProperNames → flatten input settings output = .error fault output' →
        fault.isEarly = false →
          ∃ id, ∃ v ∈ (input.group id).vars, ∃ sliceShape,
            Misfit settings (join (input.group id).path v.name) (input.currentShape v) sliceShape ∧
            fault = .configuration (.sliceShapeMisfit sliceShape
              (join (input.group id).path v.name) (input.currentShape v)) := by
  refine ⟨?_, ?_, ?_⟩
  · intro ι σ _ _ input output output' hrun
    exact early_or_late hrun hrefusal
  -- a late refusal leaves a new variable, so the output is no longer the same
  · intro ι _ input output output' houtput hrun
    rcases early_or_late hrun hrefusal with ⟨-, hearly, rfl⟩ | ⟨h, -, hnot, hlate⟩
    · simp [hearly]
    · simp [hnot, ne_of_late houtput hlate]
  -- with proper names a late refusal has one cause
  · intro σ _ input output output' hinput hproper hrun hnot
    rcases early_or_late hrun hrefusal with ⟨-, hearly, -⟩ | ⟨h, hsurvey, -, hlate⟩
    · rw [hnot] at hearly
      cases hearly
    · obtain ⟨-, -, hsnapshot⟩ := Except.bind_eq_ok_iff.mp hsurvey
      exact misfit_of_late hinput.wellFormed hproper hsnapshot hlate

/-- A variable along one dimension. -/
def tide : Dataset :=
  (Dataset.create "tide" true).applyAll
    [.dimension "/" "x" (some 2), .variable "/" ⟨"v", .double, ["/x"], none⟩]

/-- Slices along two dimensions, which the tide does not have. -/
def tideSettings : Settings := ({} : Settings).withSliceShape "/v" (some [1, 1])

/-- The station is nested too deeply for some settings and then leaves an empty dataset empty;
slices that do not suit the tide are found only when there is a copy of it. -/
theorem station_and_tide_refused : station.Reachable ∧ tide.Reachable ∧ tide.HasProperNames ∧
    (Dataset.create "flat" false).Reachable ∧
    flatten station { depthLimit := 0 } (Dataset.create "flat" false) =
      .error (.groupDepthExceeded "/site" 0) (Dataset.create "flat" false) ∧
    ∃ output', flatten tide tideSettings (Dataset.create "flat" false) =
        .error (.configuration (.sliceShapeMisfit [1, 1] "/v" [2])) output' ∧
      (∃ h, survey tide (Dataset.create "flat" false) tideSettings = .ok h ∧
        Late tide tideSettings h (.configuration (.sliceShapeMisfit [1, 1] "/v" [2]))
          (Dataset.create "flat" false) output') ∧
      output' ≠ Dataset.create "flat" false ∧
      ∃ id, ∃ v ∈ (tide.group id).vars, ∃ sliceShape,
        Misfit tideSettings (join (tide.group id).path v.name) (tide.currentShape v)
          sliceShape := by
  have htide : tide.Reachable := (Dataset.Reachable.create "tide" true).applyAll _
  have hproper : tide.HasProperNames := by decide +kernel
  have hflat : (Dataset.create "flat" false).Reachable := .create "flat" false
  -- early: a limit below the depth of the station
  obtain ⟨fault, output, hearly, hfault⟩ := EStateM.exists_of_failsWith
    (fun fault => fault == .groupDepthExceeded "/site" 0)
    (show EStateM.failsWith _ (flatten station { depthLimit := 0 }
      (Dataset.create "flat" false)) = true by decide +kernel)
  obtain rfl := beq_iff_eq.mp hfault
  obtain ⟨-, hdepth, -⟩ :=
    refused_early_or_late { depthLimit := 0 } (.groupDepthExceeded "/site" 0) rfl
  obtain rfl := (hdepth _ _ _ output hflat hearly).mpr rfl
  -- late: a slice shape of rank two for a variable of rank one
  obtain ⟨fault, output', hlate, hfault⟩ := EStateM.exists_of_failsWith
    (fun fault => fault == .configuration (.sliceShapeMisfit [1, 1] "/v" [2]))
    (show EStateM.failsWith _ (flatten tide tideSettings (Dataset.create "flat" false)) = true by
      decide +kernel)
  obtain rfl := beq_iff_eq.mp hfault
  obtain ⟨hcases, hiff, hslices⟩ := refused_early_or_late tideSettings
    (.configuration (.sliceShapeMisfit [1, 1] "/v" [2])) rfl
  have hne : output' ≠ Dataset.create "flat" false :=
    fun heq => nomatch (hiff _ _ _ output' hflat hlate).mp heq
  obtain ⟨id, v, hv, sliceShape, hsuits, -⟩ := hslices _ _ _ output' htide hproper hlate rfl
  rcases hcases _ _ _ _ output' hlate with ⟨-, hearly', -⟩ | ⟨h, hsurvey, -, hL⟩
  · cases hearly'
  · exact ⟨station_reachable, htide, hproper, hflat, hearly, output', hlate, ⟨h, hsurvey, hL⟩, hne,
      id, v, hv, sliceShape, hsuits⟩

/-- The copy of the tide is left behind when its slices are refused. -/
theorem tide_left_behind : tide.Reachable ∧ (Dataset.create "flat" false).Reachable ∧
    ∃ cause output', flatten tide tideSettings (Dataset.create "flat" false) =
        .error (.configuration cause) output' ∧
      (output'.group Dataset.rootId).vars.map (·.name) = ["v"] ∧
      output' ≠ Dataset.create "flat" false := by
  obtain ⟨fault, output', hrun, hcheck⟩ := EStateM.exists_of_failsLeaving
    (fun fault (output : Dataset) =>
      fault == .configuration (.sliceShapeMisfit [1, 1] "/v" [2]) &&
        (output.group Dataset.rootId).vars.map (·.name) == ["v"])
    (show EStateM.failsLeaving _ (flatten tide tideSettings (Dataset.create "flat" false)) =
      true by decide +kernel)
  rw [Bool.and_eq_true, beq_iff_eq, beq_iff_eq] at hcheck
  obtain ⟨rfl, hvars⟩ := hcheck
  refine ⟨(Dataset.Reachable.create "tide" true).applyAll _, .create "flat" false, _, output', hrun,
    hvars, ?_⟩
  rintro rfl
  cases hvars

end Flatten

end GroupFlattening
