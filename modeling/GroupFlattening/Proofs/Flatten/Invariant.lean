import GroupFlattening.Proofs.Dataset.Stepwise
import GroupFlattening.Proofs.Flatten.Refusal
import GroupFlattening.Proofs.Invariant

/-!
# Invariants of a Transfer

A step of a transfer touches its output by writes only, so what the writes maintain the step
maintains (`Keeps`). The steps for a group and the one for the provenance write to the root. Those
that finish a variable set attributes and write data of its copy and of nothing else, and the step
for a whole variable starts with creating that copy: whoever knows what creating it implies for the
writes that follow knows what the step maintains (`keeps_variableStep`).
-/

namespace GroupFlattening

namespace Flatten

open GroupFlattening.EStateM (Maintains)
open ObjectPath (join)
open Transfer (compute fromInput onOutput record)

section Keeps

variable {σ α : Type} {J : σ → Prop} {P : Fault → Prop}

/-- The step maintains a property of the output, and its faults have a property of their own. -/
abbrev Keeps (J : σ → Prop) (P : Fault → Prop) (step : TransferM σ α) : Prop :=
  Maintains (fun t => J t.output) P step

/-- The write maintains the property, and a transfer that fails in it has a fault with the property
of faults. -/
abbrev KeepsWrite (J : σ → Prop) (P : Fault → Prop) (write : EStateM StoreFault σ α) : Prop :=
  Maintains J (fun cause => P (.store cause)) write

/-! ## Elementary steps -/

theorem keeps_fromInput {read : Except StoreFault α}
    (hread : Except.FaultsIn (fun cause => P (.store cause)) read) :
    Keeps J P (fromInput read : TransferM σ α) := by
  intro t ht
  unfold fromInput
  cases read with
  | error cause => exact ⟨ht, hread cause rfl⟩
  | ok a => exact ht

theorem keeps_compute {result : Except Fault α} (hresult : Except.FaultsIn P result) :
    Keeps J P (compute result : TransferM σ α) := by
  intro t ht
  unfold compute
  cases result with
  | error fault => exact ⟨ht, hresult fault rfl⟩
  | ok a => exact ht

theorem keeps_record (change : ProvenanceMaps → ProvenanceMaps) :
    Keeps J P (record change : TransferM σ Unit) := fun _ ht => ht

theorem keeps_onOutput {write : EStateM StoreFault σ α} (hwrite : KeepsWrite J P write) :
    Keeps J P (onOutput write : TransferM σ α) := by
  intro t ht
  have hends := hwrite t.output ht
  unfold onOutput
  cases hrun : write t.output with
  | error cause output => exact hends.of_error hrun
  | ok a output => exact hends.of_ok hrun

/-! ## Groups and the provenance -/

variable {ι : Type} [Readable ι] [Writable σ]

section Root

variable (hset : ∀ name value, KeepsWrite J P
  (Writable.setGroupAttribute ObjectPath.root name value : EStateM StoreFault σ Unit))

include hset

theorem keeps_group {input : ι} {path : String}
    (hattributes : Except.FaultsIn (fun cause => P (.store cause))
      (Readable.groupAttributes input path))
    (hdimensions : Except.FaultsIn (fun cause => P (.store cause))
      (Readable.dimensions input path))
    (hinfos : Except.FaultsIn (fun cause => P (.store cause)) (Readable.variableInfos input path))
    (hcreate : ∀ name size, KeepsWrite J P
      (Writable.createDimension ObjectPath.root name size : EStateM StoreFault σ Unit)) :
    Keeps J P (Transfer.group input path : TransferM σ (List VariableInfo)) := by
  have hattribute : ∀ entry, Keeps J P
      (Transfer.groupAttribute path entry : TransferM σ Unit) := by
    intro entry
    apply Maintains.bind (keeps_onOutput (hset _ _))
    intro _ _ _ _ _
    exact keeps_record _
  have hdimension : ∀ dim, Keeps J P (Transfer.dimension path dim : TransferM σ Unit) := by
    intro dim
    apply Maintains.bind (keeps_onOutput (hcreate _ _))
    intro _ _ _ _ _
    exact keeps_record _
  -- attributes before dimensions, and the variables are only read
  apply Maintains.bind (keeps_fromInput hattributes)
  intro _ attributes _ _ _
  apply Maintains.bind (Maintains.forM hattribute attributes)
  intro _ _ _ _ _
  apply Maintains.bind (keeps_fromInput hdimensions)
  intro _ dimensions _ _ _
  apply Maintains.bind (Maintains.forM hdimension dimensions)
  intro _ _ _ _ _
  exact keeps_fromInput hinfos

theorem keeps_finish : Keeps J P (Transfer.finish : TransferM σ ProvenanceMaps) := by
  have hget : Keeps J P (get : TransferM σ (Transfer σ)) := fun _ ht => ht
  -- three attributes of the root, one after the other
  have hwrite : ∀ p : ProvenanceMaps, KeepsWrite J P (p.write : EStateM StoreFault σ Unit) := by
    intro p
    apply Maintains.bind (hset _ _)
    intro _ _ _ _ _
    apply Maintains.bind (hset _ _)
    intro _ _ _ _ _
    exact hset _ _
  apply Maintains.bind hget
  intro _ transfer _ _ _
  apply Maintains.bind (keeps_onOutput (hwrite transfer.provenance))
  intro _ _ _ _ _
  exact Maintains.pure _

end Root

/-! ## Finishing a variable -/

section Finish

variable {input : ι} {path flatPath : String}
  (hother : ∀ fault, (∀ cause, fault ≠ .store cause) → P fault)
  (hset : ∀ name value, KeepsWrite J P
    (Writable.setVariableAttribute flatPath name value : EStateM StoreFault σ Unit))

include hother

theorem parse_of_other (name value : String) : P (.parse name value) :=
  hother _ fun _ h => nomatch h

theorem failure_of_other (site : ReferenceSite) (token : String) (candidates : List String) :
    P (site.failure token candidates) := by
  apply hother
  intro cause
  unfold ReferenceSite.failure
  split <;> exact fun h => nomatch h

include hset

theorem keeps_variableAttribute (entry : String × AttributeValue) :
    Keeps J P (Transfer.variableAttribute path flatPath entry : TransferM σ _) := by
  apply Maintains.bind (keeps_compute (faultsIn_pending? (parse_of_other hother) _ _ entry))
  intro _ pending _ _ _
  apply Maintains.bind (keeps_onOutput (hset _ _))
  intro _ _ _ _ _
  exact Maintains.pure _

theorem keeps_replacePending (names : NameTable) (settings : Settings)
    {entry : Transfer.Pending × ReferenceSite.Settled} (howner : entry.1.flatOwner = flatPath) :
    Keeps J P (replacePending names settings entry : TransferM σ _) := by
  have hreplace : Except.FaultsIn P (entry.1.site.replaceAll names settings.laxMode
      entry.2.references entry.2.resolutions) :=
    faultsIn_replaceAll fun token _ _ _ => failure_of_other hother entry.1.site token []
  -- the text is put together before it is set at the copy
  apply Maintains.bind (keeps_compute hreplace)
  intro _ text _ _ _
  apply Maintains.bind
  · rw [howner]
    exact keeps_onOutput (hset _ _)
  · intro _ _ _ _ _
    exact Maintains.pure _

theorem keeps_references (h : Hierarchy) (names : NameTable) (settings : Settings)
    {created : Transfer.Created}
    (howner : ∀ pending ∈ created.pending, pending.flatOwner = flatPath) :
    Keeps J P (references h names settings created : TransferM σ Tally) := by
  unfold references
  split
  · exact Maintains.pure _
  -- the variable is in the hierarchy, or the run stops at an internal fault
  · have hsurveyed : Except.FaultsIn P (surveyed h created.path) := by
      intro fault hfault
      unfold surveyed at hfault
      split at hfault
      · cases hfault
      · cases hfault
        exact hother _ fun _ h => nomatch h
    apply Maintains.bind (keeps_compute hsurveyed)
    intro _ v _ _ _
    -- the tokens are settled without any write
    have hsettle : Except.FaultsIn P (created.pending.mapM (settlePending h settings v)) := by
      apply Except.FaultsIn.mapM
      intro pending _
      apply (faultsIn_settle (parse_of_other hother) (failure_of_other hother pending.site) h v
        _).bind
      intro settled
      exact .pure _
    apply Maintains.bind (keeps_compute hsettle)
    intro _ settled _ _ hsettled
    -- what is settled was pending, and belongs to the copy
    have howners : ∀ entry ∈ settled, entry.1.flatOwner = flatPath := by
      intro entry hentry
      have hall := Except.mapM_eq_ok_iff.mp (Transfer.compute_eq_ok_iff.mp hsettled).1
      obtain ⟨pending, hpending, hsettles⟩ := Forall₂.exists_left hall hentry
      obtain ⟨_, _, hpure⟩ := Except.bind_eq_ok_iff.mp hsettles
      obtain rfl := Except.pure_eq_ok_iff.mp hpure
      exact howner pending hpending
    apply Maintains.bind
      (Maintains.mapM fun entry hentry =>
        keeps_replacePending hother hset names settings (howners entry hentry))
    intro _ unnamed _ _ _
    exact Maintains.pure _

omit hset in
theorem keeps_data (settings : Settings) (info : VariableInfo)
    (hread : ∀ part, Except.FaultsIn (fun cause => P (.store cause))
      (Readable.readData input path part))
    (hwrite : ∀ place data, KeepsWrite J P
      (Writable.writeData flatPath place data : EStateM StoreFault σ Unit)) :
    Keeps J P (Transfer.data input settings path flatPath info : TransferM σ Unit) := by
  -- each part is read from the input and written to the copy
  have hpart : ∀ part place, Keeps J P
      (Transfer.dataPart input path flatPath part place : TransferM σ Unit) := by
    intro part place
    apply Maintains.bind (keeps_fromInput (hread part))
    intro _ data _ _ _
    exact keeps_onOutput (hwrite place data)
  unfold Transfer.data
  split
  -- nothing to copy
  · exact Maintains.pure ()
  · split
    · exact hpart _ _
    · split
      · exact Maintains.throw (hother _ fun _ h => nomatch h)
      · rw [SliceGrid.forSlices_eq]
        exact Maintains.forM (fun box => hpart _ _) _

end Finish

/-! ## A whole variable -/

/-- The attributes that are pending after a copy was created belong to it. -/
theorem flatOwner_of_createVariable {input : ι} {names : NameTable} {group : String}
    {info : VariableInfo} {t t' : Transfer σ} {created : Transfer.Created}
    (hrun : Transfer.createVariable input names group info t = .ok created t') :
    created.flatPath = join ObjectPath.root (flatName group info.name) ∧
      ∀ pending ∈ created.pending, pending.flatOwner = created.flatPath := by
  refine ⟨?_, fun pending hpending => (pending_of_created hrun pending hpending).2.1⟩
  obtain ⟨_, _, -, -, rfl⟩ := created_of_createVariable hrun
  rfl

/-- What creating a copy maintains, and what setting its attributes and writing its data maintain
once it has been created, the step for a variable maintains. -/
theorem keeps_variableStep {input : ι} {h : Hierarchy} {names : NameTable} {settings : Settings}
    {group : String} {info : VariableInfo}
    (hcreate : ∀ definition, definition.name = flatName group info.name →
      KeepsWrite J (fun _ => True)
        (Writable.createVariable ObjectPath.root definition : EStateM StoreFault σ Unit))
    (hfinish : ∀ definition d d', definition.name = flatName group info.name → J d →
      Writable.createVariable ObjectPath.root definition d = .ok () d' →
      (∀ name value, KeepsWrite J (fun _ => True) (Writable.setVariableAttribute
        (join ObjectPath.root (flatName group info.name)) name value :
          EStateM StoreFault σ Unit)) ∧
      ∀ place data, KeepsWrite J (fun _ => True) (Writable.writeData
        (join ObjectPath.root (flatName group info.name)) place data :
          EStateM StoreFault σ Unit)) :
    Keeps J (fun _ => True)
      (variableStep input h names settings group info : TransferM σ Tally) := by
  have hany : ∀ fault : Fault, (∀ cause, fault ≠ .store cause) → True := fun _ _ => trivial
  -- what follows the creation in the same step is an attribute of the new copy
  have hcreated : Keeps J (fun _ => True)
      (Transfer.createVariable input names group info : TransferM σ _) := by
    apply Maintains.bind (keeps_compute fun _ _ => trivial)
    intro _ dimensions _ _ _
    apply Maintains.bind (keeps_fromInput fun _ _ => trivial)
    intro _ attributes _ _ _
    apply Maintains.bind (keeps_onOutput (hcreate _ rfl))
    intro t _ _ ht hwrite
    obtain ⟨output, hwrite, -⟩ := Transfer.onOutput_eq_ok_iff.mp hwrite
    obtain ⟨hset, -⟩ := hfinish _ _ _ rfl ht hwrite
    apply Maintains.bind (keeps_record _)
    intro _ _ _ _ _
    apply Maintains.bind (Maintains.mapM fun entry _ => keeps_variableAttribute hany hset entry)
    intro _ pending _ _ _
    exact Maintains.pure _
  apply Maintains.bind hcreated
  intro t created _ ht hrun
  obtain ⟨-, definition, after, hname, hwrite, -⟩ := written_createVariable hrun
  -- so `J` held before the creation, and later writes to the copy keep it
  obtain ⟨hset, hdata⟩ := hfinish _ _ _ hname ht hwrite
  obtain ⟨hflat, howner⟩ := flatOwner_of_createVariable hrun
  rw [← hflat] at hset hdata
  apply Maintains.bind (keeps_references hany hset h names settings howner)
  intro _ tally _ _ _
  apply Maintains.bind (keeps_data hany settings info (fun _ _ _ => trivial) hdata)
  intro _ _ _ _ _
  exact Maintains.pure _

/-- What the transfer leaves behind, a flattening that has been surveyed leaves behind. -/
theorem endsIn_flatten {input : ι} {settings : Settings} {output : σ} {h : Hierarchy}
    (hsurvey : survey input output settings = .ok h)
    (hall : EStateM.EndsIn (fun t => J t.output) P
      (transferAll input settings h { output := output })) :
    EStateM.EndsIn J P (flatten input settings output) := by
  simp only [flatten, hsurvey]
  cases hrun : transferAll input settings h { output := output } with
  | error fault t' => exact hall.of_error hrun
  | ok report t' => exact hall.of_ok hrun

end Keeps

/-! ## Datasets in memory -/

section Memory

variable {J : Dataset → Prop}

/-- A write that changes nothing when it fails maintains what it maintains when it succeeds. -/
theorem maintains_of_ok {write : EStateM StoreFault Dataset Unit}
    (hatomic : ∀ d, Dataset.Atomic write d)
    (hok : ∀ d d', J d → write d = .ok () d' → J d') : Maintains J (fun _ => True) write := by
  intro d hd
  cases hrun : write d with
  | error cause d' =>
    obtain rfl := hatomic d cause d' hrun
    exact ⟨hd, trivial⟩
  | ok _ d' => exact hok d d' hd hrun

/-- A write that is one of the operations maintains what all operations maintain. -/
theorem maintains_of_change {P : StoreFault → Prop} {write : EStateM StoreFault Dataset Unit}
    (change : Dataset.Change) (hchange : ∀ d, Dataset.stateAfter (write d) = change.apply d)
    (hJ : ∀ d, J d → J (change.apply d))
    (hfault : ∀ d cause d', J d → write d = .error cause d' → P cause) : Maintains J P write := by
  intro d hd
  -- the state after the write is the one of the change, whether it succeeds or not
  have hafter := hJ d hd
  rw [← hchange] at hafter
  cases hrun : write d with
  | ok _ d' =>
    rw [hrun] at hafter
    exact hafter
  | error cause d' =>
    have hcause := hfault d cause d' hd hrun
    rw [hrun] at hafter
    exact ⟨hafter, hcause⟩

end Memory

end Flatten

end GroupFlattening
