import GroupFlattening.Flatten.Session
import GroupFlattening.Proofs.Faults

/-!
# Faults of Flattening

Only two steps of a flattening can fail for a reference: settling a token and replacing it. The
faults of all other steps are plain ones, whatever kinds of dataset take part: those of the survey
(`plain_survey`, `plain_checkDatasets`), of the search for what a token designates (`plain_resolve`)
and of the single steps of the transfer. Those of the survey are early ones, too (`early_survey`,
`early_checkDatasets`): datasets that do not go together, groups that are nested too deeply, reads
that fail and values that cannot be read.
-/

namespace GroupFlattening

/-- Whether the fault is about a reference; no other fault depends on the mode. -/
def Fault.isOfReference : Fault → Bool
  | .unresolvedReference .. => true
  | .ambiguousReference .. => true
  | _ => false

/-- The fault is about something other than a reference. -/
def Fault.IsPlain (fault : Fault) : Prop := fault.isOfReference = false

/-- Whether the survey can end in the fault. -/
def Fault.isEarly : Fault → Bool
  | .configuration (.sameDataset _) => true
  | .configuration (.incapable ..) => true
  | .configuration (.outputHoldsGroups _) => true
  | .groupDepthExceeded .. => true
  | .parse .. => true
  | .store _ => true
  | _ => false

/-- The fault is one that the survey can end in. -/
def Fault.IsEarly (fault : Fault) : Prop := fault.isEarly = true

theorem Fault.IsEarly.isPlain {fault : Fault} (h : fault.IsEarly) : fault.IsPlain := by
  cases fault with
  | unresolvedReference => cases h
  | ambiguousReference => cases h
  | _ => rfl

namespace Flatten

open Transfer (compute fromInput onOutput record)

/-! ## Elementary steps -/

section Plain

variable {ι σ α : Type}

theorem plain_error {fault : Fault} (h : fault.isOfReference = false) :
    Except.FaultsIn Fault.IsPlain (.error fault : Except Fault α) :=
  Except.FaultsIn.error h

theorem faultsIn_fromStore {P : Fault → Prop} (hstore : ∀ cause, P (.store cause))
    (read : Except StoreFault α) : Except.FaultsIn P (fromStore read) :=
  Except.FaultsIn.mapError hstore

theorem plain_fromInput (read : Except StoreFault α) :
    EStateM.FaultsIn Fault.IsPlain (fromInput read : TransferM σ α) := by
  intro t fault t' h
  unfold fromInput at h
  cases read with
  | error cause => cases h; rfl
  | ok a => cases h

theorem plain_onOutput (write : EStateM StoreFault σ α) :
    EStateM.FaultsIn Fault.IsPlain (onOutput write : TransferM σ α) := by
  intro t fault t' h
  unfold onOutput at h
  cases hwrite : write t.output with
  | error cause output => rw [hwrite] at h; cases h; rfl
  | ok a output => rw [hwrite] at h; cases h

theorem plain_record (change : ProvenanceMaps → ProvenanceMaps) :
    EStateM.FaultsIn Fault.IsPlain (record change : TransferM σ Unit) := by
  intro t fault t' h
  cases h

theorem faultsIn_compute {P : Fault → Prop} {result : Except Fault α}
    (hresult : Except.FaultsIn P result) :
    EStateM.FaultsIn P (compute result : TransferM σ α) := by
  intro t fault t' h
  cases result with
  | error other => cases h; exact hresult fault rfl
  | ok a => cases h

section Parse

variable {P : Fault → Prop} (hparse : ∀ name value, P (.parse name value))

include hparse

theorem faultsIn_ofAttribute (name value : String) :
    Except.FaultsIn P (References.ofAttribute name value) := by
  unfold References.ofAttribute
  split
  · apply Except.FaultsIn.ok
  · exact Except.FaultsIn.error (hparse _ _)

theorem faultsIn_referenceText (name : String) (value : AttributeValue) :
    Except.FaultsIn P (value.referenceText name) := by
  unfold AttributeValue.referenceText
  split
  · apply Except.FaultsIn.ok
  · apply Except.FaultsIn.ok
  · exact Except.FaultsIn.error (hparse _ _)

end Parse

theorem plain_ofAttribute (name value : String) :
    Except.FaultsIn Fault.IsPlain (References.ofAttribute name value) :=
  faultsIn_ofAttribute (fun _ _ => rfl) name value

end Plain

/-! ## The survey -/

section Survey

variable {ι σ : Type} [Readable ι] [Writable σ]

theorem early_fromStore {α : Type} (read : Except StoreFault α) :
    Except.FaultsIn Fault.IsEarly (fromStore read) :=
  faultsIn_fromStore (fun _ => rfl) read

theorem early_checkDatasets (input : ι) (output : σ) (settings : Settings) :
    Except.FaultsIn Fault.IsEarly (checkDatasets input output settings) := by
  simp only [checkDatasets]
  split
  -- the input and the output are one dataset
  · exact Except.FaultsIn.error rfl
  -- the settings require what one of the datasets lacks, or the output holds groups
  · split
    · exact Except.FaultsIn.error rfl
    · apply (early_fromStore _).bind
      intro groups
      split
      · apply Except.FaultsIn.pure
      · exact Except.FaultsIn.error rfl

theorem early_surveyGroup (input : ι) (path : String) (id : Nat) :
    Except.FaultsIn Fault.IsEarly (Hierarchy.surveyGroup input path id) := by
  refine (early_fromStore _).bind fun dimensions => (early_fromStore _).bind fun infos => ?_
  refine Except.FaultsIn.foldlM (fun group info _ => ?_) _
  refine Except.FaultsIn.bind ?_ fun coordinates => .pure _
  refine (early_fromStore _).bind fun attributes => ?_
  cases Attributes.find? attributes Hierarchy.coordinatesName with
  | none => exact .pure none
  | some value => exact (faultsIn_referenceText (fun _ _ => rfl) _ value).map some

/-- The survey goes down the tree, and at every group it can fail only for that group's sake. -/
theorem early_survey (input : ι) (limit : Nat) (h : Hierarchy) (parent : Option Nat)
    (depth : Nat) (path : String) :
    Except.FaultsIn Fault.IsEarly (Hierarchy.survey input limit h parent depth path) := by
  induction h, parent, depth, path using Hierarchy.survey.induct limit with
  | case1 h parent depth path hdeep =>
    -- a group too deep is refused before anything is written
    rw [Hierarchy.survey, dif_pos hdeep]
    exact Except.FaultsIn.error rfl
  | case2 h parent depth path hdeep ih =>
    rw [Hierarchy.survey, dif_neg hdeep]
    apply (early_surveyGroup input path h.size).bind
    intro group
    apply (early_fromStore _).bind
    intro names
    -- the groups below, each by the induction hypothesis
    apply Except.FaultsIn.foldlM
    intro grown name _
    exact ih grown name

theorem plain_checkDatasets (input : ι) (output : σ) (settings : Settings) :
    Except.FaultsIn Fault.IsPlain (checkDatasets input output settings) :=
  (early_checkDatasets input output settings).mono fun _ => Fault.IsEarly.isPlain

theorem plain_survey (input : ι) (limit : Nat) (h : Hierarchy) (parent : Option Nat)
    (depth : Nat) (path : String) :
    Except.FaultsIn Fault.IsPlain (Hierarchy.survey input limit h parent depth path) :=
  (early_survey input limit h parent depth path).mono fun _ => Fault.IsEarly.isPlain

theorem faultsIn_resolve {P : Fault → Prop} (hparse : ∀ name value, P (.parse name value))
    (h : Hierarchy) (rule : ReferenceRule) (v : Hierarchy.Variable) (token : String) :
    Except.FaultsIn P (h.resolve rule v token) := by
  unfold Hierarchy.resolve
  split
  -- an absolute token is its own answer
  · apply Except.FaultsIn.ok
  · generalize (none : Option (List String)) = ambiguous
    -- along the kinds, for every ambiguous answer that earlier ones may have given
    induction rule.kinds generalizing ambiguous with
    | nil => exact Except.FaultsIn.ok _
    | cons kind kinds ih =>
      rw [Hierarchy.resolveAmong]
      split
      · split
        · refine Except.FaultsIn.bind ?_ fun scalar => ?_
          -- a variable that is found may have to be a scalar coordinate
          · unfold Hierarchy.isScalarCoordinate
            split
            · apply Except.FaultsIn.ok
            · exact (faultsIn_ofAttribute hparse _ _).bind fun listed => .pure _
          · split
            · exact Except.FaultsIn.pure _
            · exact Except.FaultsIn.pure _
        · apply Except.FaultsIn.ok
      · apply ih
      · apply ih

theorem plain_resolve (h : Hierarchy) (rule : ReferenceRule) (v : Hierarchy.Variable)
    (token : String) : Except.FaultsIn Fault.IsPlain (h.resolve rule v token) :=
  faultsIn_resolve (fun _ _ => rfl) h rule v token

end Survey

/-! ## The transfer -/

section Transfer

variable {ι σ : Type} [Readable ι] [Writable σ]

theorem plain_setAttribute (flatPath name : String) (value : AttributeValue) :
    EStateM.FaultsIn Fault.IsPlain
      (Transfer.setAttribute flatPath name value : TransferM σ Unit) :=
  plain_onOutput _

theorem plain_group (input : ι) (path : String) :
    EStateM.FaultsIn Fault.IsPlain
      (Transfer.group input path : TransferM σ (List VariableInfo)) := by
  refine (plain_fromInput _).bind fun attributes => ?_
  refine (EStateM.FaultsIn.forM (fun entry => ?_) attributes).bind fun _ => ?_
  · exact (plain_onOutput _).bind fun _ => plain_record _
  refine (plain_fromInput _).bind fun dimensions => ?_
  refine (EStateM.FaultsIn.forM (fun dim => ?_) dimensions).bind fun _ => plain_fromInput _
  exact (plain_onOutput _).bind fun _ => plain_record _

theorem faultsIn_pending? {P : Fault → Prop} (hparse : ∀ name value, P (.parse name value))
    (path flatPath : String) (entry : String × AttributeValue) :
    Except.FaultsIn P (Transfer.pending? path flatPath entry) := by
  unfold Transfer.pending?
  split
  · apply Except.FaultsIn.ok
  · exact (faultsIn_referenceText hparse _ _).bind fun value => .pure _

theorem faultsIn_flatDimension {P : Fault → Prop} (hstore : ∀ cause, P (.store cause))
    (names : NameTable) (owner path : String) :
    Except.FaultsIn P (Transfer.flatDimension names owner path) := by
  unfold Transfer.flatDimension
  split
  · apply Except.FaultsIn.ok
  · exact Except.FaultsIn.error (hstore _)

theorem plain_createVariable (input : ι) (names : NameTable) (group : String)
    (info : VariableInfo) :
    EStateM.FaultsIn Fault.IsPlain
      (Transfer.createVariable input names group info : TransferM σ Transfer.Created) := by
  refine (faultsIn_compute (Except.FaultsIn.mapM fun path _ => ?_)).bind fun dimensions => ?_
  · exact faultsIn_flatDimension (fun _ => rfl) names _ path
  -- the dimensions are known by now, so the copy is created and its attributes follow
  refine (plain_fromInput _).bind fun attributes => ?_
  refine (plain_onOutput _).bind fun _ => (plain_record _).bind fun _ => ?_
  refine (EStateM.FaultsIn.mapM (fun entry => ?_) _).bind fun pending => .pure _
  refine (faultsIn_compute (faultsIn_pending? (fun _ _ => rfl) _ _ entry)).bind fun pending => ?_
  exact (plain_setAttribute _ _ _).bind fun _ => .pure pending

theorem plain_data (input : ι) (settings : Settings) (path flatPath : String)
    (info : VariableInfo) :
    EStateM.FaultsIn Fault.IsPlain
      (Transfer.data input settings path flatPath info : TransferM σ Unit) := by
  have hpart : ∀ part place, EStateM.FaultsIn Fault.IsPlain
      (Transfer.dataPart input path flatPath part place : TransferM σ Unit) :=
    fun part place => (plain_fromInput _).bind fun data => plain_onOutput _
  unfold Transfer.data
  split
  -- the settings leave data out, or there is none
  · apply EStateM.FaultsIn.pure
  · split
    · apply hpart
    · split
      -- the settings hold a slice shape of another rank
      · exact EStateM.FaultsIn.throw rfl
      · rw [SliceGrid.forSlices_eq]
        exact EStateM.FaultsIn.forM (fun box => hpart _ _) _

theorem plain_finish :
    EStateM.FaultsIn Fault.IsPlain (Transfer.finish : TransferM σ ProvenanceMaps) := by
  refine EStateM.FaultsIn.bind ?_ fun transfer => (plain_onOutput _).bind fun _ => .pure _
  intro t fault t' h
  cases h

theorem plain_surveyed (h : Hierarchy) (path : String) :
    Except.FaultsIn Fault.IsPlain (surveyed h path) := by
  unfold surveyed
  split
  · apply Except.FaultsIn.ok
  · exact plain_error rfl

end Transfer

end Flatten

end GroupFlattening
