import GroupFlattening.Proofs.Flatten.Invariant
import GroupFlattening.Store.Restricted

/-!
# Flattening Restricted Datasets

A policy in front of a dataset lets an operation through or refuses it, and a refused write leaves
the dataset as it is (`guardWrite_of_refused`). So the writes that are let through decide what can
become of an output: what they maintain of the dataset a run maintains, whether it succeeds or
fails, and the policy stays the same (`maintains_flatten`). If no write is let through, the output
is left untouched (`flatten_of_refusesWrites`).

An input is only read. One that cannot be surveyed is turned down before anything is written
(`flatten_of_refusesSurvey`). Otherwise a run depends on the answers to its reads alone
(`ReadsAlike.flatten_eq`), and it reads no data unless it copies data; so refusing these reads makes
no difference to a run that does not (`flatten_of_refusesData`).
-/

namespace GroupFlattening

namespace Restricted

open GroupFlattening.EStateM (Maintains EndsIn)

variable {σ α : Type} {d start : Restricted σ} {operation : Operation} {J : σ → Prop}

/-! ## Single operations -/

theorem guardRead_of_refused (h : operation ∈ d.refused) (read : σ → Except StoreFault α) :
    d.guardRead operation read = .error (.io (operation.label ++ " denied")) := by
  rw [guardRead, if_pos (List.contains_iff_mem.mpr h)]

theorem guardRead_of_allowed (h : operation ∉ d.refused) (read : σ → Except StoreFault α) :
    d.guardRead operation read = read d.inner := by
  rw [guardRead, if_neg (List.contains_iff_mem.not.mpr h)]

/-- A read that succeeds has been let through. -/
theorem guardRead_eq_ok_iff {read : σ → Except StoreFault α} {a : α} :
    d.guardRead operation read = .ok a ↔ operation ∉ d.refused ∧ read d.inner = .ok a := by
  by_cases h : operation ∈ d.refused
  · simp [guardRead_of_refused h, h]
  · simp [guardRead_of_allowed h, h]

/-- A refused write leaves the dataset and the policy as they are. -/
theorem guardWrite_of_refused [Readable σ] (h : operation ∈ d.refused)
    (write : EStateM StoreFault σ Unit) :
    guardWrite operation write d =
      .error (.unsupported (.operation (Readable.name d.inner) operation)) d := by
  rw [guardWrite, if_pos (List.contains_iff_mem.mpr h)]
  rfl

/-- The dataset has the property, and the policy is the one at the start. -/
structure Behind (J : σ → Prop) (start d : Restricted σ) : Prop where
  inner : J d.inner
  advertised : d.advertised = start.advertised
  refused : d.refused = start.refused

/-- What a write maintains it maintains behind a policy, too; a refused one maintains everything. -/
theorem maintains_guardWrite [Readable σ] {write : EStateM StoreFault σ Unit}
    (hwrite : operation ∉ start.refused → Maintains J (fun _ => True) write) :
    Maintains (Behind J start) (fun _ => True) (guardWrite operation write) := by
  intro d hd
  -- a refused write leaves everything as it is, and any other is one of the dataset inside
  by_cases hrefused : operation ∈ d.refused
  · rw [guardWrite_of_refused hrefused]
    exact ⟨hd, trivial⟩
  · have hends := hwrite (hd.refused ▸ hrefused) d.inner hd.inner
    rw [guardWrite, if_neg (List.contains_iff_mem.not.mpr hrefused)]
    cases hrun : write d.inner with
    | ok _ inner => exact ⟨hends.of_ok hrun, hd.advertised, hd.refused⟩
    | error fault inner =>
      exact ⟨⟨(hends.of_error hrun).1, hd.advertised, hd.refused⟩, trivial⟩

/-! ## Restricted outputs -/

/-- All writes that are not refused maintain a property of the dataset. -/
structure AllowedMaintain [Writable σ] (J : σ → Prop) (refused : List Operation) : Prop where
  createDimension : .createDimension ∉ refused → ∀ group name size,
    Maintains J (fun _ => True) (Writable.createDimension group name size :
      EStateM StoreFault σ Unit)
  createVariable : .createVariable ∉ refused → ∀ group definition,
    Maintains J (fun _ => True) (Writable.createVariable group definition :
      EStateM StoreFault σ Unit)
  setGroupAttribute : .setGroupAttribute ∉ refused → ∀ group name value,
    Maintains J (fun _ => True) (Writable.setGroupAttribute group name value :
      EStateM StoreFault σ Unit)
  setVariableAttribute : .setVariableAttribute ∉ refused → ∀ path name value,
    Maintains J (fun _ => True) (Writable.setVariableAttribute path name value :
      EStateM StoreFault σ Unit)
  writeData : .writeData ∉ refused → ∀ path selection data,
    Maintains J (fun _ => True) (Writable.writeData path selection data :
      EStateM StoreFault σ Unit)

section Output

open Flatten (Keeps KeepsWrite transferAll groupStep variableStep)

variable {ι : Type} [Readable ι] [Writable σ] {input : ι} {settings : Settings}
  (hallowed : AllowedMaintain J start.refused)

include hallowed

theorem keepsWrite_setGroupAttribute (name : String) (value : AttributeValue) :
    KeepsWrite (Behind J start) (fun _ => True) (Writable.setGroupAttribute ObjectPath.root name
      value : EStateM StoreFault (Restricted σ) Unit) :=
  maintains_guardWrite fun h => hallowed.setGroupAttribute h _ _ _

theorem keeps_groupStep (h : Hierarchy) (names : NameTable) (group : Hierarchy.Group) :
    Keeps (Behind J start) (fun _ => True) (groupStep input h names settings group) := by
  -- the writes for a variable are the ones that are guarded
  have hvariable (info : VariableInfo) : Keeps (Behind J start) (fun _ => True)
      (variableStep (σ := Restricted σ) input h names settings group.path info) := by
    apply Flatten.keeps_variableStep
    · exact fun _ _ => maintains_guardWrite fun h => hallowed.createVariable h _ _
    · intro _ _ _ _ _ _
      exact ⟨fun _ _ => maintains_guardWrite fun h => hallowed.setVariableAttribute h _ _ _,
        fun _ _ => maintains_guardWrite fun h => hallowed.writeData h _ _ _⟩
  apply Maintains.bind
  · exact Flatten.keeps_group (keepsWrite_setGroupAttribute hallowed) (fun _ _ => trivial)
      (fun _ _ => trivial) (fun _ _ => trivial)
      fun _ _ => maintains_guardWrite fun h => hallowed.createDimension h _ _ _
  · intro _ infos _ _ _
    exact Maintains.bind (Maintains.mapM fun info _ => hvariable info)
      fun _ _ _ _ _ => Maintains.pure _

theorem keeps_transferAll (h : Hierarchy) :
    Keeps (Behind J start) (fun _ => True) (transferAll input settings h) := by
  apply Maintains.bind (Maintains.mapM fun group _ => keeps_groupStep hallowed h _ group)
  intro _ tallies _ _ _
  exact Maintains.bind (Flatten.keeps_finish (keepsWrite_setGroupAttribute hallowed))
    fun _ _ _ _ _ => Maintains.pure _

/-- A run maintains whatever all writes maintain that the policy of the output lets through, and it
leaves the policy as it is. -/
theorem maintains_flatten :
    Maintains (Behind J start) (fun _ => True)
      (flatten input settings : EStateM Fault (Restricted σ) Report) := by
  intro output houtput
  cases hsurvey : Flatten.survey input output settings with
  | error fault =>
    -- a run that ends here has written nothing
    simp only [flatten, hsurvey]
    exact ⟨houtput, trivial⟩
  | ok h => exact Flatten.endsIn_flatten hsurvey (keeps_transferAll hallowed h _ houtput)

end Output

/-- An output that refuses all writes is left as it was. -/
theorem flatten_of_refusesWrites {ι : Type} [Readable ι] [Writable σ] (input : ι)
    (settings : Settings) {output : Restricted σ}
    (hrefused : ∀ operation ∈ [.createDimension, .createVariable, .setGroupAttribute,
      .setVariableAttribute, .writeData], operation ∈ output.refused) :
    EndsIn (· = output) (fun _ => True) (flatten input settings output) := by
  simp only [List.forall_mem_cons] at hrefused
  obtain ⟨hdimension, hvariable, hgroup, hattribute, hdata, -⟩ := hrefused
  -- no write is left that could change the dataset inside
  have hallowed : AllowedMaintain (· = output.inner) output.refused :=
    ⟨absurd hdimension, absurd hvariable, absurd hgroup, absurd hattribute, absurd hdata⟩
  refine (maintains_flatten hallowed output ⟨rfl, rfl, rfl⟩).mono fun d hd => ?_
  obtain ⟨hinner, hadvertised, hrefused⟩ := hd
  cases d
  subst hinner hadvertised hrefused
  rfl

/-! ## Inputs that cannot be surveyed -/

/-- An input that cannot be surveyed is turned down, and nothing has been written then. -/
theorem flatten_of_refusesSurvey {ι : Type} [Readable ι] [Writable σ] {input : Restricted ι}
    (settings : Settings) (output : σ)
    (hrefused : ∃ operation ∈ [.dimensions, .variableInfos, .groupNames],
      operation ∈ input.refused) :
    ∃ fault, flatten input settings output = .error fault output := by
  cases hsurvey : Flatten.survey input output settings with
  | error fault => exact ⟨fault, by simp only [flatten, hsurvey]⟩
  | ok h =>
    -- a survey begins with the root, for which it needs all three operations
    obtain ⟨-, -, hsnapshot⟩ := Except.bind_eq_ok_iff.mp hsurvey
    rw [Hierarchy.ofDataset, Hierarchy.survey, dif_neg (Nat.not_lt_zero _)] at hsnapshot
    simp only [Hierarchy.surveyGroup, Except.bind_eq_ok_iff, fromStore,
      Except.mapError_eq_ok_iff] at hsnapshot
    obtain ⟨_, ⟨_, hdimensions, _, hinfos, -⟩, _, hnames, -⟩ := hsnapshot
    simp only [List.exists_mem_cons_iff] at hrefused
    obtain hrefused | hrefused | hrefused | ⟨_, h, -⟩ := hrefused
    · exact absurd hrefused (guardRead_eq_ok_iff.mp hdimensions).1
    · exact absurd hrefused (guardRead_eq_ok_iff.mp hinfos).1
    · exact absurd hrefused (guardRead_eq_ok_iff.mp hnames).1
    · cases h

end Restricted

/-! ## Inputs that read alike -/

namespace Flatten

variable {ι κ σ : Type} [Readable ι] [Readable κ] [Writable σ]

/-- Two inputs give the same answers to all that a run asks for; it asks for data only if data is
copied. -/
structure ReadsAlike (settings : Settings) (input : ι) (input' : κ) : Prop where
  location : Readable.location input = Readable.location input'
  capabilities : Readable.capabilities input = Readable.capabilities input'
  groupNames : Readable.groupNames input = Readable.groupNames input'
  groupAttributes : Readable.groupAttributes input = Readable.groupAttributes input'
  dimensions : Readable.dimensions input = Readable.dimensions input'
  variableInfos : Readable.variableInfos input = Readable.variableInfos input'
  variableAttributes : Readable.variableAttributes input = Readable.variableAttributes input'
  readData : settings.copyData = true → Readable.readData input = Readable.readData input'

namespace ReadsAlike

variable {settings : Settings} {input : ι} {input' : κ} (halike : ReadsAlike settings input input')

include halike

theorem surveyGroup_eq : Hierarchy.surveyGroup input = Hierarchy.surveyGroup input' := by
  funext path id
  simp only [Hierarchy.surveyGroup, Hierarchy.surveyCoordinates, halike.dimensions,
    halike.variableInfos, halike.variableAttributes]

/-- The surveys add the same groups. -/
theorem survey_eq {limit : Nat} (left : Nat) {h : Hierarchy} {parent : Option Nat} {depth : Nat}
    {path : String} (hleft : limit + 1 - depth = left) :
    Hierarchy.survey input limit h parent depth path =
      Hierarchy.survey input' limit h parent depth path := by
  induction left generalizing h parent depth path with
  | zero => rw [Hierarchy.survey, Hierarchy.survey, dif_pos (by omega), dif_pos (by omega)]
  | succ left ih =>
    rw [Hierarchy.survey, Hierarchy.survey, dif_neg (by omega), dif_neg (by omega),
      halike.surveyGroup_eq, halike.groupNames]
    -- the groups inside are nested one deeper
    simp only [ih (show limit + 1 - (depth + 1) = left by omega)]

theorem checkDatasets_eq (output : σ) :
    checkDatasets input output settings = checkDatasets input' output settings := by
  have hcapable : isCapable input output = isCapable input' output := by
    funext requirement
    simp only [isCapable, Readable.supports, halike.capabilities]
  simp only [checkDatasets, halike.location, hcapable]

theorem group_eq (path : String) :
    (Transfer.group input path : TransferM σ _) = Transfer.group input' path := by
  simp only [Transfer.group, halike.groupAttributes, halike.dimensions, halike.variableInfos]

theorem data_eq (path flatPath : String) (info : VariableInfo) :
    (Transfer.data input settings path flatPath info : TransferM σ Unit) =
      Transfer.data input' settings path flatPath info := by
  by_cases hcopy : settings.copyData = true
  · simp only [Transfer.data, Transfer.dataPart, halike.readData hcopy]
  · simp only [Transfer.data, if_pos (Or.inl hcopy)]

theorem variableStep_eq (h : Hierarchy) (names : NameTable) (group : String) :
    (variableStep input h names settings group : VariableInfo → TransferM σ Tally) =
      variableStep input' h names settings group := by
  funext info
  simp only [variableStep, Transfer.createVariable, halike.variableAttributes, halike.data_eq]

theorem transferAll_eq (h : Hierarchy) :
    (transferAll input settings h : TransferM σ Report) = transferAll input' settings h := by
  have hgroup (names : NameTable) :
      (groupStep input h names settings : Hierarchy.Group → TransferM σ Tally) =
        groupStep input' h names settings := by
    funext group
    simp only [groupStep, halike.group_eq, halike.variableStep_eq]
  simp only [transferAll, hgroup]

/-- Inputs that read alike are flattened alike. -/
theorem flatten_eq (output : σ) :
    flatten input settings output = flatten input' settings output := by
  have hsurvey : survey input output settings = survey input' output settings := by
    simp only [survey, Hierarchy.ofDataset, halike.checkDatasets_eq, halike.survey_eq _ rfl]
  simp only [flatten, hsurvey, halike.transferAll_eq]

end ReadsAlike

end Flatten

/-- A run that copies no data is not affected by a policy that refuses reads of data and no other
reads of the input. -/
theorem Restricted.flatten_of_refusesData {ι σ : Type} [Readable ι] [Writable σ]
    {input : Restricted ι} {settings : Settings} (hadvertised : input.advertised = none)
    (hrefused : ∀ operation ∈ input.refused, operation = .readData)
    (hcopy : settings.copyData = false) (output : σ) :
    flatten input settings output = flatten input.inner settings output := by
  -- every read but that of data is answered by the dataset inside
  have hallowed {operation : Operation} (h : operation ≠ .readData) : operation ∉ input.refused :=
    fun hmem => h (hrefused operation hmem)
  apply Flatten.ReadsAlike.flatten_eq
  constructor
  case location => rfl
  case capabilities =>
    exact congrArg (fun own : Option (List Capability) =>
      own.getD (Readable.capabilities input.inner)) hadvertised
  case readData => exact fun h => absurd (hcopy.symm.trans h) (by decide)
  all_goals exact funext fun _ => guardRead_of_allowed (hallowed (by decide)) _

end GroupFlattening
