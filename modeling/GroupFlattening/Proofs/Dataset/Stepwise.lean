import GroupFlattening.Proofs.Dataset.Stored
import GroupFlattening.Proofs.Faults

/-!
# Operations Step by Step

Two operations change a dataset in several steps. Data makes one dimension after the other grow, and
then the shape of the variable and the variable itself are looked up again before its cells are set
(`writeStepwise`). An unlimited dimension is created empty and is then looked up to be given its
size (`addUnlimitedStepwise`). A step that failed would leave what the steps before it have changed.

None does. Once the checks are passed, every dimension along the variable is found, and growing it
takes nothing away, so the steps that follow find what they look for (`forM_growAxis`,
`writeStepwise_eq`). In the end an operation that fails leaves the dataset as it was, whichever it
is (`unchanged_of_error`).
-/

namespace GroupFlattening.Dataset

open ObjectPath (join split)

/-! ## Steps -/

/-- A lookup in the dataset as it is at this step. -/
def look {α : Type} (find : Dataset → Except StoreFault α) : EStateM StoreFault Dataset α :=
  checked find fun d a => (a, d)

/-- A change that cannot fail. -/
def alter (change : Dataset → Dataset) : EStateM StoreFault Dataset Unit :=
  fun d => .ok () (change d)

/-- Makes the dimension along an axis reach the end of the axis. -/
def growAxis (axis : String × Nat) : EStateM StoreFault Dataset Unit := do
  let id ← look (·.groupId (split axis.1).1)
  let dim ← look (·.dimension axis.1)
  if dim.size < axis.2 then
    alter (·.changeDimension id (split axis.1).2 fun dim => { dim with size := axis.2 })

/-- Writes the selected data of a variable, one dimension and then one lookup after the other. -/
def writeStepwise (path : String) (selection : Selection) (data : Buffer) :
    EStateM StoreFault Dataset Unit := do
  let (_, v, box) ← look (checkWrite path selection data)
  (v.dimensions.zip box.stop).forM growAxis
  let shape ← look (·.shapeOf v.dimensions)
  let (id, target) ← look (·.findVariable path)
  alter (·.changeVariable id target.name fun w =>
    { w.fill box (data.cells w.type) with stored := shape })

/-- Creates an empty unlimited dimension, then gives it its size, and gives its path. -/
def addUnlimitedStepwise (group name : String) (size : Nat) :
    EStateM StoreFault Dataset String := do
  createDimension group name none
  let id ← look (·.groupId group)
  alter (·.changeDimension id name fun dim => { dim with size })
  pure (join group name)

/-- A look that finds something gives it and leaves the dataset as it is. -/
theorem look_of_ok {α : Type} {find : Dataset → Except StoreFault α} {d : Dataset} {a : α}
    (h : find d = .ok a) : look find d = .ok a d := by
  rw [look, checked, h]

/-- A look that finds nothing fails and leaves the dataset as it is. -/
theorem look_of_error {α : Type} {find : Dataset → Except StoreFault α} {d : Dataset}
    {fault : StoreFault} (h : find d = .error fault) : look find d = .error fault d := by
  rw [look, checked, h]

/-! ## Changes that agree on what is found -/

section Found

variable {α : Type} {accepts : α → Bool} {change change' : α → α} {xs : List α}

/-- Only what becomes of the first accepted item matters. -/
theorem changeFirst_congr (h : ∀ x, xs.find? accepts = some x → change x = change' x) :
    changeFirst accepts change xs = changeFirst accepts change' xs := by
  induction xs with
  | nil => rfl
  | cons x rest ih =>
    rw [changeFirst, changeFirst]
    by_cases hx : accepts x = true
    · rw [if_pos hx, if_pos hx, h x (List.find?_cons_of_pos hx)]
    · rw [if_neg hx, if_neg hx, ih fun y hy => h y ((List.find?_cons_of_neg hx).trans hy)]

theorem changeFirst_eq_self (h : ∀ x, xs.find? accepts = some x → change x = x) :
    changeFirst accepts change xs = xs := by
  induction xs with
  | nil => rfl
  | cons x rest ih =>
    rw [changeFirst]
    by_cases hx : accepts x = true
    · rw [if_pos hx, h x (List.find?_cons_of_pos hx)]
    · rw [if_neg hx, ih fun y hy => h y ((List.find?_cons_of_neg hx).trans hy)]

end Found

variable {d : Dataset}

/-- Only what becomes of the group that is there matters. -/
theorem changeGroup_congr {id : Nat} {change change' : Group → Group}
    (h : change (d.group id) = change' (d.group id)) :
    d.changeGroup id change = d.changeGroup id change' := by
  rw [changeGroup, changeGroup, Forest.modify_congr]
  intro g hg
  simpa [group, hg] using h

theorem changeGroup_eq_self {id : Nat} {change : Group → Group}
    (h : change (d.group id) = d.group id) : d.changeGroup id change = d := by
  rw [changeGroup, Forest.modify_eq_self]
  intro g hg
  simpa [group, hg] using h

/-- Two changes of one group, one after the other, are one change. -/
theorem changeGroup_changeGroup (id : Nat) (first second : Group → Group) :
    (d.changeGroup id first).changeGroup id second = d.changeGroup id (second ∘ first) := by
  rw [changeGroup, changeGroup, changeGroup, Forest.modify_modify]

/-! ## Growth -/

/-- An axis that runs along a dimension makes it grow. -/
theorem growAxis_eq {axis : String × Nat} {dim : Dimension} (h : d.dimension axis.1 = .ok dim) :
    growAxis axis d = .ok () (d.growDimension axis) := by
  obtain ⟨id, hid, hfind⟩ := dimension_eq_ok_iff.mp h
  rw [growAxis, EStateM.bind_of_ok (look_of_ok hid), EStateM.bind_of_ok (look_of_ok h)]
  simp only [growDimension, hid]
  split
  · next hlt =>
    refine congrArg (EStateM.Result.ok ()) (changeGroup_congr ?_)
    rw [changeFirst_congr]
    intro x hx
    obtain rfl := Option.some.inj (hfind.symm.trans hx)
    rw [Nat.max_eq_right (Nat.le_of_lt hlt)]
  · next hle =>
    -- the dimension reaches the end already
    refine congrArg (EStateM.Result.ok ()) (changeGroup_eq_self ?_).symm
    rw [changeFirst_eq_self]
    intro x hx
    obtain rfl := Option.some.inj (hfind.symm.trans hx)
    rw [Nat.max_eq_left (Nat.le_of_not_lt hle)]

theorem exists_dimension_growDimension (hd : d.WellFormed) (axis : String × Nat) {path : String}
    (h : ∃ dim, d.dimension path = .ok dim) :
    ∃ dim, (d.growDimension axis).dimension path = .ok dim := by
  rw [exists_dimension_iff] at h ⊢
  obtain ⟨id, hid, hmem⟩ := h
  refine ⟨id, (groupId_growDimension d axis _).trans hid, ?_⟩
  rw [hd.group_growDimension]
  simpa [Group.grown] using hmem

/-- Where every axis runs along a dimension, all dimensions grow and no step fails. -/
theorem forM_growAxis (hd : d.WellFormed) {axes : List (String × Nat)}
    (h : ∀ axis ∈ axes, ∃ dim, d.dimension axis.1 = .ok dim) :
    axes.forM growAxis d = .ok () (axes.foldl growDimension d) := by
  induction axes generalizing d with
  -- axis by axis; a step leaves the dimensions of the later axes where they are
  | nil => rfl
  | cons axis rest ih =>
    rw [List.forall_mem_cons] at h
    obtain ⟨dim, hdim⟩ := h.1
    show (growAxis axis >>= fun _ => rest.forM growAxis) d = _
    rw [EStateM.bind_of_ok (growAxis_eq hdim)]
    exact ih (hd.growDimension axis) fun other hother =>
      exists_dimension_growDimension hd axis (h.2 other hother)

/-! ## The steps and the operations -/

/-- Writing step by step is writing at once. -/
theorem writeStepwise_eq (hd : d.WellFormed) (path : String) (selection : Selection)
    (data : Buffer) : writeStepwise path selection data d = writeData path selection data d := by
  rw [writeStepwise, writeData]
  cases hcheck : checkWrite path selection data d with
  | error fault => rw [EStateM.bind_of_error (look_of_error hcheck), checked, hcheck]
  | ok a =>
    obtain ⟨id, v, box⟩ := a
    obtain ⟨hfind, -⟩ := checkWrite_eq_ok_iff.mp hcheck
    obtain ⟨hid, hfound⟩ := findVariable_eq_ok_iff.mp hfind
    have hv := mem_vars_of_findVariable hfind
    have haxes : ∀ axis ∈ v.dimensions.zip box.stop, ∃ dim, d.dimension axis.1 = .ok dim :=
      fun axis haxis => hd.resolved id v hv axis.1 (List.of_mem_zip haxis).1
    -- growth leaves the variables and the paths as they are
    have hgrown := hd.foldl_growDimension (v.dimensions.zip box.stop)
    have hvars : ((((v.dimensions.zip box.stop).foldl growDimension d)).group id).vars =
        (d.group id).vars := by
      rw [hd.group_foldl_growDimension]
      rfl
    have hshape := hgrown.shapeOf_eq (hvars.symm ▸ hv)
    -- the variable and its new shape are looked up again, and they are found
    have hagain : ((v.dimensions.zip box.stop).foldl growDimension d).findVariable path =
        .ok (id, v) := by
      rw [findVariable_eq_ok_iff, groupId_foldl_growDimension, hvars]
      exact ⟨hid, hfound⟩
    rw [EStateM.bind_of_ok (look_of_ok hcheck), checked, hcheck]
    simp only
    rw [EStateM.bind_of_ok (forM_growAxis hd haxes), EStateM.bind_of_ok (look_of_ok hshape),
      EStateM.bind_of_ok (look_of_ok hagain)]
    rfl

/-- A dimension that was just added is the one that is given a size. -/
theorem changeDimension_appendDimension {id : Nat} (dim : Dimension)
    (hnew : dim.name ∉ (d.group id).dimensions.map (·.name)) (change : Dimension → Dimension) :
    (d.appendDimension id dim).changeDimension id dim.name change =
      d.appendDimension id (change dim) := by
  rw [appendDimension, changeDimension, changeGroup_changeGroup]
  apply changeGroup_congr
  simp only [Function.comp_apply]
  rw [changeFirst_append_singleton hnew rfl]

/-- Adding an unlimited dimension step by step is adding it with its size. -/
theorem addUnlimitedStepwise_eq (d : Dataset) (group name : String) (size : Nat) :
    addUnlimitedStepwise group name size d = addDimension group ⟨name, size, true⟩ d := by
  rw [addUnlimitedStepwise, addDimension]
  cases hcheck : checkDimension group name d with
  | error fault =>
    have hcreate : createDimension group name none d = .error fault d := by
      rw [createDimension, checked, hcheck]
    rw [EStateM.bind_of_error hcreate, checked, hcheck]
  | ok id =>
    obtain ⟨hid, hnew⟩ := checkDimension_eq_ok_iff.mp hcheck
    -- an empty dimension first, whose size is then set where the group is found again
    have hcreate : createDimension group name none d =
        .ok () (d.appendDimension id ⟨name, 0, true⟩) := by
      rw [createDimension, checked, hcheck]
      rfl
    have hagain : (d.appendDimension id ⟨name, 0, true⟩).groupId group = .ok id :=
      (groupId_changeGroup rfl group).trans hid
    have hsized := changeDimension_appendDimension ⟨name, 0, true⟩ hnew
      fun dim => { dim with size }
    rw [EStateM.bind_of_ok hcreate, EStateM.bind_of_ok (look_of_ok hagain), checked, hcheck]
    exact congrArg (EStateM.Result.ok (join group name)) hsized

/-! ## Operations that fail -/

/-- An operation with its arguments, each of the two that take several steps step by step. -/
inductive Operation where
  | createGroup (parent name : String)
  | createDimension (group name : String) (size : Option Nat)
  | addDimension (group name : String) (size : Nat)
  | addUnlimitedDimension (group name : String) (size : Nat)
  | createVariable (group : String) (definition : VariableDefinition)
  | addVariable (group name : String) (type : ElementType) (dimensions : List String)
  | setGroupAttribute (group name : String) (value : AttributeValue)
  | setVariableAttribute (path name : String) (value : AttributeValue)
  | putData (path : String) (data : Buffer)
  | writeData (path : String) (selection : Selection) (data : Buffer)

/-- Runs an operation, and gives the path of what it has created, if it gives one. -/
def Operation.run : Operation → EStateM StoreFault Dataset (Option String)
  | createGroup parent name => do
    let path ← Dataset.createGroup parent name
    pure (some path)
  | createDimension group name size => do
    Dataset.createDimension group name size
    pure none
  | addDimension group name size => do
    Dataset.createDimension group name (some size)
    pure (some (join group name))
  | addUnlimitedDimension group name size => do
    let path ← addUnlimitedStepwise group name size
    pure (some path)
  | createVariable group definition => do
    Dataset.createVariable group definition
    pure none
  | addVariable group name type dimensions => do
    let path ← Dataset.addVariable group name type dimensions
    pure (some path)
  | setGroupAttribute group name value => do
    Dataset.setGroupAttribute group name value
    pure none
  | setVariableAttribute path name value => do
    Dataset.setVariableAttribute path name value
    pure none
  | putData path data => do
    writeStepwise path .all data
    pure none
  | writeData path selection data => do
    writeStepwise path selection data
    pure none

/-- The operation at once. -/
def Operation.change : Operation → Change
  | createGroup parent name => .group parent name
  | createDimension group name size => .dimension group name size
  | addDimension group name size => .sizedDimension group ⟨name, size, false⟩
  | addUnlimitedDimension group name size => .sizedDimension group ⟨name, size, true⟩
  | createVariable group definition => .variable group definition
  | addVariable group name type dimensions =>
    .variable group { name, type, dimensions, fillValue := none }
  | setGroupAttribute group name value => .groupAttribute group name value
  | setVariableAttribute path name value => .variableAttribute path name value
  | putData path data => .data path .all data
  | writeData path selection data => .data path selection data

/-- A step is atomic at a dataset if it leaves the dataset as it is when it fails. -/
def Atomic {α : Type} (step : EStateM StoreFault Dataset α) (d : Dataset) : Prop :=
  ∀ fault d', step d = .error fault d' → d' = d

/-- A check that fails comes before the change. -/
theorem atomic_checked {α β : Type} (check : Dataset → Except StoreFault α)
    (change : Dataset → α → β × Dataset) (d : Dataset) : Atomic (checked check change) d := by
  intro fault d' h
  rw [checked] at h
  cases hcheck : check d with
  | error other =>
    rw [hcheck] at h
    cases h
    rfl
  | ok a =>
    rw [hcheck] at h
    cases h

section Return

variable {α β : Type} {step : EStateM StoreFault Dataset α} {f : α → β}

/-- Giving back another result is no step of its own. -/
theorem Atomic.bind_pure (h : Atomic step d) : Atomic (step >>= fun a => pure (f a)) d := by
  intro fault d' hrun
  rcases EStateM.bind_eq_error_iff.mp hrun with hfirst | ⟨a, d₁, -, hpure⟩
  · exact h fault d' hfirst
  · cases hpure

theorem stateAfter_bind_pure : stateAfter ((step >>= fun a => pure (f a)) d) =
    stateAfter (step d) := by
  cases hrun : step d with
  | ok a d₁ =>
    rw [EStateM.bind_of_ok hrun]
    rfl
  | error fault d₁ =>
    rw [EStateM.bind_of_error hrun]
    rfl

end Return

/-- Being atomic depends on the outcome alone. -/
theorem atomic_congr {α : Type} {step step' : EStateM StoreFault Dataset α}
    (h : step d = step' d) (hstep : Atomic step' d) : Atomic step d := by
  intro fault d' hrun
  exact hstep fault d' (h.symm.trans hrun)

/-- An operation leaves what it leaves when it is done at once. -/
theorem Operation.stateAfter_run (hd : d.WellFormed) (op : Operation) :
    stateAfter (op.run d) = op.change.apply d := by
  cases op with
  | putData path data =>
    rw [run, stateAfter_bind_pure, writeStepwise_eq hd, change, Change.apply]
  | writeData path selection data =>
    rw [run, stateAfter_bind_pure, writeStepwise_eq hd, change, Change.apply]
  | addUnlimitedDimension group name size =>
    rw [run, stateAfter_bind_pure, addUnlimitedStepwise_eq, change, Change.apply]
  -- a dimension is made from its name and size before or after the check, which does not matter
  | addDimension group name size =>
    rw [run, stateAfter_bind_pure, change, Change.apply, Dataset.createDimension,
      Dataset.addDimension, checked, checked]
    cases checkDimension group name d <;> rfl
  | addVariable group name type dimensions =>
    rw [run, stateAfter_bind_pure, Dataset.addVariable, stateAfter_bind_pure, change,
      Change.apply]
  | _ => rw [run, stateAfter_bind_pure, change, Change.apply]

/-- Every operation leaves the dataset as it is when it fails. -/
theorem Operation.atomic_run (hd : d.WellFormed) (op : Operation) : Atomic op.run d := by
  cases op with
  | putData path data =>
    exact (atomic_congr (writeStepwise_eq hd path .all data) (atomic_checked _ _ d)).bind_pure
  | writeData path selection data =>
    exact (atomic_congr (writeStepwise_eq hd path selection data)
      (atomic_checked _ _ d)).bind_pure
  | addUnlimitedDimension group name size =>
    exact (atomic_congr (addUnlimitedStepwise_eq d group name size)
      (atomic_checked _ _ d)).bind_pure
  | addVariable group name type dimensions => exact (atomic_checked _ _ d).bind_pure.bind_pure
  | _ => exact (atomic_checked _ _ d).bind_pure

/-- The operations that take several steps do what they do at once, and whichever operation fails on
a reachable dataset leaves it as it was. -/
theorem unchanged_of_error (hd : d.Reachable) :
    (∀ path selection data,
      writeStepwise path selection data d = writeData path selection data d) ∧
    (∀ group name size,
      addUnlimitedStepwise group name size d = addDimension group ⟨name, size, true⟩ d) ∧
    ∀ op : Operation, stateAfter (op.run d) = op.change.apply d ∧
      ∀ fault d', op.run d = .error fault d' → d' = d := by
  have hform := hd.wellFormed
  exact ⟨writeStepwise_eq hform, addUnlimitedStepwise_eq d, fun op =>
    ⟨op.stateAfter_run hform, op.atomic_run hform⟩⟩

/-- A series over a time that can grow and a place that cannot. -/
def series : Dataset :=
  (Dataset.create "series" true).applyAll
    [.sizedDimension "/" ⟨"time", 0, true⟩, .sizedDimension "/" ⟨"place", 2, false⟩,
      .variable "/" ⟨"level", .byte, ["/time", "/place"], none⟩]

/-- Two times fit the series but three places do not, so the time does not grow. -/
theorem series_unchanged : series.Reachable ∧ ∃ fault,
    (Operation.writeData "/level" (.box ⟨[0, 0], [2, 3]⟩) (.bytes [1, 2, 3, 4, 5, 6])).run series =
      .error fault series ∧
    fault = .data (.fixedSize "/level" 3 "/place" 2) ∧
    (series.dimension "/time").toOption = some ⟨"time", 0, true⟩ := by
  have hseries : series.Reachable := (Reachable.create "series" true).applyAll _
  obtain ⟨-, -, hops⟩ := unchanged_of_error hseries
  obtain ⟨fault, d', hrun, hfault⟩ := EStateM.exists_of_failsWith
    (fun fault => fault == .data (.fixedSize "/level" 3 "/place" 2))
    (show EStateM.failsWith _ ((Operation.writeData "/level" (.box ⟨[0, 0], [2, 3]⟩)
      (.bytes [1, 2, 3, 4, 5, 6])).run series) = true by decide +kernel)
  obtain rfl := (hops _).2 fault d' hrun
  exact ⟨hseries, fault, hrun, beq_iff_eq.mp hfault, by decide +kernel⟩

end GroupFlattening.Dataset
