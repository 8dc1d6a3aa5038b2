import GroupFlattening.Proofs.Dataset.Extension
import GroupFlattening.Proofs.Faults

/-!
# Objects That Are Not There

An operation on a well-formed dataset fails for an object that is not there only where it is given a
path that leads nowhere: the dimensions of variables are always found. So data of a variable that is
there is read and written without such a fault, and a variable that is there stays there
(`HasVariable`). Creating a variable in the root fails so only if a dimension given for it is not
there (`exists_dimension_of_createVariable`).
-/

namespace GroupFlattening

/-- Whether an operation failed for an object that is not there. -/
def StoreFault.isMissing : StoreFault → Bool
  | .notFound _ => true
  | _ => false

namespace Dataset

open ObjectPath (join separator)

/-- A checked operation fails in its check and changes nothing then. -/
theorem checked_eq_error_iff {α β : Type} {check : Dataset → Except StoreFault α}
    {change : Dataset → α → β × Dataset} {d d' : Dataset} {cause : StoreFault} :
    checked check change d = .error cause d' ↔ check d = .error cause ∧ d = d' := by
  rw [checked]
  cases check d with
  | error fault => simp
  | ok a => simp

/-! ## Reading and writing what is there -/

/-- The variables of a group can be listed, since their dimensions are there. -/
theorem WellFormed.exists_variableInfos {d : Dataset} (hd : d.WellFormed) {path : String} {id : Nat}
    (hid : d.groupId path = .ok id) : ∃ infos, d.variableInfos path = .ok infos := by
  have hinfos : (d.group id).vars.mapM d.infoOf = .ok ((d.group id).vars.map fun v =>
      ⟨v.name, v.type, v.dimensions, d.currentShape v⟩) := by
    rw [Except.mapM_eq_ok_iff, List.forall₂_map_right_iff, List.forall₂_same]
    intro v hv
    rw [infoOf, hd.shapeOf_eq hv]
    rfl
  rw [variableInfos, hid]
  exact ⟨_, hinfos⟩

section Variable

variable {d : Dataset} (hd : d.WellFormed) {path : String} {id : Nat} {v : Variable}
  (hfind : d.findVariable path = .ok (id, v))

include hd hfind

/-- A read of a variable that is there never fails for something missing. -/
theorem faultsIn_readData (selection : Selection) :
    Except.FaultsIn (fun cause => cause.isMissing = false) (d.readData path selection) := by
  rw [readData_eq hfind (hd.shapeOf_eq (mem_vars_of_findVariable hfind))]
  split
  · exact .ok _
  · exact .error rfl

/-- A write to a variable that is there never fails for something missing. -/
theorem faultsIn_checkWrite (selection : Selection) (data : Buffer) :
    Except.FaultsIn (fun cause => cause.isMissing = false)
      (checkWrite path selection data d) := by
  have hv := mem_vars_of_findVariable hfind
  simp only [checkWrite]
  refine .bind_of_ok hfind ?_
  -- the checks in their order: kind, rank, size, fixed dimensions
  show Except.FaultsIn _ (if data.suits v.type = true then _ else _)
  split
  · refine .bind_of_ok (hd.shapeOf_eq hv) ?_
    split
    · split
      · refine Except.FaultsIn.bind (.forM fun axis haxis => ?_) fun _ => .pure _
        -- the dimensions of a variable are there as long as it is
        obtain ⟨dim, hdim⟩ := hd.resolved id v hv axis.1 (List.of_mem_zip haxis).1
        refine .bind_of_ok hdim ?_
        split
        · exact .error rfl
        · exact .pure _
      · exact .error rfl
    · exact .error rfl
  · exact .error rfl

end Variable

/-! ## The root -/

section Root

variable {d : Dataset} {name : String}

/-- A dimension of the root that is not found is not there. -/
theorem not_mem_of_dimension_join_root (hname : separator ∉ name.toList) {cause : StoreFault}
    (h : d.dimension (join ObjectPath.root name) = .error cause) :
    name ∉ (d.group rootId).dimensions.map (·.name) ∧
      cause = .notFound (.path (join ObjectPath.root name)) := by
  simp only [dimension, ObjectPath.split_join_root hname, groupId_root] at h
  rcases Except.bind_eq_error_iff.mp h with h | ⟨id, hid, h⟩
  · cases h
  -- the root is there, so the search in it has failed
  · obtain rfl := Except.ok.inj hid
    split at h
    · cases h
    · next hnone =>
      refine ⟨fun hmem => ?_, (Except.error.inj h).symm⟩
      obtain ⟨dim, hdim, hdimname⟩ := List.mem_map.mp hmem
      have hother := List.find?_eq_none.mp hnone dim hdim
      simp [hdimname] at hother

/-- A variable that cannot be created in the root for an object that is not there has a dimension
that is not there. -/
theorem exists_dimension_of_createVariable {definition : VariableDefinition}
    {object : MissingObject} {d' : Dataset}
    (h : createVariable ObjectPath.root definition d = .error (.notFound object) d') :
    ∃ path ∈ definition.dimensions, d.dimension path = .error (.notFound object) := by
  obtain ⟨hcheck, -⟩ := checked_eq_error_iff.mp h
  simp only [checkVariable, groupId_root] at hcheck
  rcases Except.bind_eq_error_iff.mp hcheck with h | ⟨id, -, h⟩
  · cases h
  · split at h
    -- a name that is taken is another fault
    · cases h
    · rcases Except.bind_eq_error_iff.mp h with hshape | ⟨shape, -, hpure⟩
      · obtain ⟨done, path, rest, sizes, hsplit, -, hsize⟩ := Except.mapM_eq_error_iff.mp hshape
        exact ⟨path, by simp [hsplit], Except.map_eq_error_iff.mp hsize⟩
      · cases hpure

theorem faultsIn_setGroupAttribute_root (key : String) (value : AttributeValue) :
    EStateM.FaultsIn (fun cause => cause.isMissing = false)
      (setGroupAttribute ObjectPath.root key value) := by
  intro d cause d' h
  obtain ⟨hcheck, -⟩ := checked_eq_error_iff.mp h
  rw [groupId_root] at hcheck
  cases hcheck

theorem faultsIn_createDimension_root (dim : String) (size : Option Nat) :
    EStateM.FaultsIn (fun cause => cause.isMissing = false)
      (createDimension ObjectPath.root dim size) := by
  intro d cause d' h
  obtain ⟨hcheck, -⟩ := checked_eq_error_iff.mp h
  simp only [checkDimension, groupId_root] at hcheck
  rcases Except.bind_eq_error_iff.mp hcheck with h | ⟨id, -, h⟩
  · cases h
  · split at h
    · cases h
      rfl
    · cases h

/-- A well-formed dataset with a variable of this name in its root. -/
structure HasVariable (d : Dataset) (name : String) : Prop where
  wellFormed : d.WellFormed
  exists_mem : ∃ v ∈ (d.group rootId).vars, v.name = name

/-- Operations leave the variables of the root there. -/
theorem HasVariable.apply (h : d.HasVariable name) (change : Change) :
    (change.apply d).HasVariable name := by
  obtain ⟨v, hv, hname⟩ := h.exists_mem
  obtain ⟨k, hk⟩ := List.getElem?_of_mem hv
  obtain ⟨w, hw, hkeeps⟩ := (Effect.extends h.wellFormed (change.effect h.wellFormed)).vars rootId
    k v hk
  exact ⟨h.wellFormed.apply change, w, List.mem_of_getElem? hw, hkeeps.name.trans hname⟩

theorem HasVariable.applyAll (h : d.HasVariable name) (changes : List Change) :
    (d.applyAll changes).HasVariable name := by
  induction changes generalizing d with
  | nil => exact h
  | cons change rest ih => exact ih (h.apply change)

theorem HasVariable.exists_findVariable (h : d.HasVariable name)
    (hname : separator ∉ name.toList) :
    ∃ v, d.findVariable (join ObjectPath.root name) = .ok (rootId, v) := by
  obtain ⟨v, hv, rfl⟩ := h.exists_mem
  refine ⟨v, findVariable_eq_ok_iff.mpr ?_⟩
  rw [ObjectPath.split_join_root hname]
  exact ⟨groupId_root d, find?_eq_some_of_nodup (h.wellFormed.groups rootId).vars hv⟩

section Finish

variable (h : d.HasVariable name) (hname : separator ∉ name.toList) {d' : Dataset}
  {cause : StoreFault}

include h hname

theorem HasVariable.isMissing_of_setVariableAttribute {key : String} {value : AttributeValue}
    (hrun : setVariableAttribute (join ObjectPath.root name) key value d = .error cause d') :
    cause.isMissing = false := by
  obtain ⟨v, hv⟩ := h.exists_findVariable hname
  obtain ⟨hcheck, -⟩ := checked_eq_error_iff.mp hrun
  rw [hv] at hcheck
  cases hcheck

theorem HasVariable.isMissing_of_writeData {selection : Selection} {data : Buffer}
    (hrun : writeData (join ObjectPath.root name) selection data d = .error cause d') :
    cause.isMissing = false := by
  obtain ⟨v, hv⟩ := h.exists_findVariable hname
  obtain ⟨hcheck, -⟩ := checked_eq_error_iff.mp hrun
  exact faultsIn_checkWrite h.wellFormed hv selection data cause hcheck

end Finish

end Root

end Dataset

end GroupFlattening
