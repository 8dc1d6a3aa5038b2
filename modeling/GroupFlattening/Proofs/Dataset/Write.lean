import GroupFlattening.Proofs.Dataset.WellFormed

/-!
# Accepted Writes

Every write checks its arguments and then changes the dataset. For each check, this says what a
dataset that passes it is like; the change itself is then the one of the definition
(`checked_eq_ok_iff`).
-/

namespace GroupFlattening.Dataset

open ObjectPath (join split)

/-- A checked operation succeeds if its check does, and then makes its change. -/
theorem checked_eq_ok_iff {α β : Type} {check : Dataset → Except StoreFault α}
    {change : Dataset → α → β × Dataset} {d d' : Dataset} {b : β} :
    checked check change d = .ok b d' ↔ ∃ a, check d = .ok a ∧ change d a = (b, d') := by
  rw [checked]
  cases check d with
  | error fault => simp
  | ok a => simp [Prod.ext_iff]

/-! ## Checks -/

/-- A group can be created below a group that is found, in a nested dataset and under a free name.
-/
theorem checkGroup_eq_ok_iff {d : Dataset} {parent name : String} {id : Nat} :
    checkGroup parent name d = .ok id ↔
      d.isNested = true ∧ d.groupId parent = .ok id ∧ d.isNameTaken id name = false := by
  simp only [checkGroup]
  split
  · next hnested =>
    simp only [Except.bind_eq_ok_iff, hnested, true_and]
    constructor
    · rintro ⟨i, hi, h⟩
      split at h
      · cases h
      · next hfree =>
        obtain rfl := Except.pure_eq_ok_iff.mp h
        exact ⟨hi, by simpa using hfree⟩
    · rintro ⟨hi, hfree⟩
      exact ⟨id, hi, by simp [hfree, pure, Except.pure]⟩
  · next hflat => simp [Except.throw_bind, Except.throw_ne_ok, hflat]

/-- A dimension can be created in a group that is found, under a name that no dimension there has.
-/
theorem checkDimension_eq_ok_iff {d : Dataset} {group name : String} {id : Nat} :
    checkDimension group name d = .ok id ↔
      d.groupId group = .ok id ∧ name ∉ (d.group id).dimensions.map (·.name) := by
  simp only [checkDimension, Except.bind_eq_ok_iff]
  constructor
  · rintro ⟨i, hi, h⟩
    split at h
    · cases h
    · next hfree =>
      obtain rfl := Except.pure_eq_ok_iff.mp h
      exact ⟨hi, by simpa using hfree⟩
  · rintro ⟨hi, hfree⟩
    exact ⟨id, hi, by simp_all [pure, Except.pure]⟩

/-- A variable can be created in a group that is found, under a free name and over dimensions that
are found. -/
theorem checkVariable_eq_ok_iff {d : Dataset} {group : String} {definition : VariableDefinition}
    {id : Nat} {shape : Shape} :
    checkVariable group definition d = .ok (id, shape) ↔
      d.groupId group = .ok id ∧ d.isNameTaken id definition.name = false ∧
        d.shapeOf definition.dimensions = .ok shape := by
  simp only [checkVariable, Except.bind_eq_ok_iff]
  constructor
  · rintro ⟨i, hi, h⟩
    split at h
    · cases h
    · next hfree =>
      obtain ⟨s, hs, hpure⟩ := Except.bind_eq_ok_iff.mp h
      obtain ⟨rfl, rfl⟩ := Prod.mk.inj (Except.pure_eq_ok_iff.mp hpure)
      exact ⟨hi, by simpa using hfree, hs⟩
  · rintro ⟨hi, hfree, hs⟩
    exact ⟨id, hi, by simp [hfree, hs, bind, Except.bind, pure, Except.pure]⟩

/-- The sizes of dimensions are those of the dimensions found, one by one. -/
theorem shapeOf_eq_ok_iff {d : Dataset} {dimensions : List String} {shape : Shape} :
    d.shapeOf dimensions = .ok shape ↔
      List.Forall₂ (fun path size => ∃ dim, d.dimension path = .ok dim ∧ dim.size = size)
        dimensions shape := by
  simp only [shapeOf, Except.mapM_eq_ok_iff, Except.map_eq_ok_iff]

theorem sizeOf_of_dimension {d : Dataset} {path : String} {dim : Dimension}
    (h : d.dimension path = .ok dim) : d.sizeOf path = dim.size := by
  rw [sizeOf, h]

/-- Sizes that are found are the sizes of the dimensions. -/
theorem shape_eq_of_shapeOf {d : Dataset} {dimensions : List String} {shape : Shape}
    (h : d.shapeOf dimensions = .ok shape) : shape = dimensions.map d.sizeOf := by
  have hsizes := shapeOf_eq_ok_iff.mp h
  induction hsizes with
  | nil => rfl
  | cons hdim _ ih =>
    obtain ⟨dim, hdim, rfl⟩ := hdim
    rw [List.map_cons, sizeOf_of_dimension hdim, ← ih (shapeOf_eq_ok_iff.mpr ‹_›)]

/-- An axis is accepted if its dimension is there and can be written to the end of the axis. -/
theorem checkAxis_eq_ok_iff {path : String} {d : Dataset} {axis : String × Nat} :
    checkAxis path d axis = .ok () ↔ ∃ dim, d.dimension axis.1 = .ok dim ∧
      (dim.isUnlimited = false → axis.2 ≤ dim.size) := by
  simp only [checkAxis, Except.bind_eq_ok_iff]
  refine exists_congr fun dim => and_congr_right fun _ => ?_
  cases dim.isUnlimited with
  -- only a fixed dimension can be too short
  | true => simp [pure, Except.pure]
  | false =>
    by_cases hlt : dim.size < axis.2
    · simp [hlt, Except.throw_ne_ok, Nat.not_le.mpr hlt]
    · simp [hlt, pure, Except.pure, Nat.le_of_not_lt hlt]

/-- Data is accepted if it is of the kind and the size that the box asks for and no fixed dimension
ends before the box. The box may lie outside the variable where dimensions can grow. -/
theorem checkWrite_eq_ok_iff {d : Dataset} {path : String} {selection : Selection} {data : Buffer}
    {id : Nat} {v : Variable} {box : Box} :
    checkWrite path selection data d = .ok (id, v, box) ↔
      d.findVariable path = .ok (id, v) ∧ data.suits v.type = true ∧
        ∃ shape, d.shapeOf v.dimensions = .ok shape ∧ box = selection.bounds shape ∧
          (box.start.length = shape.length ∧ box.count.length = shape.length) ∧
          data.elementCount v.type = box.count.volume ∧
          ∀ axis ∈ v.dimensions.zip box.stop, checkAxis path d axis = .ok () := by
  simp only [checkWrite, Except.bind_eq_ok_iff]
  constructor
  · rintro ⟨⟨i, w⟩, hfind, h⟩
    -- the checks in their order: kind, rank, size, fixed dimensions
    split at h
    · next hsuits =>
      obtain ⟨shape, hshape, h⟩ := Except.bind_eq_ok_iff.mp h
      split at h
      · next hrank =>
        split at h
        · next hcount =>
          obtain ⟨⟨⟩, haxes, hpure⟩ := Except.bind_eq_ok_iff.mp h
          obtain ⟨rfl, hrest⟩ := Prod.mk.inj (Except.pure_eq_ok_iff.mp hpure)
          obtain ⟨rfl, rfl⟩ := Prod.mk.inj hrest
          exact ⟨hfind, hsuits, shape, hshape, rfl, hrank, hcount,
            Except.forM_eq_ok_iff.mp haxes⟩
        · cases h
      · cases h
    · cases h
  · rintro ⟨hfind, hsuits, shape, hshape, rfl, hrank, hcount, haxes⟩
    refine ⟨(id, v), hfind, ?_⟩
    rw [if_pos hsuits, Except.bind_eq_ok_iff]
    refine ⟨shape, hshape, ?_⟩
    rw [if_pos hrank, if_pos hcount, Except.bind_eq_ok_iff]
    exact ⟨(), Except.forM_eq_ok_iff.mpr haxes, rfl⟩

end GroupFlattening.Dataset
