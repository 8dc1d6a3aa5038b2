import GroupFlattening.Dimension

/-!
# Growing Dimensions

What becomes of a dimension when data is written along several axes, each the name of a dimension
and the position where the data ends. A dimension reaches the furthest end along an axis of its
name and otherwise stays as it is.
-/

namespace GroupFlattening.Dimension

attribute [ext] Dimension

/-- A dimension grown to reach the ends of all axes that run along it. -/
def grown (axes : List (String × Nat)) (dim : Dimension) : Dimension :=
  axes.foldl (fun dim axis =>
    if axis.1 = dim.name then { dim with size := max dim.size axis.2 } else dim) dim

@[simp] theorem grown_nil : grown [] = id := rfl

theorem grown_cons (axis : String × Nat) (axes : List (String × Nat)) (dim : Dimension) :
    grown (axis :: axes) dim =
      grown axes (if axis.1 = dim.name then { dim with size := max dim.size axis.2 } else dim) :=
  rfl

@[simp] theorem name_grown (axes : List (String × Nat)) (dim : Dimension) :
    (grown axes dim).name = dim.name := by
  induction axes generalizing dim with
  | nil => rfl
  | cons axis rest ih =>
    rw [grown_cons, ih]
    split <;> rfl

@[simp] theorem isUnlimited_grown (axes : List (String × Nat)) (dim : Dimension) :
    (grown axes dim).isUnlimited = dim.isUnlimited := by
  induction axes generalizing dim with
  | nil => rfl
  | cons axis rest ih =>
    rw [grown_cons, ih]
    split <;> rfl

theorem size_le_size_grown (axes : List (String × Nat)) (dim : Dimension) :
    dim.size ≤ (grown axes dim).size := by
  induction axes generalizing dim with
  | nil => exact Nat.le_refl _
  | cons axis rest ih =>
    rw [grown_cons]
    refine Nat.le_trans ?_ (ih _)
    split
    · exact Nat.le_max_left ..
    · exact Nat.le_refl _

/-- A dimension reaches every end along it. -/
theorem le_size_grown {axes : List (String × Nat)} {dim : Dimension} {axis : String × Nat}
    (h : axis ∈ axes) (hname : axis.1 = dim.name) : axis.2 ≤ (grown axes dim).size := by
  induction axes generalizing dim with
  | nil => cases h
  | cons first rest ih =>
    rw [grown_cons]
    rcases List.mem_cons.mp h with rfl | h
    -- the dimension reaches the end of the axis here and does not become shorter later
    · rw [if_pos hname]
      have hmax : axis.2 ≤ max dim.size axis.2 := Nat.le_max_right ..
      exact Nat.le_trans hmax (size_le_size_grown rest { dim with size := max dim.size axis.2 })
    · refine ih h ?_
      split <;> exact hname

/-- A dimension reaches no further than it must. -/
theorem size_grown_le {axes : List (String × Nat)} {dim : Dimension} {bound : Nat}
    (hdim : dim.size ≤ bound) (h : ∀ axis ∈ axes, axis.1 = dim.name → axis.2 ≤ bound) :
    (grown axes dim).size ≤ bound := by
  induction axes generalizing dim with
  -- axis by axis, the bound being kept
  | nil => exact hdim
  | cons axis rest ih =>
    rw [List.forall_mem_cons] at h
    rw [grown_cons]
    split
    · next hname => exact ih (Nat.max_le.mpr ⟨hdim, h.1 hname⟩) h.2
    · exact ih hdim h.2

/-- A dimension that reaches all ends along it stays as it is. -/
theorem grown_of_le {axes : List (String × Nat)} {dim : Dimension}
    (h : ∀ axis ∈ axes, axis.1 = dim.name → axis.2 ≤ dim.size) : grown axes dim = dim := by
  refine Dimension.ext (name_grown ..) ?_ (isUnlimited_grown ..)
  exact Nat.le_antisymm (size_grown_le (Nat.le_refl _) h) (size_le_size_grown ..)

/-- Growing along two lists of axes is growing along the first one and then the second one. -/
theorem grown_append (first second : List (String × Nat)) (dim : Dimension) :
    grown (first ++ second) dim = grown second (grown first dim) :=
  List.foldl_append

/-- A dimension does not grow along axes of other names. -/
theorem grown_of_not_mem {axes : List (String × Nat)} {dim : Dimension}
    (h : dim.name ∉ axes.map (·.1)) : grown axes dim = dim := by
  induction axes generalizing dim with
  | nil => rfl
  | cons axis rest ih =>
    rw [List.map_cons, List.mem_cons, not_or] at h
    rw [grown_cons, if_neg (Ne.symm h.1)]
    exact ih h.2

/-! ## Growing in several steps -/

/-- A dimension on its way to the ends of all axes: grown, but not past them. -/
structure OnTheWay (axes : List (String × Nat)) (dim dim' : Dimension) : Prop where
  name : dim'.name = dim.name
  isUnlimited : dim'.isUnlimited = dim.isUnlimited
  le_size : dim.size ≤ dim'.size
  size_le : dim'.size ≤ (grown axes dim).size

theorem OnTheWay.refl (axes : List (String × Nat)) (dim : Dimension) : OnTheWay axes dim dim :=
  ⟨rfl, rfl, Nat.le_refl _, size_le_size_grown axes dim⟩

/-- Ends that lie before the ends of the axes keep a dimension on its way. -/
theorem OnTheWay.grown {axes ends : List (String × Nat)} {dim dim' : Dimension}
    (h : OnTheWay axes dim dim')
    (hends : ∀ e ∈ ends, ∃ axis ∈ axes, axis.1 = e.1 ∧ e.2 ≤ axis.2) :
    OnTheWay axes dim (grown ends dim') := by
  refine ⟨(name_grown ..).trans h.name, (isUnlimited_grown ..).trans h.isUnlimited,
    Nat.le_trans h.le_size (size_le_size_grown ..), size_grown_le h.size_le fun e he hname => ?_⟩
  obtain ⟨axis, haxis, heq, hle⟩ := hends e he
  exact Nat.le_trans hle (le_size_grown haxis (heq.trans (hname.trans h.name)))

/-- A dimension on its way reaches the same end as if it had not set out. -/
theorem OnTheWay.grown_eq {axes : List (String × Nat)} {dim dim' : Dimension}
    (h : OnTheWay axes dim dim') : Dimension.grown axes dim' = Dimension.grown axes dim := by
  have hsize : (Dimension.grown axes dim').size = (Dimension.grown axes dim).size := by
    -- either is as long as its own size or the longest axis, whichever is more
    refine Nat.le_antisymm ?_ ?_
    · exact size_grown_le h.size_le fun axis haxis hname =>
        le_size_grown haxis (hname.trans h.name)
    · exact size_grown_le (Nat.le_trans h.le_size (size_le_size_grown ..)) fun axis haxis hname =>
        le_size_grown haxis (hname.trans h.name.symm)
  refine Dimension.ext ?_ hsize ?_
  · rw [name_grown, name_grown, h.name]
  · rw [isUnlimited_grown, isUnlimited_grown, h.isUnlimited]

end GroupFlattening.Dimension
