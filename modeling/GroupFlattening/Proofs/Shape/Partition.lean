import GroupFlattening.Proofs.Shape.Walk
import Mathlib.Algebra.Order.Floor.Div
import Mathlib.Data.List.Pairwise
import Mathlib.GroupTheory.GroupAction.Ring

/-!
# Slices Partition a Shape

Slices can also be given out one at a time by a cursor that keeps only where the next slice begins
(`Cursor`, `next?`). From one slice to the next the cursor takes the last axis one segment further,
and starts it again and goes on with the axis before it where no segment is left. Measured in
segments this is the walk over the box of all places of the grid (`advance?_firstIndex`), so the
cursor gives out the slices of the grid in the order of their numbers, and then no more
(`yields_iff`).

The first indices of the slices grow in lexicographic order, because the places do
(`Shape.unrank_lt_unrank`) and the steps are positive. An index lies in the slice whose place is the
index divided by the steps, axis by axis, and in no other one (`place_of_mem_slice`).
-/

namespace GroupFlattening

namespace SliceGrid

/-! ## Segments of one axis -/

/-- A segment begins inside the axis just if it is one of the segments counted. -/
theorem mul_lt_iff {length step i : Nat} (hstep : 0 < step) :
    i * step < length ↔ i < (length + step - 1) / step := by
  rw [Nat.lt_iff_add_one_le, Nat.lt_iff_add_one_le, Nat.le_div_iff_mul_le hstep, Nat.succ_mul]
  omega

/-- Positive steps keep the lexicographic order. -/
theorem zipWith_mul_lt {place place' steps : List Nat} (hlength : place.length = steps.length)
    (hlength' : place'.length = steps.length) (hsteps : ∀ step ∈ steps, 0 < step)
    (hlt : place < place') :
    List.zipWith (· * ·) place steps < List.zipWith (· * ·) place' steps := by
  have hmul : ∀ step ∈ steps, StrictMono fun i => i * step := by
    intro step hstep i i' hi
    exact Nat.mul_lt_mul_of_pos_right hi (hsteps step hstep)
  exact Shape.zipWith_lt_zipWith hlength hlength' hmul hlt

variable (grid : SliceGrid)

/-! ## A cursor over the slices -/

/-- How far slices have been given out. -/
structure Cursor where
  /-- The first index of the next slice. -/
  position : Index
  /-- Whether all slices have been given out. -/
  done : Bool

/-- The cursor in front of the first slice; a shape with an empty axis has none. -/
def start : Cursor := ⟨grid.shape.map fun _ => 0, grid.shape.contains 0⟩

/-- The position with its axes below `axis` taken one segment further, the last one first: an axis
that has a further segment takes it, and one that has none starts again before the next one is
looked at. Also gives whether there was such an axis. -/
def advance? : Nat → Index → Option (Index × Bool)
  | 0, position => some (position, false)
  | axis + 1, position => do
    let first ← position[axis]?
    let step ← grid.steps[axis]?
    let length ← grid.shape[axis]?
    if first + step < length then pure (position.set axis (first + step), true)
    else advance? axis (position.set axis 0)

/-- The slice that begins at a position, cut off where the shape ends. -/
def sliceAt (position : Index) : Box :=
  { start := position
    count := List.zipWith (fun step left => min step left) grid.steps
      (List.zipWith (· - ·) grid.shape position) }

/-- The next slice, if there is one, and the cursor behind it. -/
def next? (cursor : Cursor) : Option (Option Box × Cursor) :=
  if cursor.done then some (none, cursor)
  else do
    let (position, more) ← grid.advance? grid.shape.length cursor.position
    pure (some (grid.sliceAt cursor.position), ⟨position, !more⟩)

/-- The slices that a cursor gives out from some point on until there are no more. -/
inductive Yields : Cursor → List Box → Prop
  | done {cursor cursor' : Cursor} (hnext : grid.next? cursor = some (none, cursor')) :
      Yields cursor []
  | more {cursor cursor' : Cursor} {box : Box} {rest : List Box}
      (hnext : grid.next? cursor = some (some box, cursor')) (hrest : Yields cursor' rest) :
      Yields cursor (box :: rest)

variable {grid}

/-- A cursor gives out one sequence of slices at most. -/
theorem Yields.unique {cursor : Cursor} {boxes boxes' : List Box} (h : grid.Yields cursor boxes)
    (h' : grid.Yields cursor boxes') : boxes = boxes' := by
  induction h generalizing boxes' with
  | done hnext =>
    -- `next?` has one answer, so both lists end or both go on
    cases h' with
    | done _ => rfl
    | more hnext' _ => simp [hnext] at hnext'
  | more hnext _ ih =>
    cases h' with
    | done hnext' => simp [hnext] at hnext'
    | more hnext' hrest' =>
      rw [hnext, Option.some_inj, Prod.mk.injEq, Option.some_inj] at hnext'
      obtain ⟨rfl, rfl⟩ := hnext'
      rw [ih hrest']

/-! ## Places of the grid -/

variable (grid)

/-- The first index of the slice at a place of the grid. -/
def firstIndex (place : Index) : Index := List.zipWith (· * ·) place grid.steps

theorem firstIndex_set {axis step : Nat} (hstep : grid.steps[axis]? = some step) (place : Index)
    (i : Nat) :
    grid.firstIndex (place.set axis i) = (grid.firstIndex place).set axis (i * step) := by
  apply List.ext_getElem?
  intro j
  simp only [firstIndex, List.getElem?_zipWith, List.getElem?_set, List.length_zipWith]
  grind

/-- The cursor goes from place to place as a walk over all places of the grid does. -/
theorem advance?_firstIndex (axis : Nat) (place : Index) :
    grid.advance? axis (grid.firstIndex place) =
      ((Box.whole grid.segments).advance? axis place).map fun (next, more) =>
        (grid.firstIndex next, more) := by
  induction axis generalizing place with
  | zero => rfl
  | succ axis ih =>
    -- on each axis a segment begins at a multiple of the step
    have hposition : (grid.firstIndex place)[axis]? =
        Option.map₂ (· * ·) place[axis]? grid.steps[axis]? := by
      rw [firstIndex, List.getElem?_zipWith]
      cases place[axis]? <;> cases grid.steps[axis]? <;> rfl
    have hextent : grid.segments[axis]? =
        Option.map₂ (fun length step => (length + step - 1) / step) grid.shape[axis]?
          grid.steps[axis]? := by
      rw [segments, List.getElem?_zipWith]
      cases grid.shape[axis]? <;> cases grid.steps[axis]? <;> rfl
    simp only [advance?, Box.advance?, Box.whole, hposition, List.getElem?_map, hextent]
    cases hi : place[axis]? with
    | none => rfl
    | some i =>
      cases hstep : grid.steps[axis]? with
      | none => cases grid.shape[axis]? <;> rfl
      | some step =>
        cases hlength : grid.shape[axis]? with
        | none => rfl
        | some length =>
          have hpos := grid.steps_pos step (List.mem_of_getElem? hstep)
          -- there is a further segment just if there is a further place
          have hfurther : i * step + step < length ↔ i + 1 < (length + step - 1) / step := by
            rw [← mul_lt_iff hpos, Nat.succ_mul]
          have hnext := grid.firstIndex_set hstep place (i + 1)
          have hagain := grid.firstIndex_set hstep place 0
          rw [Nat.succ_mul] at hnext
          rw [Nat.zero_mul] at hagain
          -- another segment on this axis, or back to its first one and on to the next axis
          by_cases hmore : i * step + step < length
          · simp [hmore, hfurther.mp hmore, hnext]
          · simpa [hmore, mt hfurther.mpr hmore, hagain, Box.whole] using ih (place.set axis 0)

/-! ## What the cursor gives out -/

/-- The cursor in front of the slice with a number that the grid has. -/
def before (k : Nat) : Cursor := ⟨grid.firstIndex (grid.segments.unrank k), false⟩

theorem rank_segments : (Box.whole grid.segments).start.length = grid.shape.length := by
  simp [Box.whole, segments, grid.length_steps]

theorem firstIndex_unrank_zero :
    grid.firstIndex (grid.segments.unrank 0) = grid.shape.map fun _ => 0 := by
  have hzero : (Box.whole grid.segments).index 0 = (Box.whole grid.segments).start :=
    Box.index_zero (List.length_map _)
  have hplace : grid.segments.unrank 0 = grid.segments.map fun _ => 0 := by
    rw [← Box.shift_zero (Shape.length_unrank grid.segments 0)]
    exact hzero
  rw [firstIndex, hplace]
  apply List.ext_getElem
  · simp [segments, grid.length_steps]
  · simp

/-- The slice with a number is followed by the one with the next number, and the last slice by
none. -/
theorem next?_before {k : Nat} (hk : k < grid.count) : ∃ cursor,
    grid.next? (grid.before k) = some (some (grid.slice k), cursor) ∧
      (k + 1 < grid.count → cursor = grid.before (k + 1)) ∧
      (¬ k + 1 < grid.count → cursor.done = true) := by
  have hwhole : (Box.whole grid.segments).start.length = (Box.whole grid.segments).count.length :=
    List.length_map _
  have hplace : ∀ j, (Box.whole grid.segments).index j = grid.segments.unrank j := fun j =>
    Box.shift_zero (Shape.length_unrank _ j)
  have hstep := Box.advance?_index hwhole hk
  rw [rank_segments, hplace, hplace] at hstep
  -- the walk over first indices is the walk over the places of the segments
  have hadvance := grid.advance?_firstIndex grid.shape.length (grid.segments.unrank k)
  rw [hstep, Option.map_some] at hadvance
  simp only [next?, before, Bool.false_eq_true, if_false, hadvance]
  refine ⟨_, rfl, fun hmore => ?_, fun hlast => ?_⟩
  · have hmore' : k + 1 < (Box.whole grid.segments).count.volume := hmore
    simp [hmore']
  · have hlast' : ¬ k + 1 < (Box.whole grid.segments).count.volume := hlast
    simp [hlast']

/-- From the slice with a number on, the slices are given out in the order of their numbers. -/
theorem yields_before (left : Nat) {k : Nat} (hk : k + (left + 1) = grid.count) :
    grid.Yields (grid.before k) ((List.range' k (left + 1)).map grid.slice) := by
  -- on how many slices come behind slice `k`
  induction left generalizing k with
  | zero =>
    obtain ⟨cursor, hnext, -, hlast⟩ := grid.next?_before (k := k) (by omega)
    have hdone : grid.next? cursor = some (none, cursor) := by
      rw [next?, if_pos (hlast (by omega))]
    exact .more hnext (.done hdone)
  | succ left ih =>
    obtain ⟨cursor, hnext, hmore, -⟩ := grid.next?_before (k := k) (by omega)
    obtain rfl := hmore (by omega)
    rw [List.range'_succ, List.map_cons]
    exact .more hnext (ih (by omega))

theorem slices_eq : grid.slices = (List.range grid.count).map grid.slice := by
  rw [slices, take, Nat.min_self]

theorem slices_eq_nil (h : 0 ∈ grid.shape) : grid.slices = [] := by
  -- an empty axis has no segments
  have hzero : 0 ∈ grid.segments := by
    obtain ⟨axis, haxis⟩ := List.mem_iff_getElem?.mp h
    obtain ⟨step, hstep⟩ : ∃ step, grid.steps[axis]? = some step := by
      have hlt := (List.getElem?_eq_some_iff.mp haxis).1
      exact ⟨_, List.getElem?_eq_getElem (by rwa [← grid.length_steps])⟩
    have hpos := grid.steps_pos step (List.mem_of_getElem? hstep)
    refine List.mem_of_getElem? (i := axis) ?_
    rw [segments, List.getElem?_zipWith, haxis, hstep]
    exact congrArg some (Nat.div_eq_of_lt (by omega))
  rw [slices_eq, count, Shape.volume_eq_zero hzero]
  rfl

/-- The cursor gives out the slices of the grid, and then no more. -/
theorem yields_iff {boxes : List Box} : grid.Yields grid.start boxes ↔ boxes = grid.slices := by
  have hyields : grid.Yields grid.start grid.slices := by
    -- an empty grid yields nothing, and any other begins with its first slice
    by_cases hzero : 0 ∈ grid.shape
    · rw [grid.slices_eq_nil hzero]
      exact .done (by rw [next?, start, if_pos (by simpa using hzero)])
    · have hpos : 0 < grid.count := Shape.volume_pos (grid.zero_not_mem_segments hzero)
      have hfirst : grid.start = grid.before 0 := by
        rw [start, before, firstIndex_unrank_zero]
        simpa using hzero
      rw [hfirst, slices_eq, List.range_eq_range', ← Nat.sub_add_cancel hpos]
      exact grid.yields_before (grid.count - 1) (by omega)
  exact ⟨fun h => h.unique hyields, fun h => h ▸ hyields⟩

/-! ## Where slices lie -/

theorem length_place (k : Nat) : (grid.segments.unrank k).length = grid.steps.length := by
  simp [segments, grid.length_steps]

/-- The slices begin in lexicographic order. -/
theorem start_slice_lt {j k : Nat} (hjk : j < k) (hk : k < grid.count) :
    (grid.slice j).start < (grid.slice k).start := by
  exact zipWith_mul_lt (grid.length_place j) (grid.length_place k) grid.steps_pos
    (Shape.unrank_lt_unrank hjk hk)

/-- The place of a slice is any of its indices divided by the steps. -/
theorem div_eq_place {shape steps place shift : List Nat} (hlength : shape.length = steps.length)
    (hplace : place.length = steps.length) (hsteps : ∀ step ∈ steps, 0 < step)
    (hshift : Shape.Within (List.zipWith (fun step left => min step left) steps
      (List.zipWith (· - ·) shape (List.zipWith (· * ·) place steps))) shift) :
    List.zipWith (· / ·) (List.zipWith (· + ·) (List.zipWith (· * ·) place steps) shift) steps =
      place := by
  induction steps generalizing shape place shift with
  | nil =>
    rw [List.length_eq_zero_iff.mp hplace]
    rfl
  | cons step steps ih =>
    obtain ⟨i, place, rfl⟩ := List.exists_cons_of_length_eq_add_one hplace
    obtain ⟨n, shape, rfl⟩ := List.exists_cons_of_length_eq_add_one hlength
    rw [List.forall_mem_cons] at hsteps
    cases shift with
    | nil => cases hshift
    | cons r shift =>
      obtain ⟨hr, hshift⟩ := hshift
      -- what an index is behind the first one on this axis is less than a step
      have hlt : r < step := Nat.lt_of_lt_of_le hr (Nat.min_le_left _ _)
      have hquotient : (i * step + r) / step = i := by
        rw [Nat.mul_comm, Nat.mul_add_div hsteps.1, Nat.div_eq_of_lt hlt, Nat.add_zero]
      exact congrArg₂ List.cons hquotient
        (ih (Nat.succ.inj hlength) (Nat.succ.inj hplace) hsteps.2 hshift)

theorem place_of_mem_slice {k : Nat} {index : Index} (h : index ∈ (grid.slice k).indices) :
    List.zipWith (· / ·) index grid.steps = grid.segments.unrank k := by
  obtain ⟨shift, hshift, rfl⟩ := Box.mem_indices_iff.mp h
  exact div_eq_place grid.length_steps (grid.length_place k) grid.steps_pos hshift

/-- No index lies in two slices. -/
theorem eq_of_mem_slice {j k : Nat} (hj : j < grid.count) (hk : k < grid.count) {index : Index}
    (h : index ∈ (grid.slice j).indices) (h' : index ∈ (grid.slice k).indices) : j = k := by
  rw [← Shape.offset_unrank hj, ← Shape.offset_unrank hk, ← grid.place_of_mem_slice h,
    grid.place_of_mem_slice h']

/-- A slice takes at least one position and at most a step on each axis. -/
theorem count_of_place {shape steps place : List Nat} (hlength : shape.length = steps.length)
    (hsteps : ∀ step ∈ steps, 0 < step)
    (hplace : Shape.Within
      (List.zipWith (fun length step => (length + step - 1) / step) shape steps) place) :
    List.Forall₂ (fun extent step => 1 ≤ extent ∧ extent ≤ step)
      (List.zipWith (fun step left => min step left) steps
        (List.zipWith (· - ·) shape (List.zipWith (· * ·) place steps))) steps := by
  induction steps generalizing shape place with
  | nil => exact .nil
  | cons step steps ih =>
    obtain ⟨n, shape, rfl⟩ := List.exists_cons_of_length_eq_add_one hlength
    rw [List.forall_mem_cons] at hsteps
    cases place with
    | nil => cases hplace
    | cons i place =>
      obtain ⟨hi, hplace⟩ := hplace
      -- the segment begins before the end, so at least one index is left for it
      have hlt : i * step < n := (mul_lt_iff hsteps.1).mpr hi
      refine .cons ⟨?_, Nat.min_le_left _ _⟩ (ih (Nat.succ.inj hlength) hsteps.2 hplace)
      exact Nat.le_min.mpr ⟨hsteps.1, Nat.sub_pos_of_lt hlt⟩

theorem mem_slices_iff {box : Box} :
    box ∈ grid.slices ↔ ∃ k < grid.count, grid.slice k = box := by
  simp [slices_eq]

theorem length_slices : grid.slices.length = grid.count := by
  simp [slices_eq]

theorem count_eq_prod :
    grid.count = (List.zipWith (· ⌈/⌉ ·) grid.shape grid.steps).prod := rfl

/-- The slices of a grid, as a cursor gives them out, are as many as there are choices of a segment
on every axis, so there are none if an axis is empty. They begin in lexicographic order. Each of
them lies in the shape and takes at least one position and at most a step on every axis, and every
index of the shape lies in exactly one of them. -/
theorem slices_partition (grid : SliceGrid) :
    (∀ boxes, grid.Yields grid.start boxes ↔ boxes = grid.slices) ∧
    grid.slices.length = (List.zipWith (· ⌈/⌉ ·) grid.shape grid.steps).prod ∧
    (0 ∈ grid.shape → grid.slices = []) ∧
    grid.slices.Pairwise (fun box box' => box.start < box'.start) ∧
    (∀ box ∈ grid.slices, box.start.length = grid.shape.length ∧
      box.count.length = grid.shape.length ∧ (Selection.box box).fits grid.shape = true ∧
      List.Forall₂ (fun extent step => 1 ≤ extent ∧ extent ≤ step) box.count grid.steps) ∧
    ∀ index, grid.shape.Within index →
      ∃! k : Nat, ∃ box : Box, grid.slices[k]? = some box ∧ index ∈ box.indices := by
  refine ⟨fun boxes => grid.yields_iff, ?_, grid.slices_eq_nil, ?_, fun box hbox => ?_,
    fun index hindex => ?_⟩
  · rw [length_slices, count_eq_prod]
  · rw [slices_eq, List.pairwise_map]
    exact List.pairwise_lt_range.imp_of_mem fun _ hk hjk =>
      grid.start_slice_lt hjk (List.mem_range.mp hk)
  · obtain ⟨k, hk, rfl⟩ := grid.mem_slices_iff.mp hbox
    have hfits : (grid.slice k).fits grid.shape = true :=
      Box.fits_iff.mpr ⟨grid.rank_of_mem_slices hbox, grid.stop_slice_le hk⟩
    have hextent := count_of_place grid.length_steps grid.steps_pos (Shape.within_unrank hk)
    have hrank : (grid.slice k).count.length = grid.shape.length := by
      rw [grid.length_steps]
      exact hextent.length_eq
    exact ⟨(grid.rank_of_mem_slices hbox).trans hrank, hrank, hfits, hextent⟩
  · obtain ⟨box, hbox, hmem⟩ := grid.exists_mem_slices hindex
    obtain ⟨k, hk, rfl⟩ := grid.mem_slices_iff.mp hbox
    -- slice `j` stands at place `j`
    have hlisted : ∀ j < grid.count, grid.slices[j]? = some (grid.slice j) := by
      intro j hj
      rw [slices_eq, List.getElem?_map, List.getElem?_range hj]
      rfl
    refine ⟨k, ⟨_, hlisted k hk, hmem⟩, ?_⟩
    -- two slices that share an index are the same
    rintro j ⟨box, hbox', hmem'⟩
    have hj : j < grid.count := by
      rw [← length_slices]
      exact (List.getElem?_eq_some_iff.mp hbox').1
    obtain rfl := Option.some.inj ((hlisted j hj).symm.trans hbox')
    exact grid.eq_of_mem_slice hj hk hmem' hmem

/-- Five rows of four columns in slices of two by three: the last of the six slices is cut off on
both axes, and the cell to its left is in one slice only. Without rows there are no slices. -/
theorem slices_partition_five_by_four :
    (SliceGrid.mk [5, 4] [2, 3]).slices.length = 6 ∧
    (⟨[4, 3], [1, 1]⟩ : Box) ∈ (SliceGrid.mk [5, 4] [2, 3]).slices ∧
    (Selection.box ⟨[4, 3], [1, 1]⟩).fits [5, 4] = true ∧
    Shape.Within [5, 4] [4, 2] ∧
    (∃! k : Nat, ∃ box : Box, (SliceGrid.mk [5, 4] [2, 3]).slices[k]? = some box ∧
      [4, 2] ∈ box.indices) ∧
    0 ∈ (SliceGrid.mk [0, 4] [1]).shape ∧ (SliceGrid.mk [0, 4] [1]).slices = [] := by
  obtain ⟨-, hlength, -, -, hslice, hindex⟩ := slices_partition ⟨[5, 4], [2, 3]⟩
  have hlast : (⟨[4, 3], [1, 1]⟩ : Box) ∈ (SliceGrid.mk [5, 4] [2, 3]).slices := by decide
  have hwithin : Shape.Within [5, 4] [4, 2] := by decide
  have hempty : 0 ∈ (SliceGrid.mk [0, 4] [1]).shape := by decide
  exact ⟨hlength, hlast, (hslice _ hlast).2.2.1, hwithin, hindex _ hwithin, hempty,
    (slices_partition ⟨[0, 4], [1]⟩).2.2.1 hempty⟩

end SliceGrid

end GroupFlattening
