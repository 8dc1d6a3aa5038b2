import GroupFlattening.Proofs.Run
import GroupFlattening.Proofs.Shape.Slices
import Mathlib.Data.List.Nodup
import Mathlib.Order.Monotone.Basic

/-!
# The Indices of a Box

Row-major order is a numbering of the indices of a shape: `unrank` and `offset` are inverse to each
other (`unrank_offset`). It is the lexicographic order (`unrank_lt_unrank`). The indices of a box
are the first index shifted by the indices of its extent (`Box.mem_indices_iff`), so they are listed
in lexicographic order too (`Box.pairwise_lt_indices`) and are all different (`Box.nodup_indices`).
The slices of every grid that cuts a shape hold all indices of the shape and no others
(`SliceGrid.coveredBy_slices`), as the whole of the shape does.
-/

namespace GroupFlattening

/-! ## Indices of a shape -/

namespace Shape

variable {shape : Shape} {index : Index}

theorem within_iff_forall₂ : shape.Within index ↔ List.Forall₂ (· < ·) index shape := by
  induction shape generalizing index with
  | nil => cases index <;> simp [Within]
  | cons n shape ih => cases index <;> simp [Within, ih]

theorem Within.length_eq (h : shape.Within index) : index.length = shape.length :=
  (within_iff_forall₂.mp h).length_eq

/-- An index of a shape is one of every larger shape. -/
theorem Within.mono {shape' : Shape} (h : shape.Within index)
    (hle : List.Forall₂ (· ≤ ·) shape shape') : shape'.Within index := by
  rw [within_iff_forall₂] at h ⊢
  induction hle generalizing index with
  | nil => exact h
  | cons hn _ ih =>
    cases h with
    | cons hi hindex => exact .cons (Nat.lt_of_lt_of_le hi hn) (ih hindex)

/-- A shape with an empty axis has no indices. -/
theorem not_within_of_zero_mem (h : 0 ∈ shape) : ¬ shape.Within index := by
  intro hindex
  obtain ⟨i, -, hi⟩ := Forall₂.exists_left (within_iff_forall₂.mp hindex) h
  exact Nat.not_lt_zero i hi

theorem offset_lt (h : shape.Within index) : shape.offset index < shape.volume := by
  induction shape generalizing index with
  | nil => cases index <;> simp [offset]
  | cons n shape ih =>
    cases index with
    | nil => cases h
    | cons i index =>
      -- the inner axes fill less than one step of the outer one
      have hrest := ih h.2
      have hle : (i + 1) * volume shape ≤ n * volume shape := Nat.mul_le_mul_right _ h.1
      rw [Nat.succ_mul] at hle
      rw [offset, volume_cons]
      omega

/-- The number of an index is that of no other index. -/
theorem unrank_offset (h : shape.Within index) : shape.unrank (shape.offset index) = index := by
  induction shape generalizing index with
  | nil =>
    cases index with
    | nil => rfl
    | cons i index => cases h
  | cons n shape ih =>
    cases index with
    | nil => cases h
    | cons i index =>
      have hlt := offset_lt h.2
      -- the offset on the inner axes is the remainder, and the outer position the quotient
      have hpos : 0 < volume shape := by omega
      rw [offset, unrank, Nat.mul_comm, Nat.mul_add_div hpos, Nat.mul_add_mod,
        Nat.div_eq_of_lt hlt, Nat.mod_eq_of_lt hlt, ih h.2, Nat.add_zero]

theorem mem_indices_iff : index ∈ shape.indices ↔ shape.Within index := by
  unfold indices
  rw [List.mem_map]
  constructor
  · rintro ⟨k, hk, rfl⟩
    exact within_unrank (List.mem_range.mp hk)
  · intro h
    exact ⟨shape.offset index, List.mem_range.mpr (offset_lt h), unrank_offset h⟩

theorem indices_eq_nil (h : 0 ∈ shape) : shape.indices = [] := by
  rw [List.eq_nil_iff_forall_not_mem]
  intro index hindex
  exact not_within_of_zero_mem h (mem_indices_iff.mp hindex)

/-! ## Row-major order is lexicographic -/

/-- A greater number has a greater index. -/
theorem unrank_lt_unrank {j k : Nat} (hjk : j < k) (hk : k < shape.volume) :
    shape.unrank j < shape.unrank k := by
  induction shape generalizing j k with
  | nil =>
    rw [volume_nil] at hk
    omega
  | cons n shape ih =>
    have hpos : 0 < volume shape := Nat.pos_of_ne_zero fun h0 => by simp [h0] at hk
    rw [unrank, unrank, List.cons_lt_cons_iff]
    have hle := Nat.div_le_div_right (c := volume shape) (Nat.le_of_lt hjk)
    -- the outer position decides if it differs
    rcases Nat.lt_or_eq_of_le hle with hlt | heq
    · exact Or.inl hlt
    · -- the outermost position is the same, so the rest decides
      have hj := Nat.div_add_mod j (volume shape)
      have hk' := Nat.div_add_mod k (volume shape)
      rw [heq] at hj
      exact Or.inr ⟨heq, ih (by omega) (Nat.mod_lt k hpos)⟩

/-- What is strictly increasing on every axis keeps the lexicographic order. -/
theorem zipWith_lt_zipWith {f : Nat → Nat → Nat} {others index index' : List Nat}
    (hlength : index.length = others.length) (hlength' : index'.length = others.length)
    (hf : ∀ n ∈ others, StrictMono fun i => f i n) (hlt : index < index') :
    List.zipWith f index others < List.zipWith f index' others := by
  induction others generalizing index index' with
  | nil =>
    rw [List.length_eq_zero_iff.mp hlength, List.length_eq_zero_iff.mp hlength'] at hlt
    exact absurd hlt (List.lt_irrefl _)
  | cons n others ih =>
    obtain ⟨i, index, rfl⟩ := List.exists_cons_of_length_eq_add_one hlength
    obtain ⟨i', index', rfl⟩ := List.exists_cons_of_length_eq_add_one hlength'
    rw [List.forall_mem_cons] at hf
    rw [List.zipWith_cons_cons, List.zipWith_cons_cons, List.cons_lt_cons_iff]
    -- the first axis on which the two differ decides both comparisons
    rcases List.cons_lt_cons_iff.mp hlt with hhead | ⟨rfl, hrest⟩
    · exact Or.inl (hf.1 hhead)
    · exact Or.inr ⟨rfl, ih (Nat.succ.inj hlength) (Nat.succ.inj hlength') hf.2 hrest⟩

end Shape

/-! ## Indices of a box -/

namespace Box

/-- The box of one index. -/
def single (index : Index) : Box := ⟨index, index.map fun _ => 1⟩

theorem length_indices (box : Box) : box.indices.length = box.count.volume := by
  simp [indices]

/-- The indices of a box are its first index shifted by the indices of its extent. -/
theorem mem_indices_iff {box : Box} {index : Index} :
    index ∈ box.indices ↔
      ∃ shift, box.count.Within shift ∧ List.zipWith (· + ·) box.start shift = index := by
  unfold indices
  rw [List.mem_map]
  constructor
  · rintro ⟨k, hk, rfl⟩
    exact ⟨box.count.unrank k, Shape.within_unrank (List.mem_range.mp hk), rfl⟩
  · rintro ⟨shift, hshift, rfl⟩
    refine ⟨box.count.offset shift, List.mem_range.mpr (Shape.offset_lt hshift), ?_⟩
    rw [Box.index, Shape.unrank_offset hshift]

theorem indices_eq_nil {box : Box} (h : 0 ∈ box.count) : box.indices = [] := by
  rw [List.eq_nil_iff_forall_not_mem]
  intro index hindex
  obtain ⟨shift, hshift, -⟩ := mem_indices_iff.mp hindex
  exact Shape.not_within_of_zero_mem h hshift

theorem within_stop {start : Index} {count : Shape} {shift : Index} (h : count.Within shift) :
    Shape.Within (List.zipWith (· + ·) start count) (List.zipWith (· + ·) start shift) := by
  induction count generalizing start shift with
  | nil =>
    -- axis by axis, as long as there is a start on the axis
    cases shift with
    | nil => cases start <;> exact trivial
    | cons i shift => cases h
  | cons n count ih =>
    cases shift with
    | nil => cases h
    | cons i shift =>
      cases start with
      | nil => exact trivial
      | cons s start => exact ⟨Nat.add_lt_add_left h.1 s, ih h.2⟩

/-- Every index of a box lies before the end of the box. -/
theorem within_of_mem_indices {box : Box} {index : Index} (h : index ∈ box.indices) {shape : Shape}
    (hstop : List.Forall₂ (· ≤ ·) box.stop shape) : shape.Within index := by
  obtain ⟨shift, hshift, rfl⟩ := mem_indices_iff.mp h
  exact Shape.Within.mono (within_stop hshift) hstop

/-- The indices of a box are those that are nowhere below its first index and lie before its end. -/
theorem mem_indices_iff_between {box : Box} (h : box.start.length = box.count.length)
    {index : Index} :
    index ∈ box.indices ↔
      List.Forall₂ (· ≤ ·) box.start index ∧ List.Forall₂ (· < ·) index box.stop := by
  obtain ⟨start, count⟩ := box
  rw [mem_indices_iff]
  simp only [stop] at h ⊢
  induction start generalizing count index with
  | nil =>
    rw [List.length_eq_zero_iff.mp h.symm]
    cases index <;> simp [Shape.within_iff_forall₂]
  | cons s start ih =>
    obtain ⟨n, count, rfl⟩ := List.exists_cons_of_length_eq_add_one h.symm
    cases index with
    | nil => simp [Shape.within_iff_forall₂]
    | cons i index =>
      rw [List.zipWith_cons_cons, List.forall₂_cons, List.forall₂_cons, and_and_and_comm,
        ← ih count (Nat.succ.inj h)]
      constructor
      · rintro ⟨shift, hshift, heq⟩
        cases shift with
        | nil => cases hshift
        | cons r shift =>
          obtain ⟨rfl, rfl⟩ := List.cons.inj heq
          exact ⟨⟨Nat.le_add_right s r, Nat.add_lt_add_left hshift.1 s⟩, shift, hshift.2, rfl⟩
      -- what is between lies behind the start by less than the count
      · rintro ⟨⟨hle, hlt⟩, shift, hshift, rfl⟩
        refine ⟨(i - s) :: shift, ⟨by omega, hshift⟩, ?_⟩
        rw [List.zipWith_cons_cons, Nat.add_sub_cancel' hle]

/-- The indices of a box are listed in lexicographic order. -/
theorem pairwise_lt_indices {box : Box} (h : box.start.length = box.count.length) :
    box.indices.Pairwise (· < ·) := by
  have hindex : ∀ k, box.index k = List.zipWith (· + ·) (box.count.unrank k) box.start :=
    fun k => List.zipWith_comm_of_comm Nat.add_comm
  -- to add the start keeps the order of the shifts
  have hadd : ∀ n ∈ box.start, StrictMono fun i => i + n := by
    intro n _ i j hij
    exact Nat.add_lt_add_right hij n
  rw [indices, List.pairwise_map]
  refine List.pairwise_lt_range.imp_of_mem fun {j k} _ hk hjk => ?_
  rw [hindex, hindex]
  exact Shape.zipWith_lt_zipWith (by simp [h]) (by simp [h]) hadd
    (Shape.unrank_lt_unrank hjk (List.mem_range.mp hk))

/-- A box lists no index twice. -/
theorem nodup_indices {box : Box} (h : box.start.length = box.count.length) :
    box.indices.Nodup := by
  refine (pairwise_lt_indices h).imp fun hlt heq => ?_
  rw [heq] at hlt
  exact List.lt_irrefl _ hlt

theorem shift_zero {shape : Shape} {index : Index} (h : index.length = shape.length) :
    List.zipWith (· + ·) (shape.map fun _ => 0) index = index := by
  induction shape generalizing index with
  | nil => exact (List.length_eq_zero_iff.mp h).symm
  | cons n shape ih =>
    cases index with
    | nil => cases h
    | cons i index => exact congrArg₂ List.cons (Nat.zero_add i) (ih (Nat.succ.inj h))

/-- The whole of a shape lists the indices of the shape. -/
theorem indices_whole (shape : Shape) : (whole shape).indices = shape.indices := by
  refine List.map_congr_left fun k _ => ?_
  show List.zipWith (· + ·) (shape.map fun _ => 0) (shape.unrank k) = shape.unrank k
  exact shift_zero (Shape.length_unrank shape k)

theorem volume_single (index : Index) : (single index).count.volume = 1 := by
  induction index with
  | nil => rfl
  | cons i index ih =>
    show 1 * Shape.volume (index.map fun _ => 1) = 1
    rw [Nat.one_mul]
    exact ih

theorem indices_single (index : Index) : (single index).indices = [index] := by
  unfold indices
  rw [volume_single]
  show [(single index).index 0] = [index]
  -- every shift within a box of one index is zero
  have hindex : ∀ index : Index, (single index).index 0 = index := by
    intro index
    induction index with
    | nil => rfl
    | cons i index ih =>
      show (i + 0 / Shape.volume (index.map fun _ => 1)) ::
        List.zipWith (· + ·) index
          (Shape.unrank (index.map fun _ => 1) (0 % Shape.volume (index.map fun _ => 1))) =
        i :: index
      rw [Nat.zero_div, Nat.zero_mod, Nat.add_zero]
      exact congrArg (List.cons i) ih
  rw [hindex]

/-- A box that fits a shape has its rank and ends inside it. -/
theorem fits_iff {box : Box} {shape : Shape} :
    box.fits shape = true ↔ box.start.length = box.count.length ∧
      List.Forall₂ (· ≤ ·) box.stop shape := by
  unfold fits stop
  rw [Bool.and_eq_true, Bool.and_eq_true, beq_iff_eq, beq_iff_eq, List.forall₂_iff_zip]
  simp only [List.all_eq_true, decide_eq_true_eq, List.length_zipWith, Prod.forall]
  constructor
  · rintro ⟨⟨hstart, hcount⟩, hle⟩
    exact ⟨hstart.trans hcount.symm, by omega, fun {a b} => hle a b⟩
  · rintro ⟨hrank, hlength, hle⟩
    exact ⟨⟨by omega, by omega⟩, hle⟩

theorem stop_single (index : Index) : (single index).stop = index.map (· + 1) := by
  unfold stop single
  induction index with
  | nil => rfl
  | cons i index ih => exact congrArg (List.cons (i + 1)) ih

/-- The box of one index fits the shapes that have the index. -/
theorem fits_single {index : Index} {shape : Shape} :
    (single index).fits shape = true ↔ shape.Within index := by
  have hlength : (single index).start.length = (single index).count.length :=
    (List.length_map _).symm
  rw [fits_iff, stop_single, List.forall₂_map_left_iff, Shape.within_iff_forall₂]
  exact and_iff_right hlength

end Box

/-! ## Slices -/

namespace SliceGrid

/-- The slice that an index lies in, axis by axis. -/
theorem exists_shift {shape steps : List Nat} {index : Index}
    (hlength : shape.length = steps.length) (hsteps : ∀ step ∈ steps, 0 < step)
    (h : Shape.Within shape index) :
    ∃ place shift,
      Shape.Within (List.zipWith (fun length step => (length + step - 1) / step) shape steps)
        place ∧
      Shape.Within (List.zipWith (fun step left => min step left) steps
        (List.zipWith (· - ·) shape (List.zipWith (· * ·) place steps))) shift ∧
      List.zipWith (· + ·) (List.zipWith (· * ·) place steps) shift = index := by
  induction shape generalizing steps index with
  | nil =>
    cases index with
    | nil => exact ⟨[], [], trivial, by cases steps <;> exact trivial, rfl⟩
    | cons i index => cases h
  | cons n shape ih =>
    cases steps with
    | nil => cases hlength
    | cons step steps =>
      cases index with
      | nil => cases h
      | cons i index =>
        rw [List.forall_mem_cons] at hsteps
        obtain ⟨place, shift, hplace, hshift, hindex⟩ := ih (Nat.succ.inj hlength) hsteps.2 h.2
        have hdiv := Nat.div_add_mod' i step
        have hmod := Nat.mod_lt i hsteps.1
        have hlt : i < n := h.1
        -- the segment of a position is its quotient, the place inside the segment its remainder
        refine ⟨i / step :: place, i % step :: shift, ⟨?_, hplace⟩, ⟨?_, hshift⟩, ?_⟩
        · refine (Nat.le_div_iff_mul_le hsteps.1).mpr ?_
          rw [Nat.succ_mul]
          omega
        · show i % step < min step (n - i / step * step)
          omega
        · exact congrArg₂ List.cons hdiv hindex

/-- Every index of the shape lies in a slice. -/
theorem exists_mem_slices (grid : SliceGrid) {index : Index} (h : grid.shape.Within index) :
    ∃ box ∈ grid.slices, index ∈ box.indices := by
  obtain ⟨place, shift, hplace, hshift, hindex⟩ := exists_shift grid.length_steps grid.steps_pos h
  -- the segment that holds the index is the one at this place
  have hunrank : grid.segments.unrank (grid.segments.offset place) = place :=
    Shape.unrank_offset hplace
  refine ⟨grid.slice (grid.segments.offset place), ?_, ?_⟩
  · rw [slices, take, Nat.min_self]
    exact List.mem_map_of_mem (List.mem_range.mpr (Shape.offset_lt hplace))
  · refine Box.mem_indices_iff.mpr ⟨shift, ?_, ?_⟩
    · simp only [slice, hunrank]
      exact hshift
    · simp only [slice, hunrank]
      exact hindex

/-- A slice holds indices of the shape only. -/
theorem within_of_mem_slices (grid : SliceGrid) {box : Box} (hbox : box ∈ grid.slices)
    {index : Index} (h : index ∈ box.indices) : grid.shape.Within index := by
  rw [slices, take, Nat.min_self] at hbox
  obtain ⟨k, hk, rfl⟩ := List.mem_map.mp hbox
  exact Box.within_of_mem_indices h (grid.stop_slice_le (List.mem_range.mp hk))

theorem rank_of_mem_slices (grid : SliceGrid) {box : Box} (hbox : box ∈ grid.slices) :
    box.start.length = box.count.length := by
  rw [slices, take, Nat.min_self] at hbox
  obtain ⟨k, -, rfl⟩ := List.mem_map.mp hbox
  have hlength := grid.length_steps
  simp only [slice, segments, List.length_zipWith, Shape.length_unrank]
  omega

end SliceGrid

/-! ## Boxes that make up a shape -/

/-- Boxes that together hold every index of a shape and no other. -/
structure Shape.CoveredBy (shape : Shape) (boxes : List Box) : Prop where
  rank : ∀ box ∈ boxes, box.start.length = box.count.length
  exists_mem_iff : ∀ index, (∃ box ∈ boxes, index ∈ box.indices) ↔ shape.Within index

/-- No boxes cover a shape with an empty axis. -/
theorem Shape.coveredBy_nil {shape : Shape} (h : 0 ∈ shape) : shape.CoveredBy [] := by
  refine ⟨by simp, fun index => ?_⟩
  simp [Shape.not_within_of_zero_mem h]

theorem Shape.coveredBy_whole (shape : Shape) : shape.CoveredBy [Box.whole shape] := by
  refine ⟨by simp [Box.whole], fun index => ?_⟩
  simp [Box.indices_whole, mem_indices_iff]

theorem SliceGrid.coveredBy_slices (grid : SliceGrid) : grid.shape.CoveredBy grid.slices := by
  refine ⟨fun box hbox => grid.rank_of_mem_slices hbox, fun index => ⟨?_, ?_⟩⟩
  · rintro ⟨box, hbox, hindex⟩
    exact grid.within_of_mem_slices hbox hindex
  · intro hindex
    exact grid.exists_mem_slices hindex

end GroupFlattening
