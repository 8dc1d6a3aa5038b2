import GroupFlattening.Shape.Slices
import Mathlib.Data.List.Forall2

/-!
# Where Slices End

The slices of a shape stay inside it (`stop_slice_le`), and the last one ends where the shape ends
on every axis (`stop_slice_last`). Data that is copied slice by slice therefore reaches exactly as
far as data that is copied whole.
-/

namespace GroupFlattening

/-! ## Indices of numbers -/

namespace Shape

/-- The index of a number below the volume lies in the shape. -/
theorem within_unrank {shape : Shape} {k : Nat} (h : k < shape.volume) :
    shape.Within (shape.unrank k) := by
  induction shape generalizing k with
  | nil => exact trivial
  | cons n shape ih =>
    have hpos : 0 < volume shape := Nat.pos_of_ne_zero fun h0 => by simp [h0] at h
    refine ⟨?_, ih (Nat.mod_lt _ hpos)⟩
    rw [volume_cons] at h
    exact Nat.div_lt_of_lt_mul (by rwa [Nat.mul_comm])

theorem volume_pos {shape : Shape} (h : 0 ∉ shape) : 0 < shape.volume := by
  induction shape with
  | nil => exact Nat.zero_lt_one
  | cons n shape ih =>
    rw [List.mem_cons, not_or] at h
    exact Nat.mul_pos (Nat.pos_of_ne_zero (Ne.symm h.1)) (ih h.2)

/-- The last index is the last position on every axis. -/
theorem unrank_last {shape : Shape} (h : 0 ∉ shape) :
    shape.unrank (shape.volume - 1) = shape.map (· - 1) := by
  induction shape with
  | nil => rfl
  | cons n shape ih =>
    rw [List.mem_cons, not_or] at h
    have hpos := volume_pos h.2
    obtain ⟨m, rfl⟩ : ∃ m, n = m + 1 := Nat.exists_eq_succ_of_ne_zero (Ne.symm h.1)
    -- the last number is that of the last position on the first axis, and there the last
    have hlast : volume ((m + 1) :: shape) - 1 = volume shape * m + (volume shape - 1) := by
      rw [volume_cons, Nat.add_mul, Nat.one_mul, Nat.mul_comm]
      omega
    rw [unrank, hlast, Nat.mul_add_div hpos, Nat.mul_add_mod,
      Nat.div_eq_of_lt (by omega), Nat.mod_eq_of_lt (by omega), ih h.2]
    rfl

end Shape

/-! ## Ends of slices -/

namespace SliceGrid

/-- The segment count of an axis. -/
private def ceiling (length step : Nat) : Nat := (length + step - 1) / step

private theorem segment_le {length step i : Nat} (hstep : 0 < step)
    (hi : i < ceiling length step) : i * step ≤ length := by
  -- a position below the ceiling leaves at least one element
  have hle := (Nat.le_div_iff_mul_le hstep).mp (Nat.succ_le_of_lt hi)
  rw [Nat.succ_mul] at hle
  omega

private theorem le_segment_last {length step : Nat} (hstep : 0 < step) (hlength : 0 < length) :
    length ≤ (ceiling length step - 1) * step + step := by
  have hdiv := Nat.div_add_mod (length + step - 1) step
  have hmod := Nat.mod_lt (length + step - 1) hstep
  have hpos : 0 < ceiling length step := Nat.div_pos (by omega) hstep
  obtain ⟨i, hi⟩ := Nat.exists_eq_succ_of_ne_zero (Nat.pos_iff_ne_zero.mp hpos)
  have hi : (length + step - 1) / step = i + 1 := hi
  rw [hi, Nat.mul_succ, Nat.mul_comm] at hdiv
  rw [ceiling, hi, Nat.add_sub_cancel]
  omega

/-- Where the slice with the given position on each axis ends. -/
private def stopAt (shape steps index : List Nat) : List Nat :=
  let start := List.zipWith (· * ·) index steps
  List.zipWith (· + ·) start
    (List.zipWith (fun step left => min step left) steps (List.zipWith (· - ·) shape start))

private theorem stopAt_le {shape steps index : List Nat} (hlength : shape.length = steps.length)
    (hsteps : ∀ step ∈ steps, 0 < step)
    (hindex : Shape.Within (List.zipWith ceiling shape steps) index) :
    List.Forall₂ (· ≤ ·) (stopAt shape steps index) shape := by
  induction shape generalizing steps index with
  | nil =>
    cases steps with
    | nil =>
      cases index with
      | nil => exact List.Forall₂.nil
      | cons i index => cases hindex
    | cons step steps => cases hlength
  | cons n shape ih =>
    cases steps with
    | nil => cases hlength
    | cons step steps =>
      cases index with
      | nil => cases hindex
      | cons i index =>
        obtain ⟨hi, hindex⟩ := hindex
        rw [List.forall_mem_cons] at hsteps
        refine List.Forall₂.cons ?_ (ih (Nat.succ.inj hlength) hsteps.2 hindex)
        -- a segment is cut where the axis ends
        have hle := segment_le hsteps.1 hi
        show i * step + min step (n - i * step) ≤ n
        omega

private theorem stopAt_last {shape steps : List Nat} (hlength : shape.length = steps.length)
    (hsteps : ∀ step ∈ steps, 0 < step) (hshape : 0 ∉ shape) :
    stopAt shape steps ((List.zipWith ceiling shape steps).map (· - 1)) = shape := by
  induction shape generalizing steps with
  | nil =>
    cases steps with
    | nil => rfl
    | cons step steps => cases hlength
  | cons n shape ih =>
    cases steps with
    | nil => cases hlength
    | cons step steps =>
      rw [List.forall_mem_cons] at hsteps
      rw [List.mem_cons, not_or] at hshape
      have hpos : 0 < n := Nat.pos_of_ne_zero (Ne.symm hshape.1)
      have hceiling : 0 < ceiling n step := Nat.div_pos (by omega) hsteps.1
      have hle := segment_le hsteps.1 (Nat.sub_lt hceiling Nat.zero_lt_one)
      have hge := le_segment_last hsteps.1 hpos
      -- the last segment begins before the end and would reach past it
      have hhead : (ceiling n step - 1) * step +
          min step (n - (ceiling n step - 1) * step) = n := by omega
      exact congrArg₂ List.cons hhead (ih (Nat.succ.inj hlength) hsteps.2 hshape.2)

variable (grid : SliceGrid)

theorem length_steps : grid.shape.length = grid.steps.length := by simp [steps]

theorem steps_pos : ∀ step ∈ grid.steps, 0 < step := by
  intro step hstep
  obtain ⟨axis, -, rfl⟩ := List.mem_map.mp hstep
  omega

/-- A slice ends inside the shape. -/
theorem stop_slice_le {k : Nat} (h : k < grid.count) :
    List.Forall₂ (· ≤ ·) (grid.slice k).stop grid.shape :=
  stopAt_le grid.length_steps grid.steps_pos (Shape.within_unrank h)

theorem zero_not_mem_segments (h : 0 ∉ grid.shape) : 0 ∉ grid.segments := by
  have hlength := grid.length_steps
  have hsteps := grid.steps_pos
  rw [segments]
  -- only the lengths and the positive steps matter
  generalize grid.shape = shape, grid.steps = steps at h hlength hsteps ⊢
  induction shape generalizing steps with
  | nil => simp
  | cons n shape ih =>
    cases steps with
    | nil => cases hlength
    | cons step steps =>
      rw [List.forall_mem_cons] at hsteps
      rw [List.mem_cons, not_or] at h
      -- an axis that is not empty has a first segment
      have hpos : 0 < (n + step - 1) / step := Nat.div_pos (by omega) hsteps.1
      rw [List.zipWith_cons_cons, List.mem_cons, not_or]
      exact ⟨Nat.ne_of_lt hpos, ih steps h.2 (Nat.succ.inj hlength) hsteps.2⟩

/-- The last slice ends where the shape ends. -/
theorem stop_slice_last (h : 0 ∉ grid.shape) :
    (grid.slice (grid.count - 1)).stop = grid.shape := by
  have hindex := Shape.unrank_last (grid.zero_not_mem_segments h)
  have hlast := stopAt_last grid.length_steps grid.steps_pos h
  show stopAt grid.shape grid.steps (grid.segments.unrank (grid.segments.volume - 1)) = _
  rw [hindex]
  exact hlast

/-- A shape without an empty axis has a last slice, behind all others. -/
theorem slices_eq_append (h : 0 ∉ grid.shape) :
    grid.slices =
      (List.range (grid.count - 1)).map grid.slice ++ [grid.slice (grid.count - 1)] := by
  have hpos : 0 < grid.count := Shape.volume_pos (grid.zero_not_mem_segments h)
  obtain ⟨n, hn⟩ := Nat.exists_eq_succ_of_ne_zero (Nat.pos_iff_ne_zero.mp hpos)
  rw [slices, take, Nat.min_self, hn, List.range_succ, List.map_append]
  rfl

end SliceGrid

/-- The whole of a shape ends where the shape ends. -/
theorem Box.stop_whole (shape : Shape) : (Box.whole shape).stop = shape := by
  induction shape with
  | nil => rfl
  | cons n shape ih => exact congrArg₂ List.cons (Nat.zero_add n) ih

end GroupFlattening
