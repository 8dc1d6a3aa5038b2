import GroupFlattening.Shape.Selection

/-!
# Slices

A variable is copied piece by piece along a grid: each axis is cut into segments of a fixed
length, the last one possibly shorter, and a slice is one segment on every axis. The slices are
numbered in row-major order of the grid, so each is found from its number alone. There may be far
more of them than are ever looked at: a walk over the grid makes each slice only when it gets there,
and is the same as a walk over the list of all slices (`forSlices_eq`).
-/

namespace GroupFlattening

/-- A shape that is cut into slices. -/
structure SliceGrid where
  /-- The shape that is cut. -/
  shape : Shape
  /-- The lengths asked for; a missing one takes the whole axis and zero counts as one. -/
  sliceShape : Shape
  deriving DecidableEq, Repr

namespace SliceGrid

/-- The length of a full segment on each axis. -/
def steps (grid : SliceGrid) : Shape :=
  grid.shape.zipIdx.map fun axis => max 1 (grid.sliceShape.getD axis.2 axis.1)

/-- The number of segments on each axis. -/
def segments (grid : SliceGrid) : Shape :=
  List.zipWith (fun length step => (length + step - 1) / step) grid.shape grid.steps

/-- The number of slices. -/
def count (grid : SliceGrid) : Nat := grid.segments.volume

/-- The slice with the given number. -/
def slice (grid : SliceGrid) (k : Nat) : Box :=
  let start := List.zipWith (· * ·) (grid.segments.unrank k) grid.steps
  { start := start
    count := List.zipWith (fun step left => min step left) grid.steps
      (List.zipWith (· - ·) grid.shape start) }

/-- The first `limit` slices, in order. -/
def take (grid : SliceGrid) (limit : Nat) : List Box :=
  (List.range (min limit grid.count)).map grid.slice

/-- All slices in order. -/
def slices (grid : SliceGrid) : List Box := grid.take grid.count

/-! ## Walking over a grid -/

/-- Acts on slice `k` and those after it, `left` in all, one after the other. -/
@[specialize] def forFrom {m : Type → Type} [Monad m] (grid : SliceGrid) (act : Box → m Unit) :
    Nat → Nat → m Unit
  | _, 0 => pure ()
  | k, left + 1 => do
    act (grid.slice k)
    forFrom grid act (k + 1) left

/-- Acts on every slice, one after the other. -/
@[inline] def forSlices {m : Type → Type} [Monad m] (grid : SliceGrid) (act : Box → m Unit) :
    m Unit :=
  grid.forFrom act 0 grid.count

theorem forFrom_eq {m : Type → Type} [Monad m] (grid : SliceGrid) (act : Box → m Unit)
    (k left : Nat) :
    grid.forFrom act k left = ((List.range' k left).map grid.slice).forM act := by
  induction left generalizing k with
  | zero => rfl
  | succ left ih => simp only [forFrom, ih, List.range'_succ, List.map_cons, List.forM]

/-- A walk over a grid is one over the list of its slices. -/
theorem forSlices_eq {m : Type → Type} [Monad m] (grid : SliceGrid) (act : Box → m Unit) :
    grid.forSlices act = grid.slices.forM act := by
  rw [forSlices, forFrom_eq, slices, take, Nat.min_self, List.range_eq_range']

example : (SliceGrid.mk [5, 4] [2, 3]).count = 6 := by decide
example : (SliceGrid.mk [5, 4] [2, 3]).slice 5 = ⟨[4, 3], [1, 1]⟩ := by decide

end SliceGrid

end GroupFlattening
