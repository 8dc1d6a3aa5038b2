/-!
# Shapes and Row-Major Indices

A shape lists the lengths of the axes of an array, outermost first, and an index one position on
each axis. Row-major order numbers the indices of a shape from zero, the last axis running
fastest: `offset` gives the number of an index and `unrank` the index of a number.
-/

namespace GroupFlattening

/-- The lengths of the axes of an array, outermost first. -/
abbrev Shape := List Nat

/-- A position on each axis. -/
abbrev Index := List Nat

namespace Shape

/-- The number of indices of a shape. -/
def volume (shape : Shape) : Nat := shape.foldr (· * ·) 1

/-- Whether an index has one position on each axis, below the length of the axis. -/
def Within : Shape → Index → Prop
  | [], [] => True
  | n :: shape, i :: index => i < n ∧ Within shape index
  | _, _ => False

instance decidableWithin : (shape : Shape) → (index : Index) → Decidable (Within shape index)
  | [], [] => .isTrue trivial
  | _ :: shape, _ :: index =>
    have := decidableWithin shape index
    inferInstanceAs (Decidable (_ ∧ _))
  | [], _ :: _ => .isFalse id
  | _ :: _, [] => .isFalse id

/-- The row-major number of an index. -/
def offset : Shape → Index → Nat
  | _ :: shape, i :: index => i * volume shape + offset shape index
  | _, _ => 0

/-- The index with the given row-major number. -/
def unrank : Shape → Nat → Index
  | [], _ => []
  | _ :: shape, k => k / volume shape :: unrank shape (k % volume shape)

/-- All indices of a shape in row-major order. -/
def indices (shape : Shape) : List Index := (List.range shape.volume).map shape.unrank

@[simp] theorem volume_nil : volume [] = 1 := rfl

@[simp] theorem volume_cons (n : Nat) (shape : Shape) : volume (n :: shape) = n * volume shape :=
  rfl

@[simp] theorem length_unrank (shape : Shape) (k : Nat) :
    (shape.unrank k).length = shape.length := by
  induction shape generalizing k with
  | nil => rfl
  | cons n shape ih => simp [unrank, ih]

/-- The index of a number has that number. -/
theorem offset_unrank {shape : Shape} {k : Nat} (h : k < shape.volume) :
    shape.offset (shape.unrank k) = k := by
  induction shape generalizing k with
  | nil => simp at h; simp [offset, h]
  | cons n shape ih =>
    have hpos : 0 < volume shape := Nat.pos_of_ne_zero fun h0 => by simp [h0] at h
    rw [unrank, offset, ih (Nat.mod_lt _ hpos)]
    exact Nat.div_add_mod' k (volume shape)

example : offset [3, 4] [2, 1] = 9 ∧ unrank [3, 4] 9 = [2, 1] := by decide

end Shape

end GroupFlattening
