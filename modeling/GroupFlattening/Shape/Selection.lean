import GroupFlattening.Shape.Index
import GroupFlattening.Text.Quoted

/-!
# Selections

The part of a variable that is read or written: all of it, or a box given by its first index and
its extent on each axis.
-/

namespace GroupFlattening

/-- A box of indices. -/
structure Box where
  /-- The first index. -/
  start : Index
  /-- The number of positions on each axis. -/
  count : Shape
  deriving DecidableEq, Repr, Inhabited

namespace Box

/-- The whole of a shape. -/
def whole (shape : Shape) : Box := ⟨shape.map fun _ => 0, shape⟩

/-- The box from each first position up to, but excluding, each second one. -/
def ofRanges (ranges : List (Nat × Nat)) : Box :=
  ⟨ranges.map (·.1), ranges.map fun range => range.2 - range.1⟩

/-- The first position behind the box, on each axis. -/
def stop (box : Box) : Index := List.zipWith (· + ·) box.start box.count

/-- The index inside the box with the given row-major number. -/
def index (box : Box) (k : Nat) : Index := List.zipWith (· + ·) box.start (box.count.unrank k)

/-- All indices of the box in row-major order. -/
def indices (box : Box) : List Index := (List.range box.count.volume).map box.index

/-- Whether the box has the rank of `shape` and ends inside it on every axis. -/
def fits (box : Box) (shape : Shape) : Bool :=
  box.start.length == shape.length && box.count.length == shape.length &&
    (box.stop.zip shape).all fun axis => decide (axis.1 ≤ axis.2)

end Box

/-- The part of a variable that is read or written. -/
inductive Selection where
  /-- Every element. -/
  | all
  /-- The elements inside a box. -/
  | box (box : Box)
  deriving DecidableEq, Repr, Inhabited

namespace Selection

/-- The selected box of a variable of the given shape. -/
def bounds (selection : Selection) (shape : Shape) : Box :=
  match selection with
  | all => Box.whole shape
  | box b => b

/-- The number of selected elements. -/
def volume (selection : Selection) (shape : Shape) : Nat := (selection.bounds shape).count.volume

/-- The lengths of the axes of the selected part. -/
def outputShape (selection : Selection) (shape : Shape) : Shape := (selection.bounds shape).count

/-- Whether the selection lies inside the shape. -/
def fits (selection : Selection) (shape : Shape) : Bool :=
  match selection with
  | all => true
  | box b => b.fits shape

/-- Numbers as messages show them. -/
def describeNumbers (numbers : List Nat) : String := Text.bracketed (numbers.map toString)

/-- A selection as messages show it. -/
def describe : Selection → String
  | all => "All"
  | box b => "Hyperslab \x7b start: " ++ describeNumbers b.start ++ ", count: " ++
      describeNumbers b.count ++ " \x7d"

end Selection

end GroupFlattening
