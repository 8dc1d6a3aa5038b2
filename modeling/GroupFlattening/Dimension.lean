/-!
# Dimensions

A dimension has a name and a current size. An unlimited dimension grows when data is written past
its end; it is always created empty.
-/

namespace GroupFlattening

/-- A dimension of a group. -/
structure Dimension where
  /-- The name within the group. -/
  name : String
  /-- The current size. -/
  size : Nat
  /-- Whether writing past the end makes the dimension grow. -/
  isUnlimited : Bool
  deriving DecidableEq, Repr, Inhabited

namespace Dimension

/-- A dimension as it is created: with a fixed size, or unlimited and empty. -/
def create (name : String) : Option Nat → Dimension
  | some size => ⟨name, size, false⟩
  | none => ⟨name, 0, true⟩

/-- The size to ask for when the dimension is created anew; an unlimited one has none. -/
def creationSize (dimension : Dimension) : Option Nat :=
  if dimension.isUnlimited then none else some dimension.size

end Dimension

end GroupFlattening
