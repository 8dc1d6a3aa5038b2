import GroupFlattening.Shape.Budget
import GroupFlattening.SortedMap

/-!
# Settings

The choices for one flattening: what happens to references that designate nothing, whether data is
copied and in which pieces, and how deeply groups may be nested.
-/

namespace GroupFlattening

/-- The choices for one flattening. -/
structure Settings where
  /-- Replace references that designate nothing by placeholders instead of failing. -/
  laxMode : Bool := false
  /-- Copy the data of variables, not only their descriptions. -/
  copyData : Bool := true
  /-- The slices in which variables are copied, by path. Without a map every variable is copied
  whole; a variable listed without a shape has one derived from the byte budget. -/
  sliceShapes : Option (SortedMap (Option Shape)) := none
  /-- The bytes that one derived slice may take. -/
  sliceBudget : Nat := 134217728
  /-- The greatest depth at which a group is accepted; the root has depth zero. -/
  depthLimit : Nat := 1024
  deriving DecidableEq, Repr, Inhabited

namespace Settings

/-- The settings with a slice shape for one more variable. -/
def withSliceShape (settings : Settings) (path : String) (sliceShape : Option Shape) : Settings :=
  { settings with
    sliceShapes := some ((settings.sliceShapes.getD SortedMap.empty).insert path sliceShape) }

/-- The slices in which a variable is copied; nothing means that it is copied whole. -/
def sliceShapeFor (settings : Settings) (path : String) (shape : Shape) (elementSize : Nat) :
    Option Shape :=
  (settings.sliceShapes.bind (·.find? path)).map fun sliceShape =>
    sliceShape.getD (shape.withinBudget elementSize settings.sliceBudget)

end Settings

end GroupFlattening
