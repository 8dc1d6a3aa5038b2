import GroupFlattening.Forest
import GroupFlattening.ObjectPath
import GroupFlattening.Store.Basic
import Std.Data.ExtTreeMap

/-!
# Datasets in Memory

A dataset is a tree of groups, each with attributes, dimensions and variables. A path is followed
from the root by the names of groups; its last name is that of a dimension or a variable. A
variable keeps the cells that were written, each under its index; all others are zero. Its cells lie
inside the shape it was last written with, which may lag behind the current sizes of its dimensions.
-/

namespace GroupFlattening

/-- A variable with its cells. -/
structure Dataset.Variable where
  /-- The name within the group. -/
  name : String
  /-- The type of the elements. -/
  type : ElementType
  /-- The paths of the dimensions, outermost first. -/
  dimensions : List String
  /-- The attributes. -/
  attributes : Attributes
  /-- The shape of the variable when it was created or last written. -/
  stored : Shape
  /-- The cells that were written, by their index. -/
  cells : Std.ExtTreeMap Index Cell
  deriving DecidableEq, Repr, Inhabited

/-- A group without what lies below it. -/
structure Dataset.Group where
  /-- The name within the group around it. -/
  name : String
  /-- The path from the root. -/
  path : String
  /-- The attributes. -/
  attributes : Attributes
  /-- The dimensions in the order of their creation. -/
  dimensions : List Dimension
  /-- The variables in the order of their creation. -/
  vars : List Dataset.Variable
  deriving DecidableEq, Repr, Inhabited

/-- A dataset in memory. -/
structure Dataset where
  /-- Where the dataset is stored. -/
  location : String
  /-- Whether groups other than the root can be created. -/
  isNested : Bool
  /-- The groups; number zero is the root. -/
  groups : Forest Dataset.Group

namespace Dataset

/-! ## New datasets -/

/-- The number of the root group. -/
def rootId : Nat := 0

/-- A group that holds nothing. -/
def Group.empty (name path : String) : Group := ⟨name, path, [], [], []⟩

/-- A dataset with nothing but a root group. -/
def create (location : String) (isNested : Bool) : Dataset :=
  ⟨location, isNested, Forest.empty.add none (Group.empty "" ObjectPath.root)⟩

/-! ## Looking things up -/

/-- The group with the given number. -/
def group (dataset : Dataset) (id : Nat) : Group := (dataset.groups.label? id).getD default

/-- The group of this name inside a group. -/
def child? (dataset : Dataset) (id : Nat) (name : String) : Option Nat :=
  dataset.groups.child? id fun group => group.name == name

/-- The group that the names lead to, from a group down. -/
def descend? (dataset : Dataset) (id : Nat) (names : List String) : Option Nat :=
  names.foldlM dataset.child? id

/-- The number of the group with this path. -/
def groupId (dataset : Dataset) (path : String) : Except StoreFault Nat :=
  match dataset.descend? rootId (ObjectPath.components path) with
  | some id => .ok id
  | none => .error (.notFound (.path path))

/-- The dimension with this path. -/
def dimension (dataset : Dataset) (path : String) : Except StoreFault Dimension := do
  let (group, name) := ObjectPath.split path
  let id ← dataset.groupId group
  match (dataset.group id).dimensions.find? fun dimension => dimension.name == name with
  | some dimension => .ok dimension
  | none => .error (.notFound (.path path))

/-- The variable with this path, and the number of its group. -/
def findVariable (dataset : Dataset) (path : String) : Except StoreFault (Nat × Variable) := do
  let (group, name) := ObjectPath.split path
  let id ← dataset.groupId group
  match (dataset.group id).vars.find? fun v => v.name == name with
  | some v => .ok (id, v)
  | none => .error (.notFound (.path path))

/-- The current sizes of dimensions. -/
def shapeOf (dataset : Dataset) (dimensions : List String) : Except StoreFault Shape :=
  dimensions.mapM fun path => (·.size) <$> dataset.dimension path

/-- Whether a group holds a variable or a group of this name. -/
def isNameTaken (dataset : Dataset) (id : Nat) (name : String) : Bool :=
  ((dataset.group id).vars.any fun v => v.name == name) ||
    (dataset.child? id name).isSome

/-- The numbers of all groups, every group before those inside it. -/
def groupIds (dataset : Dataset) : List Nat := dataset.groups.subtree rootId

/-- The paths of all groups, every group before those inside it. -/
def groupPaths (dataset : Dataset) : List String :=
  dataset.groupIds.map fun id => (dataset.group id).path

/-! ## Changing things -/

/-- The list with its first accepted item changed. -/
def changeFirst {α : Type} (accepts : α → Bool) (change : α → α) : List α → List α
  | [] => []
  | a :: rest => if accepts a then change a :: rest else a :: changeFirst accepts change rest

/-- The dataset with one group changed. -/
def changeGroup (dataset : Dataset) (id : Nat) (change : Group → Group) : Dataset :=
  { dataset with groups := dataset.groups.modify id change }

/-- The dataset with one dimension of a group changed. -/
def changeDimension (dataset : Dataset) (id : Nat) (name : String)
    (change : Dimension → Dimension) : Dataset :=
  dataset.changeGroup id fun group =>
    { group with
      dimensions := changeFirst (fun dimension => dimension.name == name) change group.dimensions }

/-- The dataset with one variable of a group changed. -/
def changeVariable (dataset : Dataset) (id : Nat) (name : String) (change : Variable → Variable) :
    Dataset :=
  dataset.changeGroup id fun group =>
    { group with vars := changeFirst (fun v => v.name == name) change group.vars }

end Dataset

end GroupFlattening
