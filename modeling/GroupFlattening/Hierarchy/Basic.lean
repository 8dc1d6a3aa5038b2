import GroupFlattening.Forest
import GroupFlattening.ObjectPath
import GroupFlattening.Reference.Rule

/-!
# Hierarchies

What a search for references needs to know of a dataset: its tree of groups, the dimensions and
variables that each group defines, and for each variable its dimensions and its coordinates.

A group built by hand may be put inside itself. It is then a root that also counts as its own
parent and as the first of its children. The hierarchy of a dataset has no such group.
-/

namespace GroupFlattening

/-- A variable, as far as searches look at it. -/
structure Hierarchy.Variable where
  /-- The name within the group. -/
  name : String
  /-- The path of the variable. -/
  path : String
  /-- The number of the group. -/
  group : Nat
  /-- The paths of the dimensions, outermost first. -/
  dimensions : List String
  /-- The text of the attribute that lists coordinates. -/
  coordinates : Option String
  deriving DecidableEq, Repr, Inhabited

/-- The number of dimensions. -/
def Hierarchy.Variable.rank (v : Hierarchy.Variable) : Nat := v.dimensions.length

/-- A group and what it defines. -/
structure Hierarchy.Group where
  /-- The name within the group around it. -/
  name : String
  /-- The path of the group. -/
  path : String
  /-- The names of the dimensions. -/
  dimensions : List String
  /-- The variables. -/
  vars : List Hierarchy.Variable
  /-- Whether the group is inside itself. -/
  enclosesItself : Bool := false
  deriving DecidableEq, Repr, Inhabited

/-- A tree of groups; the first one added is the root. -/
structure Hierarchy where
  /-- The groups by their numbers. -/
  groups : Forest Hierarchy.Group

namespace Hierarchy

/-- The hierarchy without groups. -/
def empty : Hierarchy := ⟨Forest.empty⟩

instance : Inhabited Hierarchy := ⟨empty⟩

/-- The number of the root. -/
def rootId : Nat := 0

/-- The number of groups. -/
def size (h : Hierarchy) : Nat := h.groups.size

/-! ## Building -/

/-- A group with nothing in it; an empty path stands for the root. -/
def Group.atPath (path : String) : Group :=
  { name := (ObjectPath.split path).2
    path := if ObjectPath.isRoot path then ObjectPath.root else path
    dimensions := []
    vars := [] }

/-- The group with one more dimension. -/
def Group.addDimension (group : Group) (name : String) : Group :=
  { group with dimensions := group.dimensions ++ [name] }

/-- The group, which has the given number, with one more variable. -/
def Group.addVariable (group : Group) (id : Nat) (name : String) (dimensions : List String)
    (coordinates : Option String) : Group :=
  let path := ObjectPath.join group.path name
  { group with vars := group.vars ++ [⟨name, path, id, dimensions, coordinates⟩] }

/-- The hierarchy with a group added inside another one, inside itself, or as a root. -/
def addGroup (h : Hierarchy) (parent : Option Nat) (group : Group) : Hierarchy :=
  -- the new group is the one that gets the next number
  ⟨h.groups.add parent { group with enclosesItself := parent == some h.size }⟩

/-- The hierarchy with one group changed. -/
def changeGroup (h : Hierarchy) (id : Nat) (change : Group → Group) : Hierarchy :=
  ⟨h.groups.modify id change⟩

/-! ## Looking things up -/

/-- The group with the given number. -/
def group (h : Hierarchy) (id : Nat) : Group := (h.groups.label? id).getD default

/-- The group that a group is inside of. -/
def parent? (h : Hierarchy) (id : Nat) : Option Nat :=
  if (h.group id).enclosesItself then some id else h.groups.parent? id

/-- The groups inside a group, in the order in which they were added. -/
def children (h : Hierarchy) (id : Nat) : List Nat :=
  if (h.group id).enclosesItself then id :: h.groups.children id else h.groups.children id

/-- The group of this name inside a group. -/
def child? (h : Hierarchy) (id : Nat) (name : String) : Option Nat :=
  (h.children id).find? fun child => (h.group child).name == name

/-- The group with this path. -/
def findGroup? (h : Hierarchy) (path : String) : Option Nat :=
  if h.size = 0 then none else (ObjectPath.components path).foldlM h.child? rootId

/-- The variable with this path. -/
def findVariable? (h : Hierarchy) (path : String) : Option Variable := do
  let (group, name) := ObjectPath.split path
  let id ← h.findGroup? group
  (h.group id).vars.find? fun v => v.name == name

/-- Whether a group defines an object of this kind and name. -/
def defines (h : Hierarchy) (id : Nat) (kind : ObjectKind) (name : String) : Bool :=
  match kind with
  | .dim => (h.group id).dimensions.contains name
  | .var => (h.group id).vars.any fun v => v.name == name

/-- All variables, in the order of their groups. -/
def allVars (h : Hierarchy) : List Variable := h.groups.labels.flatMap (·.vars)

end Hierarchy

end GroupFlattening
