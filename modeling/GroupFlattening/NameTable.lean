import GroupFlattening.FlatName
import GroupFlattening.Hierarchy.Basic
import GroupFlattening.SortedMap

/-!
# Name Tables

The flat names of all dimensions and of all variables of a hierarchy, by path. They are known
before anything is written, so that references to objects not yet copied can be replaced too.
-/

namespace GroupFlattening

/-- Flat names by path, one map for each kind of object. -/
structure NameTable where
  /-- The flat names of dimensions. -/
  dimensions : SortedMap String := SortedMap.empty
  /-- The flat names of variables. -/
  vars : SortedMap String := SortedMap.empty
  deriving DecidableEq, Repr, Inhabited

namespace NameTable

/-- The flat names of one kind. -/
def ofKind (names : NameTable) : ObjectKind → SortedMap String
  | .dim => names.dimensions
  | .var => names.vars

/-- The paths and flat names of the dimensions of a group. -/
def dimensionEntries (group : Hierarchy.Group) : List (String × String) :=
  group.dimensions.map fun name => (ObjectPath.join group.path name, flatName group.path name)

/-- The paths and flat names of the variables of a group. -/
def variableEntries (group : Hierarchy.Group) : List (String × String) :=
  group.vars.map fun v => (v.path, flatName group.path v.name)

/-- The names of all objects of a hierarchy. -/
def ofHierarchy (h : Hierarchy) : NameTable :=
  { dimensions := SortedMap.ofList (h.groups.labels.flatMap dimensionEntries)
    vars := SortedMap.ofList (h.groups.labels.flatMap variableEntries) }

/-- The flat name of the object of one kind at a path, or of the other kind where both may be
meant. -/
def find? (names : NameTable) (path : String) (kind : ObjectKind) (both : Bool) : Option String :=
  match (names.ofKind kind).find? path with
  | some flat => some flat
  | none => if both then (names.ofKind kind.other).find? path else none

end NameTable

end GroupFlattening
