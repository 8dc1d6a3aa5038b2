import GroupFlattening.Hierarchy.Basic

/-!
# Lateral Search

From an apex a name is searched for in the groups below, the branch that the search came from
left out. The search does not go below a group that defines the name, and of the groups found
only those nearest to the apex count: one of them is the answer, several are ambiguous.
-/

namespace GroupFlattening

/-- What a search finds. -/
inductive Lookup where
  /-- One object. -/
  | found (path : String)
  /-- Nothing. -/
  | missing
  /-- Several objects that are equally near. -/
  | ambiguous (paths : List String)
  deriving DecidableEq, Repr

/-- The outcome of several equally good answers. -/
def Lookup.ofNearest : List String → Lookup
  | [] => missing
  | [path] => found path
  | paths => ambiguous paths

namespace Hierarchy

/-- The path of the object of this name in a group. -/
def objectPath (h : Hierarchy) (id : Nat) (name : String) : String :=
  ObjectPath.join (h.group id).path name

/-- The groups below an apex that define a name and are not below another such group, each with
its depth, in the order of the tree. No group is below itself here. -/
def lateralMatches (h : Hierarchy) (apex : Nat) (excluded : Option Nat) (kind : ObjectKind)
    (name : String) : List (Nat × Nat) :=
  ((h.groups.children apex).filter fun child => some child != excluded).flatMap
    (h.groups.topmost (fun id => h.defines id kind name) 1)

/-- The groups of least depth. -/
def nearest (candidates : List (Nat × Nat)) : List Nat :=
  match (candidates.map (·.1)).min? with
  | none => []
  | some depth => (candidates.filter fun entry => entry.1 == depth).map (·.2)

/-- The objects of a name nearest below an apex, outside the excluded branch. -/
def lateral (h : Hierarchy) (apex : Nat) (excluded : Option Nat) (kind : ObjectKind)
    (name : String) : Lookup :=
  Lookup.ofNearest
    ((nearest (h.lateralMatches apex excluded kind name)).map fun id => h.objectPath id name)

end Hierarchy

end GroupFlattening
