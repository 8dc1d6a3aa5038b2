import GroupFlattening.Resolution.Lateral

/-!
# Searching for a Name

A relative path is walked from the group of the referring variable. A bare name is searched for
upwards: the nearest group that defines it counts. Some rules stop at an apex, the nearest group
that has a dimension of the name, and search sideways from there; where the walk meets neither,
the nearest group that owns a dimension of the referring variable serves as the apex.
-/

namespace GroupFlattening.Hierarchy

/-! ## Relative paths -/

/-- The group that one segment of a relative path leads to. -/
def step? (h : Hierarchy) (id : Nat) (segment : List Char) : Option Nat :=
  if segment = [] ∨ segment = ['.'] then some id
  else if segment = ['.', '.'] then h.parent? id
  else h.child? id (String.ofList segment)

/-- The object that a relative path leads to from a group. -/
def relative (h : Hierarchy) (start : Nat) (kind : ObjectKind) (token : String) : Lookup :=
  match ObjectPath.cutAtLast (· == ObjectPath.separator) token.toList with
  | none => .missing
  | some (directories, last) =>
    match (directories.splitOn ObjectPath.separator).foldlM h.step? start with
    | none => .missing
    | some id =>
      if last ≠ [] ∧ h.defines id kind (String.ofList last) then
        .found (h.objectPath id (String.ofList last))
      else .missing

/-! ## Bare names -/

/-- A group and its ancestors, each with the one below it that the walk came from. The walk ends at
a root, and so at a group inside itself. -/
def ascent (h : Hierarchy) (start : Nat) : List (Nat × Option Nat) :=
  let line := h.groups.lineage start
  line.zip (none :: line.map some)

/-- What an upward walk finds at one group: the object itself, or what a search sideways finds
where the group is an apex. -/
def lookAt? (h : Hierarchy) (rule : ReferenceRule) (kind : ObjectKind) (name : String)
    (place : Nat × Option Nat) : Option Lookup :=
  if h.defines place.1 kind name then some (.found (h.objectPath place.1 name))
  else if rule.stopsAtApex ∧ h.defines place.1 .dim name then
    some (h.lateral place.1 place.2 kind name)
  else none

/-- The nearest group that owns a dimension of a variable. -/
def dimensionApex? (h : Hierarchy) (v : Variable) : Option (Nat × Option Nat) :=
  (h.ascent v.group).find? fun place =>
    v.dimensions.any fun path => (ObjectPath.split path).1 == (h.group place.1).path

/-- The object of a bare name that is nearest to a variable. -/
def proximity (h : Hierarchy) (rule : ReferenceRule) (v : Variable) (kind : ObjectKind)
    (name : String) : Lookup :=
  match (h.ascent v.group).findSome? (h.lookAt? rule kind name) with
  | some result => result
  -- the walk met neither the name nor an apex on its way to the root
  | none =>
    if rule.stopsAtApex then
      match h.dimensionApex? v with
      | some (apex, below) => h.lateral apex below kind name
      | none => .missing
    else .missing

/-- The object of one kind that a token, which is not an absolute path, designates. -/
def lookup (h : Hierarchy) (rule : ReferenceRule) (v : Variable) (kind : ObjectKind)
    (token : String) : Lookup :=
  if ObjectPath.isCompound token then h.relative v.group kind token
  else h.proximity rule v kind token

end GroupFlattening.Hierarchy
