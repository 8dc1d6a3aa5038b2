/-!
# Object Paths

Groups, dimensions and variables are addressed by texts such as `/g/c/lat`: the names from the
root down, each after a `/`. The root group is `/`, and an empty text stands for it too. Empty
names along a path are skipped when a path is followed.
-/

namespace GroupFlattening.ObjectPath

/-- The character in front of every name of a path. -/
def separator : Char := '/'

/-- The path of the root group. -/
def root : String := "/"

/-- Whether `path` stands for the root group. -/
def isRoot (path : String) : Bool := path == root || path == ""

/-- The path of the object `name` of `group`. -/
def join (group name : String) : String :=
  if isRoot group then "/" ++ name else group ++ "/" ++ name

/-- What stands before and after the last element that satisfies `cut`. -/
def cutAtLast {α : Type} (cut : α → Bool) : List α → Option (List α × List α)
  | [] => none
  | a :: rest =>
    match cutAtLast cut rest with
    | some (before, after) => some (a :: before, after)
    | none => if cut a then some ([], rest) else none

/-- The group part and the name of a path; a path without a separator belongs to the root. -/
def split (path : String) : String × String :=
  match cutAtLast (· == separator) path.toList with
  | none => (root, path)
  | some ([], name) => (root, String.ofList name)
  | some (group, name) => (String.ofList group, String.ofList name)

/-- The names along a path, empty ones left out. -/
def components (path : String) : List String :=
  ((path.toList.splitOn separator).filter fun name => !name.isEmpty).map String.ofList

/-- Whether a text is an absolute path. -/
def isAbsolute (path : String) : Bool := path.toList.head? == some separator

/-- Whether a text contains a separator. -/
def isCompound (path : String) : Bool := path.toList.contains separator

/-- Whether an object of this name can be reached by its path. -/
def IsName (name : String) : Prop := name ≠ "" ∧ separator ∉ name.toList

instance (name : String) : Decidable (IsName name) := inferInstanceAs (Decidable (_ ∧ _))

example : split "/g/c/lat" = ("/g/c", "lat") ∧ split "/lat" = ("/", "lat") := by decide +kernel
example : components "//g/c/" = ["g", "c"] ∧ components "/" = [] := by decide +kernel

end GroupFlattening.ObjectPath
