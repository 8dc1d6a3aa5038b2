/-!
# Element Types

The types of the elements of a variable: ten numeric ones, characters, and strings of any length.
-/

namespace GroupFlattening

/-- The type of the elements of a variable. -/
inductive ElementType where
  | byte
  | ubyte
  | short
  | ushort
  | int
  | uint
  | int64
  | uint64
  | float
  | double
  | string
  | char
  deriving DecidableEq, Repr, Inhabited

namespace ElementType

/-- The number of bytes of one element; a string counts as a reference of eight bytes. -/
def size : ElementType → Nat
  | byte | ubyte | char => 1
  | short | ushort => 2
  | int | uint | float => 4
  | int64 | uint64 | double | string => 8

/-- Whether the elements have no common length. -/
def isVariableLength (type : ElementType) : Bool := type == string

/-- The name of a type in messages. -/
def label : ElementType → String
  | byte => "NC_BYTE"
  | ubyte => "NC_UBYTE"
  | short => "NC_SHORT"
  | ushort => "NC_USHORT"
  | int => "NC_INT"
  | uint => "NC_UINT"
  | int64 => "NC_INT64"
  | uint64 => "NC_UINT64"
  | float => "NC_FLOAT"
  | double => "NC_DOUBLE"
  | string => "NC_STRING"
  | char => "NC_CHAR"

theorem size_pos (type : ElementType) : 0 < type.size := by
  cases type <;> decide

end ElementType

end GroupFlattening
