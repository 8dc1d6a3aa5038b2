import GroupFlattening.Decimal.Shortest
import GroupFlattening.Text.Quoted

/-!
# Attributes

Groups and variables carry named values: numbers, lists of numbers, texts and lists of texts.
The attributes of one object are listed in the order in which they were first set; setting one
again replaces its value and keeps its place.
-/

namespace GroupFlattening

/-- The value of an attribute. -/
inductive AttributeValue where
  /-- A double. -/
  | real (value : Binary64)
  /-- A list of doubles. -/
  | reals (values : List Binary64)
  /-- A signed integer. -/
  | integer (value : Int)
  /-- A list of signed integers. -/
  | integers (values : List Int)
  /-- An unsigned integer. -/
  | natural (value : Nat)
  /-- A text. -/
  | text (value : String)
  /-- A list of texts. -/
  | texts (values : List String)
  deriving DecidableEq, Repr, Inhabited

namespace AttributeValue

/-- The text, if the value is one. -/
def text? : AttributeValue → Option String
  | text value => some value
  | _ => none

/-- The texts, if the value is a list of them. -/
def texts? : AttributeValue → Option (List String)
  | texts values => some values
  | _ => none

/-- A value as messages show it: its kind, and its content between parentheses. -/
def describe : AttributeValue → String
  | real value => "F64(" ++ value.text ++ ")"
  | reals values => "F64Array(" ++ Text.bracketed (values.map Binary64.text) ++ ")"
  | integer value => "I64(" ++ toString value ++ ")"
  | integers values => "I64Array(" ++ Text.bracketed (values.map toString) ++ ")"
  | natural value => "U64(" ++ toString value ++ ")"
  | text value => "String(" ++ Text.quoted value ++ ")"
  | texts values => "StringArray(" ++ Text.bracketed (values.map Text.quoted) ++ ")"

end AttributeValue

/-- The attributes of one object, in the order in which they were first set. -/
abbrev Attributes := List (String × AttributeValue)

namespace Attributes

/-- The value of the first attribute called `name`. -/
def find? (attributes : Attributes) (name : String) : Option AttributeValue :=
  attributes.lookup name

/-- The attributes with `name` set to `value`, at its old place or at the end. -/
def set (name : String) (value : AttributeValue) : Attributes → Attributes
  | [] => [(name, value)]
  | (n, v) :: rest => if n = name then (n, value) :: rest else (n, v) :: set name value rest

end Attributes

end GroupFlattening
