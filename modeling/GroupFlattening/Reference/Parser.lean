import GroupFlattening.Attribute
import GroupFlattening.Fault
import GroupFlattening.Reference.References
import GroupFlattening.Text.Word

/-!
# Reading References

An attribute value is cut at white space into tokens. It is a list if every token is an
identifier, and a mapping if the first token is a key, an identifier with a colon behind it, and
every other token is an identifier or a key. Anything else is not a list of references.
-/

namespace GroupFlattening

namespace References

/-- Whether `c` may occur in the name of a referenced object. -/
def isIdentifierChar (c : Char) : Bool :=
  Text.isWord c || ['#', '/', '.', '(', ')'].contains c

/-- Whether a token names an object. -/
def isIdentifier (token : List Char) : Bool := !token.isEmpty && token.all isIdentifierChar

/-- The identifier in front of the colon that ends a key. -/
def keyOf? (token : List Char) : Option (List Char) :=
  if token.getLast? = some ':' ∧ isIdentifier token.dropLast then some token.dropLast else none

/-- The words before the first key, and each key with the words up to the next one. -/
def sections : List (List Char) → List String × List (String × Option (List String))
  | [] => ([], [])
  | token :: rest =>
    let (words, entries) := sections rest
    match keyOf? token with
    | some key => ([], (String.ofList key, some words) :: entries)
    | none => (String.ofList token :: words, entries)

/-- Whether the tokens are those of a mapping. -/
def isMapping (tokens : List (List Char)) : Bool :=
  tokens.head?.any (fun token => (keyOf? token).isSome) &&
    tokens.all fun token => isIdentifier token || (keyOf? token).isSome

/-- The entries that the text of an attribute stands for. -/
def ofText? (value : String) : Option References :=
  let tokens := Text.tokens value.toList
  -- a value without tokens is an empty list
  if tokens.all isIdentifier then
    some (ofList (tokens.map fun token => (String.ofList token, none)))
  else if isMapping tokens then some (ofList (sections tokens).2)
  else none

/-- The entries of the given attribute, or the fault of a value of another form. -/
def ofAttribute (name value : String) : Except Fault References :=
  match ofText? value with
  | some references => .ok references
  | none => .error (.parse name value)

end References

/-- The text of an attribute that holds references: the text itself, or the texts of a list with a
space between them. -/
def AttributeValue.referenceText (name : String) : AttributeValue → Except Fault String
  | .text value => .ok value
  | .texts values => .ok (" ".intercalate values)
  | value => .error (.parse name value.describe)

end GroupFlattening
