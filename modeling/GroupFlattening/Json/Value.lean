import GroupFlattening.Json.Token

/-!
# JSON Values

A value is read from its tokens by a machine with a stack of the arrays and objects that are still
open: each token either opens one, closes the innermost one or completes a value. Writing gives
every item and every field a line of its own, two spaces deeper than the brackets around it.
-/

namespace GroupFlattening.Json

/-- A JSON value; numbers and texts are kept as they are written. -/
inductive Value where
  | null
  | boolean (value : Bool)
  | number (written : List Char)
  | text (units : List TextUnit)
  | array (items : List Value)
  | object (fields : List (List TextUnit × Value))
  deriving Repr

namespace Value

/-! ## Reading -/

/-- An array or object that is still open, with what it holds so far, the latest first. -/
inductive Frame where
  /-- An array. -/
  | items (before : List Value)
  /-- An object with the key whose value is being read. -/
  | fields (before : List (List TextUnit × Value)) (key : List TextUnit)

/-- What has to come next. -/
inductive Expectation where
  /-- A value. -/
  | value
  /-- The first item of an array, or its end. -/
  | firstItem
  /-- The first key of an object, or its end. -/
  | firstKey
  /-- A further key of an object. -/
  | key (before : List (List TextUnit × Value))
  /-- The colon behind a key. -/
  | colon (before : List (List TextUnit × Value)) (key : List TextUnit)
  /-- What may follow a complete value. -/
  | after (value : Value)

/-- Reads the tokens to their end, with the given arrays and objects open. -/
def readFrom : Expectation → List Frame → List Token → Option Value
  | .after v, [], [] => some v
  | .after v, .items before :: stack, .comma :: rest =>
    readFrom .value (.items (v :: before) :: stack) rest
  | .after v, .items before :: stack, .endArray :: rest =>
    readFrom (.after (.array (v :: before).reverse)) stack rest
  | .after v, .fields before key :: stack, .comma :: rest =>
    readFrom (.key ((key, v) :: before)) stack rest
  | .after v, .fields before key :: stack, .endObject :: rest =>
    readFrom (.after (.object ((key, v) :: before).reverse)) stack rest
  | .firstItem, stack, .endArray :: rest => readFrom (.after (.array [])) stack rest
  | .firstKey, stack, .endObject :: rest => readFrom (.after (.object [])) stack rest
  | .firstKey, stack, .text key :: rest => readFrom (.colon [] key) stack rest
  | .key before, stack, .text key :: rest => readFrom (.colon before key) stack rest
  | .colon before key, stack, .colon :: rest => readFrom .value (.fields before key :: stack) rest
  | expected, stack, token :: rest =>
    let opened := match expected with
      | .firstItem => some (.items [] :: stack)
      | .value => some stack
      | _ => none
    match opened, token with
    | some stack, .null => readFrom (.after .null) stack rest
    | some stack, .boolean b => readFrom (.after (.boolean b)) stack rest
    | some stack, .number n => readFrom (.after (.number n)) stack rest
    | some stack, .text t => readFrom (.after (.text t)) stack rest
    | some stack, .beginArray => readFrom .firstItem stack rest
    | some stack, .beginObject => readFrom .firstKey stack rest
    | _, _ => none
  | _, _, [] => none

/-- The value that a text stands for. -/
def ofChars? (chars : List Char) : Option Value :=
  (Token.ofChars? chars).bind (readFrom .value [])

/-! ## Writing -/

/-- A text between quotes. -/
def quoted (units : List TextUnit) : List Char :=
  '"' :: units.flatMap TextUnit.written ++ ['"']

/-- A new line, indented to the given depth. -/
def newLine (depth : Nat) : List Char := '\n' :: List.replicate (2 * depth) ' '

mutual

/-- How a value is written inside brackets of the given depth. -/
def writtenAt (depth : Nat) : Value → List Char
  | null => "null".toList
  | boolean b => if b then "true".toList else "false".toList
  | number written => written
  | text units => quoted units
  | array [] => ['[', ']']
  | array (item :: items) =>
    '[' :: newLine (depth + 1) ++ item.writtenAt (depth + 1) ++ itemsAt (depth + 1) items ++
      newLine depth ++ [']']
  | object [] => ['\x7b', '\x7d']
  | object ((key, value) :: fields) =>
    '\x7b' :: newLine (depth + 1) ++ quoted key ++ [':', ' '] ++ value.writtenAt (depth + 1) ++
      fieldsAt (depth + 1) fields ++ newLine depth ++ ['\x7d']

/-- The items of an array after the first. -/
def itemsAt (depth : Nat) : List Value → List Char
  | [] => []
  | item :: items => ',' :: newLine depth ++ item.writtenAt depth ++ itemsAt depth items

/-- The fields of an object after the first. -/
def fieldsAt (depth : Nat) : List (List TextUnit × Value) → List Char
  | [] => []
  | (key, value) :: fields =>
    ',' :: newLine depth ++ quoted key ++ [':', ' '] ++ value.writtenAt depth ++
      fieldsAt depth fields

end

/-- How a value is written. -/
def written (value : Value) : List Char := value.writtenAt 0

/-! ## Values of other types -/

/-- The value of a text. -/
def ofString (s : String) : Value := .text (s.toList.map TextUnit.ofChar)

/-- The value of a natural number. -/
def ofNat (n : Nat) : Value := .number (Nat.toDigits 10 n)

/-- The number of natural numbers that fit in sixty-four bits. -/
def natLimit : Nat := 0x10000000000000000

/-- The natural number of at most sixty-four bits that is written with digits alone. -/
def nat? : Value → Option Nat
  | number written =>
    let n := Nat.ofDigitChars 10 written 0
    if written.all Token.isDigit ∧ n < natLimit then some n else none
  | _ => none

/-- The truth value. -/
def bool? : Value → Option Bool
  | boolean b => some b
  | _ => none

end Value

/-- The text that a key stands for. -/
def key? (units : List TextUnit) : Option String := (TextUnit.decode units).map String.ofList

end GroupFlattening.Json
