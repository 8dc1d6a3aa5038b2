import GroupFlattening.Json.Text

/-!
# Tokens

A JSON text is a sequence of marks, words, numbers and quoted texts with white space between
them. Numbers are kept as they are written.
-/

namespace GroupFlattening.Json

/-- A lexical element of a JSON text. -/
inductive Token where
  | beginObject
  | endObject
  | beginArray
  | endArray
  | comma
  | colon
  | null
  | boolean (value : Bool)
  | number (written : List Char)
  | text (units : List TextUnit)
  deriving DecidableEq, Repr

namespace Token

/-- The characters that may stand between tokens. -/
def isSpace (c : Char) : Bool := c == ' ' || c == '\n' || c == '\t' || c == '\r'

/-- Whether `c` is a decimal digit. -/
def isDigit (c : Char) : Bool := decide ('0' ≤ c) && decide (c ≤ '9')

/-- Whether `c` may stand inside a number. -/
def isNumberChar (c : Char) : Bool := isDigit c || ['-', '+', '.', 'e', 'E'].contains c

/-- What follows at least one digit. -/
def afterDigits? : List Char → Option (List Char)
  | c :: rest => if isDigit c then some (rest.dropWhile isDigit) else none
  | [] => none

/-- Whether the characters are nothing, or an exponent. -/
def isExponent : List Char → Bool
  | [] => true
  | c :: rest =>
    let digits := match rest with
      | '+' :: rest => rest
      | '-' :: rest => rest
      | _ => rest
    (c == 'e' || c == 'E') && afterDigits? digits == some []

/-- Whether the characters are a fraction or nothing, and then an exponent or nothing. -/
def isFraction : List Char → Bool
  | '.' :: rest => (afterDigits? rest).any isExponent
  | rest => isExponent rest

/-- Whether the characters are a number: no superfluous zero in front, digits on both sides of a
point. -/
def isNumber (written : List Char) : Bool :=
  let unsigned := match written with
    | '-' :: rest => rest
    | _ => written
  match unsigned with
  | '0' :: rest => isFraction rest
  | rest => (afterDigits? rest).any isFraction

/-- The token that is a single mark. -/
def ofMark? : Char → Option Token
  | '\x7b' => some beginObject
  | '\x7d' => some endObject
  | '[' => some beginArray
  | ']' => some endArray
  | ',' => some comma
  | ':' => some colon
  | _ => none

/-- The token that is a word, and what follows it. -/
def ofWord? : List Char → Option (Token × List Char)
  | 'n' :: 'u' :: 'l' :: 'l' :: rest => some (null, rest)
  | 't' :: 'r' :: 'u' :: 'e' :: rest => some (boolean true, rest)
  | 'f' :: 'a' :: 'l' :: 's' :: 'e' :: rest => some (boolean false, rest)
  | _ => none

theorem length_lt_of_ofWord? {chars left : List Char} {token : Token}
    (h : ofWord? chars = some (token, left)) : left.length < chars.length := by
  unfold ofWord? at h
  split at h <;> simp at h
  all_goals obtain ⟨-, rfl⟩ := h; simp only [List.length_cons]; omega

/-- The first token of a text that does not begin with white space, and what follows it. -/
def next? : List Char → Option (Token × List Char)
  | [] => none
  | '"' :: rest => (TextUnit.read rest).map fun (units, left) => (text units, left)
  | c :: rest =>
    match ofMark? c with
    | some token => some (token, rest)
    | none =>
      if isNumberChar c then
        if isNumber (c :: rest.takeWhile isNumberChar) then
          some (number (c :: rest.takeWhile isNumberChar), rest.dropWhile isNumberChar)
        else none
      else ofWord? (c :: rest)

theorem length_lt_of_next? {chars left : List Char} {token : Token}
    (h : next? chars = some (token, left)) : left.length < chars.length := by
  unfold next? at h
  split at h
  · simp at h
  · next rest =>
    obtain ⟨⟨units, l⟩, hr, he⟩ := Option.map_eq_some_iff.mp h
    simp at he
    obtain ⟨-, rfl⟩ := he
    have := TextUnit.length_lt_of_read hr
    simp only [List.length_cons]
    omega
  · next c rest _ =>
    split at h
    · simp at h
      obtain ⟨-, rfl⟩ := h
      simp
    · split at h
      · split at h
        · simp at h
          obtain ⟨-, rfl⟩ := h
          have := (List.dropWhile_sublist isNumberChar (l := rest)).length_le
          simp only [List.length_cons]
          omega
        · simp at h
      · exact length_lt_of_ofWord? h

/-- The tokens of a text. -/
def ofChars? : List Char → Option (List Token)
  | [] => some []
  | c :: rest =>
    if isSpace c then ofChars? rest
    else
      match _h : next? (c :: rest) with
      | none => none
      | some (token, left) => (ofChars? left).map (token :: ·)
  termination_by chars => chars.length
  decreasing_by
    · simp
    · exact length_lt_of_next? _h

end Token

end GroupFlattening.Json
