/-!
# Quoted Texts

A text between double quotes holds characters and code units of sixteen bits written by number.
Two units that form a surrogate pair stand for one character; half a pair stands for none, and a
text that holds one can be passed over but not read.
-/

namespace GroupFlattening.Json

/-- An element of a quoted text. -/
inductive TextUnit where
  /-- A character, written as itself or by an escape of its own. -/
  | char (c : Char)
  /-- A code unit written as four hexadecimal digits. -/
  | unit (code : Nat)
  deriving DecidableEq, Repr

namespace TextUnit

/-- The characters with an escape of their own, and the letter of the escape. -/
def escapes : List (Char × Char) :=
  [('"', '"'), ('\\', '\\'), (Char.ofNat 8, 'b'), (Char.ofNat 12, 'f'), ('\n', 'n'), ('\r', 'r'),
   ('\t', 't')]

/-- The character that an escape letter stands for. -/
def escaped? (letter : Char) : Option Char :=
  if letter = '/' then some '/'
  else (escapes.find? fun entry => entry.2 == letter).map (·.1)

/-- The value of a hexadecimal digit, in either case. -/
def hexValue? (c : Char) : Option Nat :=
  if '0' ≤ c ∧ c ≤ '9' then some (c.toNat - 48)
  else if 'a' ≤ c ∧ c ≤ 'f' then some (c.toNat - 87)
  else if 'A' ≤ c ∧ c ≤ 'F' then some (c.toNat - 55)
  else none

/-- The number written as four hexadecimal digits. -/
def code? (a b c d : Char) : Option Nat := do
  let a ← hexValue? a
  let b ← hexValue? b
  let c ← hexValue? c
  let d ← hexValue? d
  pure (((a * 16 + b) * 16 + c) * 16 + d)

/-- The hexadecimal digit of a number below sixteen. -/
def hexDigit (n : Nat) : Char := Char.ofNat (if n < 10 then 48 + n else 87 + n)

/-- How an element is written between quotes. -/
def written : TextUnit → List Char
  | char c =>
    match escapes.lookup c with
    | some letter => ['\\', letter]
    | none => [c]
  | unit code =>
    ['\\', 'u', hexDigit (code / 4096 % 16), hexDigit (code / 256 % 16),
      hexDigit (code / 16 % 16), hexDigit (code % 16)]

/-- The element that a character is written as: control characters without an escape of their own
are written by number. -/
def ofChar (c : Char) : TextUnit :=
  if c.toNat < 32 ∧ escapes.lookup c = none then .unit c.toNat else .char c

/-- The characters that the elements stand for, unless half a surrogate pair is among them. -/
def decode : List TextUnit → Option (List Char)
  | [] => some []
  | char c :: rest => (decode rest).map (c :: ·)
  | unit high :: rest =>
    if 0xD800 ≤ high ∧ high < 0xDC00 then
      match rest with
      | unit low :: rest =>
        if 0xDC00 ≤ low ∧ low < 0xE000 then
          (decode rest).map
            (Char.ofNat (0x10000 + (high - 0xD800) * 0x400 + (low - 0xDC00)) :: ·)
        else none
      | _ => none
    else if 0xDC00 ≤ high ∧ high < 0xE000 then none
    else (decode rest).map (Char.ofNat high :: ·)

/-- The elements up to the closing quote, and what follows it. Control characters must be
escaped. -/
def read : List Char → Option (List TextUnit × List Char)
  | [] => none
  | '"' :: rest => some ([], rest)
  | '\\' :: 'u' :: a :: b :: c :: d :: rest => do
    let code ← code? a b c d
    let (units, left) ← read rest
    pure (.unit code :: units, left)
  | '\\' :: letter :: rest => do
    let c ← escaped? letter
    let (units, left) ← read rest
    pure (.char c :: units, left)
  | c :: rest =>
    if c.toNat < 32 then none
    else do
      let (units, left) ← read rest
      pure (.char c :: units, left)

/-- What follows a quoted text is shorter than the text with its closing quote. -/
theorem length_lt_of_read {chars left : List Char} {units : List TextUnit}
    (h : read chars = some (units, left)) : left.length < chars.length := by
  fun_induction read chars generalizing units left with
  | case1 => simp at h
  | case2 rest => simp at h; simp [h]
  | case3 a b c d rest ih =>
    simp only [Option.bind_eq_bind, Option.bind_eq_some_iff] at h
    obtain ⟨code, -, ⟨u, l⟩, hr, he⟩ := h
    simp at he
    have := ih hr
    simp only [List.length_cons]
    obtain ⟨-, rfl⟩ := he
    omega
  | case4 letter rest hne ih =>
    simp only [Option.bind_eq_bind, Option.bind_eq_some_iff] at h
    obtain ⟨c, -, ⟨u, l⟩, hr, he⟩ := h
    simp at he
    have := ih hr
    simp only [List.length_cons]
    obtain ⟨-, rfl⟩ := he
    omega
  | case5 => simp at h
  | case6 c rest h1 h2 h3 h4 ih =>
    simp only [Option.bind_eq_bind, Option.bind_eq_some_iff] at h
    obtain ⟨⟨u, l⟩, hr, he⟩ := h
    simp at he
    have := ih hr
    simp only [List.length_cons]
    obtain ⟨-, rfl⟩ := he
    omega

end TextUnit

end GroupFlattening.Json
