import GroupFlattening.Text.Graphic

/-!
# Quoted Text

Text shown in messages between double quotes. A quote and a backslash are preceded by a
backslash, four control characters have an escape of their own, every other character that does
not show as itself is written as its code point in braces.
-/

namespace GroupFlattening.Text

/-- The hexadecimal digits of `n`, in lower case and without leading zeros. -/
def hexDigits (n : Nat) : List Char := Nat.toDigits 16 n

/-- How one character is written inside double quotes. -/
def quotedChar (c : Char) : List Char :=
  if c == '"' then ['\\', '"']
  else if c == '\\' then ['\\', '\\']
  else if c == '\n' then ['\\', 'n']
  else if c == '\r' then ['\\', 'r']
  else if c == '\t' then ['\\', 't']
  else if c == Char.ofNat 0 then ['\\', '0']
  else if isGraphic c then [c]
  else ['\\', 'u', '\x7b'] ++ hexDigits c.toNat ++ ['\x7d']

/-- The text between double quotes. -/
def quoted (text : String) : String :=
  String.ofList (['"'] ++ text.toList.flatMap quotedChar ++ ['"'])

/-- Items between square brackets, separated by a comma and a space. -/
def bracketed (items : List String) : String :=
  "[" ++ ", ".intercalate items ++ "]"

example : quoted "a\"b\n" = "\"a\\\"b\\n\"" := by decide +kernel
example : bracketed ["1", "2"] = "[1, 2]" := by decide +kernel

end GroupFlattening.Text
