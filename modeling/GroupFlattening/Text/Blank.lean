/-!
# Blank Characters

The characters with the Unicode property White_Space, as a table of code point ranges, and the
maximal runs of other characters in a text.
-/

namespace GroupFlattening.Text

/-- Whether the code point of `c` lies in one of the ranges, ends included. -/
def inRanges (ranges : List (Nat × Nat)) (c : Char) : Bool :=
  ranges.any fun range => decide (range.1 ≤ c.toNat) && decide (c.toNat ≤ range.2)

/-- The code points with the property White_Space. -/
def blankRanges : List (Nat × Nat) :=
  [(0x9, 0xD), (0x20, 0x20), (0x85, 0x85), (0xA0, 0xA0), (0x1680, 0x1680), (0x2000, 0x200A),
   (0x2028, 0x2029), (0x202F, 0x202F), (0x205F, 0x205F), (0x3000, 0x3000)]

/-- Whether `c` is white space. -/
def isBlank (c : Char) : Bool := inRanges blankRanges c

/-- The maximal runs of characters that are not white space, in order. -/
def tokens (text : List Char) : List (List Char) :=
  (text.splitOnP isBlank).filter fun piece => !piece.isEmpty

example : isBlank ' ' ∧ isBlank '\n' ∧ isBlank (Char.ofNat 0xA0) ∧
    ¬ isBlank (Char.ofNat 0x200B) := by
  decide

end GroupFlattening.Text
