import GroupFlattening.Decimal.Binary64

/-!
# Shortest Decimal Text of a Double

The decimal with the fewest digits that still reads back as the given double, and of those the
nearest to it; of two equally near the larger. The reals that round to a double form an interval
around it, ends included exactly when the mantissa is even. On the grid of multiples of a power
of ten only the two neighbours of the number can be nearest, so each grid is settled by two
comparisons of natural numbers, and the coarsest grid with a point in the interval wins.

Numbers from `10 ^ -4` up to but excluding `10 ^ 16` are written positionally with at least one
digit after the point, all others with an exponent.
-/

namespace GroupFlattening.Decimal

/-- A positive decimal: `coefficient · 10 ^ exponent`. -/
structure Scientific where
  /-- The digits, read as one natural number. -/
  coefficient : Nat
  /-- The power of ten of the last digit. -/
  exponent : Int
  deriving DecidableEq, Repr

/-- The power `base ^ exponent` as a numerator and a denominator. -/
def powerRatio (base : Nat) (exponent : Int) : Nat × Nat :=
  (Nat.pow base exponent.toNat, Nat.pow base (-exponent).toNat)

/-- The interval of reals that round to `mantissa · 2 ^ exponent`, in quarters of the unit
`2 ^ exponent`. Below a power of two the neighbour is only half as far away. -/
def quarterBounds (mantissa : Nat) (exponent : Int) : Nat × Nat :=
  let below := if mantissa = Binary64.leadingOne ∧ exponent ≠ Binary64.leastExponent then 1 else 2
  (4 * mantissa - below, 4 * mantissa + 2)

/-- The multiple of `10 ^ place` that rounds to `mantissa · 2 ^ exponent` and is nearest to it,
if there is one. -/
def onGrid (mantissa : Nat) (exponent place : Int) : Option Nat :=
  let two := powerRatio 2 (exponent - 2)
  let ten := powerRatio 10 place
  let scale := two.1 * ten.2
  let step := ten.1 * two.2
  let low := (quarterBounds mantissa exponent).1 * scale
  let high := (quarterBounds mantissa exponent).2 * scale
  let value := 4 * mantissa * scale
  let floor := value / step
  let closed := mantissa % 2 = 0
  -- the two neighbours of the number on the grid
  let floorFits := low < floor * step ∨ (closed ∧ low = floor * step)
  let ceilingFits := (floor + 1) * step < high ∨ (closed ∧ (floor + 1) * step = high)
  -- of two that fit the nearer, and the upper one half way between
  if floorFits ∧ (¬ ceilingFits ∨ 2 * (value % step) < step) then some floor
  else if ceilingFits then some (floor + 1)
  else none

/-- The power of ten above every double. -/
def greatestPlace : Nat := 309

/-- The number of powers of ten from `10 ^ 309` down to the least one a double needs. -/
def placeCount : Nat := 634

/-- The decimal on the coarsest grid that rounds to `mantissa · 2 ^ exponent`. -/
def shortest (mantissa : Nat) (exponent : Int) : Scientific :=
  let places := (List.range placeCount).map fun (k : Nat) => (greatestPlace : Int) - (k : Int)
  (places.findSome? fun place =>
    (onGrid mantissa exponent place).map fun c => Scientific.mk c place).getD ⟨0, 0⟩

/-- The exponents of the first digit that are written positionally, from and below. -/
def positionalRange : Int × Int := (-4, 16)

/-- A decimal with a point and no exponent. -/
def positional (digits : List Char) (place : Int) : List Char :=
  let zeros (n : Int) := List.replicate n.toNat '0'
  let point := digits.length + place
  if 0 ≤ place then digits ++ zeros place ++ ['.', '0']
  else if 0 < point then digits.take point.toNat ++ ['.'] ++ digits.drop point.toNat
  else ['0', '.'] ++ zeros (-point) ++ digits

/-- A decimal with one digit before the point and an exponent. -/
def exponential (digits : List Char) (place : Int) : List Char :=
  let rest := digits.drop 1
  let leading := (digits.length : Int) - 1 + place
  digits.take 1 ++ (if rest.isEmpty then [] else '.' :: rest) ++ ['e'] ++
    (toString leading).toList

/-- The text of a positive decimal. -/
def Scientific.text (x : Scientific) : List Char :=
  let digits := Nat.toDigits 10 x.coefficient
  let leading := (digits.length : Int) - 1 + x.exponent
  if positionalRange.1 ≤ leading ∧ leading < positionalRange.2 then positional digits x.exponent
  else exponential digits x.exponent

end GroupFlattening.Decimal

namespace GroupFlattening

/-- The shortest text that reads back as the number; NaN is written without a sign. -/
def Binary64.text (x : Binary64) : String :=
  let sign := if x.isNegative then ['-'] else []
  match x.magnitude with
  | .nan => "NaN"
  | .infinite => String.ofList (sign ++ "inf".toList)
  | .finite 0 _ => String.ofList (sign ++ "0.0".toList)
  | .finite m e => String.ofList (sign ++ (Decimal.shortest m e).text)

end GroupFlattening
