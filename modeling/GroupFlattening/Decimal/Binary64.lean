/-!
# Double-Precision Numbers

A double is kept as its 64 bits, so that both zeros, every NaN and every subnormal number stay
apart. The magnitude of a pattern is NaN, infinite, or `mantissa · 2 ^ exponent` exactly.
-/

namespace GroupFlattening

/-- A double-precision number as its bit pattern. -/
structure Binary64 where
  /-- Sign bit, eleven exponent bits, fifty-two fraction bits. -/
  bits : UInt64
  deriving DecidableEq, Repr, Inhabited

namespace Binary64

/-- What a bit pattern stands for once its sign is set aside. -/
inductive Magnitude where
  /-- Not a number. -/
  | nan
  /-- Larger than every finite number. -/
  | infinite
  /-- The number `mantissa · 2 ^ exponent`. -/
  | finite (mantissa : Nat) (exponent : Int)
  deriving DecidableEq, Repr

/-- Whether the sign bit is set. -/
def isNegative (x : Binary64) : Bool := decide (0x8000000000000000 ≤ x.bits.toNat)

/-- The leading one of a normal number, two to the power of fifty-two. -/
def leadingOne : Nat := 0x10000000000000

/-- The eleven exponent bits. -/
def biasedExponent (x : Binary64) : Nat := x.bits.toNat / leadingOne % 0x800

/-- The fifty-two fraction bits. -/
def fraction (x : Binary64) : Nat := x.bits.toNat % leadingOne

/-- The exponent of subnormal numbers, which is the least one. -/
def leastExponent : Int := -1074

/-- The magnitude of a pattern: normal numbers have a leading one that is not stored. -/
def magnitude (x : Binary64) : Magnitude :=
  if x.biasedExponent = 2047 then
    if x.fraction = 0 then .infinite else .nan
  else if x.biasedExponent = 0 then .finite x.fraction leastExponent
  else .finite (leadingOne + x.fraction) (leastExponent + (x.biasedExponent - 1 : Nat))

example : (Binary64.mk 0x3FF8000000000000).magnitude = .finite 0x18000000000000 (-52) := by decide

end Binary64

end GroupFlattening
