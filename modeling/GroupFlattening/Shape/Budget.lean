import GroupFlattening.Shape.Index

/-!
# Slice Shapes from a Byte Budget

A budget of bytes allows a number of elements; the slice shape derived from it takes the same
length on every axis, the greatest one whose power does not exceed that number, cut to the axis.
The root is found bit by bit in exact arithmetic. Roots are numbers of 64 bits and exponents are
numbers of 32 bits, so a rank that does not fit 32 bits is cut off there.
-/

namespace GroupFlattening

/-- The greatest number of the form `root + b`, where `b` is below `2 ^ bits`, whose power does not
exceed `n`, provided `root` itself is not too large. -/
def rootBits (n exponent : Nat) : Nat → Nat → Nat
  | 0, root => root
  | bits + 1, root =>
    -- take the bit if the power still fits
    if Nat.pow (root + Nat.pow 2 bits) exponent ≤ n then
      rootBits n exponent bits (root + Nat.pow 2 bits)
    else rootBits n exponent bits root

/-- The greatest number of 64 bits whose power does not exceed `n`. -/
def integerRoot (n exponent : Nat) : Nat := rootBits n exponent 64 0

/-- The slice shape that spreads a budget of bytes evenly over the axes of `shape`. The exponent of
the root is the rank as 32 bits hold it. -/
def Shape.withinBudget (shape : Shape) (elementSize budget : Nat) : Shape :=
  let elements := max 1 (budget / max 1 elementSize)
  let side := max 1 (integerRoot elements (shape.length % 0x100000000))
  shape.map fun length => max 1 (min side length)

/-- The search ends with the greatest number it can reach whose power does not exceed `n`. -/
theorem rootBits_spec {n exponent : Nat} (bits root : Nat) (low : Nat.pow root exponent ≤ n) :
    Nat.pow (rootBits n exponent bits root) exponent ≤ n ∧
      rootBits n exponent bits root < root + Nat.pow 2 bits ∧
      ∀ r < root + Nat.pow 2 bits, Nat.pow r exponent ≤ n → r ≤ rootBits n exponent bits root := by
  induction bits generalizing root with
  | zero => exact ⟨low, Nat.lt_succ_self root, fun r hr _ => Nat.le_of_lt_succ hr⟩
  | succ bits ih =>
    -- the bit in question is half of what is still open
    have hdouble : Nat.pow 2 (bits + 1) = Nat.pow 2 bits + Nat.pow 2 bits := Nat.mul_two _
    rw [hdouble, ← Nat.add_assoc, rootBits]
    split
    · next h => exact ih _ h
    · next h =>
      obtain ⟨hpow, hlt, hgreatest⟩ := ih root low
      refine ⟨hpow, Nat.lt_add_right _ hlt, fun r _ hr => hgreatest r ?_ hr⟩
      -- with the bit set, the power is already too large
      refine Nat.lt_of_not_le fun hle => h ?_
      exact Nat.le_trans (Nat.pow_le_pow_left hle exponent) hr

/-- The root is a number of 64 bits whose power does not exceed `n`, and the greatest one. -/
theorem integerRoot_spec {n : Nat} (hn : 0 < n) (exponent : Nat) :
    Nat.pow (integerRoot n exponent) exponent ≤ n ∧ integerRoot n exponent < Nat.pow 2 64 ∧
      ∀ r < Nat.pow 2 64, Nat.pow r exponent ≤ n → r ≤ integerRoot n exponent := by
  have hzero : Nat.pow 0 exponent ≤ n :=
    calc Nat.pow 0 exponent ≤ Nat.pow 1 exponent := Nat.pow_le_pow_left (Nat.zero_le 1) exponent
      _ = 1 := Nat.one_pow exponent
      _ ≤ n := hn
  have hspec := rootBits_spec 64 0 hzero
  rwa [Nat.zero_add] at hspec

example : integerRoot 1000 3 = 10 ∧ integerRoot 999 3 = 9 := by decide

end GroupFlattening
