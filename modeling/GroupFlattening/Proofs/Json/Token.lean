import GroupFlattening.Json.Token
import GroupFlattening.Proofs.Json.Text
import Mathlib.Data.List.TakeWhile

/-!
# Tokens Read Back

White space is passed over, and any other beginning of a text is read as one token and what follows
it (`ofChars?_of_next?`). A mark, a word or a quoted text ends by itself; a number ends where no
character that may stand inside a number follows (`next?_number`), so what is written behind it
matters. A natural number is written as a number without a superfluous zero
(`isNumber_toDigits`).
-/

namespace GroupFlattening.Json.Token

variable {chars rest left : List Char} {token : Token} {c : Char}

/-! ## One token and the rest -/

theorem ofChars?_space (h : isSpace c = true) (rest : List Char) :
    ofChars? (c :: rest) = ofChars? rest := by
  rw [ofChars?, if_pos h]

/-- No token begins with white space. -/
theorem not_isSpace_of_next? (h : next? (c :: rest) = some (token, left)) : isSpace c = false := by
  rw [Bool.eq_false_iff]
  intro hspace
  simp only [isSpace, Bool.or_eq_true, beq_iff_eq] at hspace
  rcases hspace with ((rfl | rfl) | rfl) | rfl <;> cases h

/-- The tokens of a text are its first one and those of what follows it. -/
theorem ofChars?_of_next? (h : next? chars = some (token, left)) :
    ofChars? chars = (ofChars? left).map (token :: ·) := by
  cases chars with
  | nil => cases h
  | cons c rest =>
    rw [ofChars?, if_neg (by simp [not_isSpace_of_next? h])]
    split
    · next hnone => cases h.symm.trans hnone
    · next hsome =>
      cases h.symm.trans hsome
      rfl

/-! ## Marks and quoted texts -/

theorem next?_mark (h : ofMark? c = some token) (rest : List Char) :
    next? (c :: rest) = some (token, rest) := by
  rw [next?]
  · rw [h]
  · rintro rfl
    cases h

theorem next?_text {units : List TextUnit} (h : ∀ unit ∈ units, unit.IsWritable)
    (rest : List Char) :
    next? ('"' :: units.flatMap TextUnit.written ++ '"' :: rest) = some (text units, rest) := by
  rw [List.cons_append, next?, TextUnit.read_flatMap_written h, Option.map_some]

/-! ## Numbers -/

theorem isNumberChar_of_isDigit (h : isDigit c = true) : isNumberChar c = true := by
  rw [isNumberChar, h, Bool.true_or]

/-- Digits and what follows them may stand inside a number when this may. -/
theorem forall_isNumberChar_of_afterDigits? (h : afterDigits? chars = some rest)
    (hrest : ∀ c ∈ rest, isNumberChar c = true) : ∀ c ∈ chars, isNumberChar c = true := by
  cases chars with
  | nil => cases h
  | cons d chars =>
    rw [afterDigits?] at h
    split at h
    · next hd =>
      cases h
      -- the digits, and then what is left behind them
      rw [← List.takeWhile_append_dropWhile (p := isDigit) (l := chars), List.forall_mem_cons,
        List.forall_mem_append]
      exact ⟨isNumberChar_of_isDigit hd,
        fun c hc => isNumberChar_of_isDigit (List.mem_takeWhile_imp hc), hrest⟩
    · cases h

theorem forall_isNumberChar_of_isExponent (h : isExponent chars = true) :
    ∀ c ∈ chars, isNumberChar c = true := by
  cases chars with
  | nil => simp
  | cons e digits =>
    simp only [isExponent, Bool.and_eq_true, Bool.or_eq_true, beq_iff_eq] at h
    obtain ⟨hletter, hdigits⟩ := h
    refine List.forall_mem_cons.mpr ⟨by rcases hletter with rfl | rfl <;> rfl, ?_⟩
    -- the digits come at once or behind a sign
    split at hdigits
    · exact List.forall_mem_cons.mpr
        ⟨rfl, forall_isNumberChar_of_afterDigits? hdigits (by simp)⟩
    · exact List.forall_mem_cons.mpr
        ⟨rfl, forall_isNumberChar_of_afterDigits? hdigits (by simp)⟩
    · exact forall_isNumberChar_of_afterDigits? hdigits (by simp)

theorem forall_isNumberChar_of_isFraction (h : isFraction chars = true) :
    ∀ c ∈ chars, isNumberChar c = true := by
  rw [isFraction.eq_def] at h
  split at h
  · obtain ⟨left, hdigits, hexponent⟩ := (Option.any_eq_true ..).mp h
    exact List.forall_mem_cons.mpr ⟨rfl,
      forall_isNumberChar_of_afterDigits? hdigits (forall_isNumberChar_of_isExponent hexponent)⟩
  · exact forall_isNumberChar_of_isExponent h

/-- Every character of a number may stand inside a number. -/
theorem forall_isNumberChar_of_isNumber (h : isNumber chars = true) :
    ∀ c ∈ chars, isNumberChar c = true := by
  rw [isNumber.eq_def] at h
  dsimp only at h
  -- first what stands behind the sign, then the sign if there is one
  split at h
  · next rest hunsigned =>
    have hall : ∀ c ∈ '0' :: rest, isNumberChar c = true :=
      List.forall_mem_cons.mpr ⟨rfl, forall_isNumberChar_of_isFraction h⟩
    rw [← hunsigned] at hall
    split at hall
    · exact List.forall_mem_cons.mpr ⟨rfl, hall⟩
    · exact hall
  · obtain ⟨left, hdigits, hfraction⟩ := (Option.any_eq_true ..).mp h
    have hall := forall_isNumberChar_of_afterDigits? hdigits
      (forall_isNumberChar_of_isFraction hfraction)
    split at hall
    · exact List.forall_mem_cons.mpr ⟨rfl, hall⟩
    · exact hall

/-- Whether a number may stand in front of the text: nothing at its beginning would be taken for a
part of the number. -/
def EndsNumber (rest : List Char) : Prop := ∀ c ∈ rest.head?, isNumberChar c = false

theorem endsNumber_nil : EndsNumber [] := fun c hc => by cases hc

theorem endsNumber_cons (h : isNumberChar c = false) : EndsNumber (c :: rest) := fun d hd => by
  cases hd
  exact h

/-- A number in front of a text that ends it is read back. -/
theorem next?_number (h : isNumber chars = true) (hrest : EndsNumber rest) :
    next? (chars ++ rest) = some (number chars, rest) := by
  have hall := forall_isNumberChar_of_isNumber h
  cases chars with
  | nil => cases h
  | cons c digits =>
    obtain ⟨hc, hdigits⟩ := List.forall_mem_cons.mp hall
    -- a number begins with no mark
    have hmark : ofMark? c = none := by
      rw [ofMark?.eq_def]
      split <;> first | rfl | cases hc
    -- and it is not continued by what follows
    have hspan : rest.takeWhile isNumberChar = [] ∧ rest.dropWhile isNumberChar = rest := by
      cases rest with
      | nil => exact ⟨rfl, rfl⟩
      | cons d rest =>
        have hd : isNumberChar d = false := hrest d rfl
        simp only [List.takeWhile_cons, List.dropWhile_cons, hd, Bool.false_eq_true, if_false,
          and_self]
    rw [List.cons_append, next?]
    · rw [hmark, List.takeWhile_append_of_pos hdigits, List.dropWhile_append_of_pos hdigits,
        hspan.1, hspan.2, List.append_nil]
      simp only [hc, if_true, h]
    · rintro rfl
      cases hc

/-! ## Decimal numerals -/

/-- Only zero is written with a zero in front. -/
theorem head?_toDigits_ne {n : Nat} (h : n ≠ 0) : (Nat.toDigits 10 n).head? ≠ some '0' := by
  induction n using Nat.strongRecOn with
  | ind n ih =>
    rw [Nat.toDigits_eq_if (by decide)]
    split
    · next hlt =>
      have hdigit : ∀ d < 10, d ≠ 0 → [d.digitChar].head? ≠ some '0' := by decide
      exact hdigit n hlt h
    · next hge =>
      rw [List.head?_append, Option.or_of_isSome (by simp [Nat.toDigits_ne_nil])]
      exact ih (n / 10) (by omega) (by omega)

theorem forall_isDigit_toDigits (n : Nat) : ∀ c ∈ Nat.toDigits 10 n, isDigit c = true :=
  fun _ hc => Nat.isDigit_of_mem_toDigits (by decide) (by decide) hc

/-- Digits that do not begin with a zero are a number. -/
theorem isNumber_of_forall_isDigit (hfirst : c ≠ '0')
    (hdigits : ∀ d ∈ c :: rest, isDigit d = true) : isNumber (c :: rest) = true := by
  obtain ⟨hc, hrest⟩ := List.forall_mem_cons.mp hdigits
  have hminus : c ≠ '-' := by
    rintro rfl
    cases hc
  have hdrop : rest.dropWhile isDigit = [] := List.dropWhile_eq_nil_iff.mpr hrest
  -- no sign and no leading zero, so all is read as digits
  rw [isNumber, afterDigits?, if_pos hc, hdrop]
  · rfl
  · rintro left heq
    exact hminus (List.cons.inj heq).1
  · rintro left heq
    exact hfirst (List.cons.inj heq).1

/-- The digits of a natural number are a number. -/
theorem isNumber_toDigits (n : Nat) : isNumber (Nat.toDigits 10 n) = true := by
  by_cases h : n = 0
  · rw [h, Nat.toDigits_zero]
    rfl
  · have hfirst := head?_toDigits_ne h
    have hdigits := forall_isDigit_toDigits n
    cases hn : Nat.toDigits 10 n with
    | nil => exact absurd hn Nat.toDigits_ne_nil
    | cons c rest =>
      rw [hn] at hfirst hdigits
      exact isNumber_of_forall_isDigit (fun heq => hfirst (congrArg some heq)) hdigits

end GroupFlattening.Json.Token
