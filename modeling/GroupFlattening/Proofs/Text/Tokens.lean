import GroupFlattening.Text.Word

/-!
# Tokens of Joined Texts

A blank ends one token and begins the next (`tokens_append_blank`), so the tokens of texts that are
joined by blanks are those of the first, then those of the second, and so on
(`tokens_intercalate`). A text without blanks is a token of its own. The tokens hold everything but
the blanks (`flatten_tokens`).

Blanks and word characters are given as tables of code points. No code point is in both
(`isWord_eq_false_of_isBlank`), which is decided range by range.
-/

namespace GroupFlattening.Text

/-! ## Character classes -/

/-- Whether no range of one table has a code point in common with a range of the other. -/
def areDisjoint (ranges others : List (Nat × Nat)) : Bool :=
  ranges.all fun range => others.all fun other =>
    decide (range.2 < other.1) || decide (other.2 < range.1)

theorem inRanges_eq_false_of_areDisjoint {ranges others : List (Nat × Nat)} {c : Char}
    (h : areDisjoint ranges others = true) (hc : inRanges ranges c = true) :
    inRanges others c = false := by
  rw [Bool.eq_false_iff]
  intro hother
  obtain ⟨range, hrange, hlow⟩ := List.any_eq_true.mp hc
  obtain ⟨other, hmem, hhigh⟩ := List.any_eq_true.mp hother
  have hapart := List.all_eq_true.mp (List.all_eq_true.mp h range hrange) other hmem
  simp only [Bool.and_eq_true, Bool.or_eq_true, decide_eq_true_eq] at hlow hhigh hapart
  omega

theorem isWord_eq_false_of_isBlank {c : Char} (h : isBlank c = true) : isWord c = false :=
  inRanges_eq_false_of_areDisjoint (by decide +kernel) h

/-! ## Tokens -/

@[simp] theorem tokens_nil : tokens [] = [] := by
  rw [tokens, List.splitOnP_nil]
  rfl

/-- A blank stands between tokens and belongs to none. -/
theorem tokens_append_blank {c : Char} (hc : isBlank c = true) (before after : List Char) :
    tokens (before ++ c :: after) = tokens before ++ tokens after := by
  rw [tokens, List.splitOnP_append_cons _ _ hc, List.filter_append]
  rfl

/-- The tokens of a text hold its characters that are not blank, in order. -/
theorem flatten_tokens (text : List Char) :
    (tokens text).flatten = text.filter fun c => !isBlank c := by
  rw [tokens, List.flatten_filter_not_isEmpty]
  induction text with
  | nil => rfl
  | cons c rest ih =>
    rw [List.splitOnP_cons_eq_if_modifyHead]
    -- a blank starts a new piece and is dropped
    cases hblank : isBlank c with
    | true => simp [hblank, ih]
    | false =>
      -- the character is put in front of the first piece
      obtain ⟨piece, pieces, hpieces⟩ := List.exists_cons_of_ne_nil
        (List.splitOnP_ne_nil isBlank rest)
      rw [hpieces] at ih ⊢
      simp [hblank, ← ih]

/-- What holds of all characters of the tokens holds of all characters of the text but blanks. -/
theorem forall_mem_tokens_iff {text : List Char} {P : Char → Prop} :
    (∀ token ∈ tokens text, ∀ c ∈ token, P c) ↔ ∀ c ∈ text, P c ∨ isBlank c = true := by
  have hflatten := flatten_tokens text
  calc (∀ token ∈ tokens text, ∀ c ∈ token, P c) ↔ ∀ c ∈ (tokens text).flatten, P c := by
        simp only [List.mem_flatten, forall_exists_index, and_imp]
        exact ⟨fun h c token htoken hc => h token htoken c hc,
          fun h token htoken c hc => h c token htoken hc⟩
    _ ↔ ∀ c ∈ text, P c ∨ isBlank c = true := by
        rw [hflatten]
        refine forall_congr' fun c => ?_
        cases hblank : isBlank c <;> simp [hblank]

theorem ne_nil_of_mem_tokens {text token : List Char} (h : token ∈ tokens text) : token ≠ [] := by
  have hkept := (List.mem_filter.mp h).2
  simpa using hkept

/-- A text without blanks is one token. -/
theorem tokens_of_not_isBlank {text : List Char} (hne : text ≠ [])
    (h : ∀ c ∈ text, isBlank c = false) : tokens text = [text] := by
  rw [tokens, List.splitOnP_eq_singleton h]
  simp [hne]

/-- The tokens of texts with a blank between them are the tokens of the texts. -/
theorem tokens_intercalate {c : Char} (hc : isBlank c = true) (texts : List (List Char)) :
    tokens ([c].intercalate texts) = texts.flatMap tokens := by
  induction texts with
  | nil => exact tokens_nil
  | cons text rest ih =>
    cases rest with
    | nil => simp
    | cons next rest =>
      rw [List.intercalate_cons_cons, List.append_assoc, List.singleton_append,
        tokens_append_blank hc, ih]
      rfl

end GroupFlattening.Text
