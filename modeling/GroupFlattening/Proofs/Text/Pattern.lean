import GroupFlattening.Proofs.Text.Tokens
import Mathlib.Data.List.TakeWhile

/-!
# Patterns

A pattern is a regular expression over classes of characters. `Matches p text rest` says that `p`
fits what stands in `text` in front of `rest`. A pattern can fit several beginnings of one text, so
this is a relation, and a text is accepted if one of the ways to read it succeeds (`IsMatch`).

A class that is repeated fits the runs of its characters (`matches_many_one_iff`). Cutting a text at
its first token (`tokens_eq_cons`) leads from the tokens of a text back to a way to read it.
-/

namespace GroupFlattening.Text

/-- A regular expression. -/
inductive Pattern where
  /-- One character of a class. -/
  | one (holds : Char → Bool)
  /-- The end of the text. -/
  | finish
  /-- One pattern behind another. -/
  | seq (first next : Pattern)
  /-- One of two patterns. -/
  | either (left right : Pattern)
  /-- A pattern any number of times, also not at all. -/
  | many (pattern : Pattern)

namespace Pattern

/-- The pattern fits the text up to `rest`. -/
inductive Matches : Pattern → List Char → List Char → Prop
  | one {holds c rest} (h : holds c = true) : Matches (.one holds) (c :: rest) rest
  | finish : Matches .finish [] []
  | seq {first next text middle rest} (hfirst : Matches first text middle)
      (hnext : Matches next middle rest) : Matches (.seq first next) text rest
  | left {left right text rest} (h : Matches left text rest) :
      Matches (.either left right) text rest
  | right {left right text rest} (h : Matches right text rest) :
      Matches (.either left right) text rest
  | done {pattern text} : Matches (.many pattern) text text
  | more {pattern text middle rest} (hfirst : Matches pattern text middle)
      (hrest : Matches (.many pattern) middle rest) : Matches (.many pattern) text rest

/-- The pattern fits the text from its start. -/
def IsMatch (pattern : Pattern) (text : List Char) : Prop := ∃ rest, Matches pattern text rest

/-- A pattern once or more often. -/
def plus (pattern : Pattern) : Pattern := .seq pattern (.many pattern)

/-! ## What each form fits -/

variable {p q : Pattern} {holds : Char → Bool} {text rest : List Char}

theorem matches_one_iff :
    Matches (.one holds) text rest ↔ ∃ c, holds c = true ∧ text = c :: rest := by
  constructor
  · intro h
    cases h with
    | one h => exact ⟨_, h, rfl⟩
  · rintro ⟨c, h, rfl⟩
    exact .one h

theorem matches_finish_iff : Matches .finish text rest ↔ text = [] ∧ rest = [] := by
  constructor
  · intro h
    cases h
    exact ⟨rfl, rfl⟩
  · rintro ⟨rfl, rfl⟩
    exact .finish

theorem matches_seq_iff :
    Matches (.seq p q) text rest ↔ ∃ middle, Matches p text middle ∧ Matches q middle rest := by
  constructor
  · intro h
    cases h with
    | seq hfirst hnext => exact ⟨_, hfirst, hnext⟩
  · rintro ⟨middle, hfirst, hnext⟩
    exact .seq hfirst hnext

theorem matches_either_iff :
    Matches (.either p q) text rest ↔ Matches p text rest ∨ Matches q text rest := by
  constructor
  · intro h
    cases h with
    | left h => exact Or.inl h
    | right h => exact Or.inr h
  · rintro (h | h)
    · exact .left h
    · exact .right h

/-- What holds at the end of a repetition and is carried over each of its rounds holds at its
start. -/
theorem Matches.many_induction {motive : List Char → Prop} (h : Matches (.many p) text rest)
    (done : motive rest)
    (more : ∀ {text middle}, Matches p text middle → motive middle → motive text) :
    motive text := by
  generalize hpattern : Pattern.many p = pattern at h
  induction h with
  | one | finish | seq | left | right => cases hpattern
  | done => exact done
  | more hfirst hrest _ ih =>
    cases hpattern
    exact more hfirst (ih done rfl)

/-- A class that is repeated fits the runs of its characters. -/
theorem matches_many_one_iff : Matches (.many (.one holds)) text rest ↔
    ∃ run, (∀ c ∈ run, holds c = true) ∧ text = run ++ rest := by
  constructor
  · intro h
    -- one more character in front of what the rest matches
    apply h.many_induction
    · exact ⟨[], by simp, rfl⟩
    · rintro text middle hone ⟨run, hrun, rfl⟩
      obtain ⟨c, hc, rfl⟩ := matches_one_iff.mp hone
      exact ⟨c :: run, List.forall_mem_cons.mpr ⟨hc, hrun⟩, rfl⟩
  · rintro ⟨run, hrun, rfl⟩
    induction run with
    | nil => exact .done
    | cons c run ih =>
      rw [List.forall_mem_cons] at hrun
      exact .more (.one hrun.1) (ih hrun.2)

theorem matches_plus_one_iff : Matches (plus (.one holds)) text rest ↔
    ∃ run, run ≠ [] ∧ (∀ c ∈ run, holds c = true) ∧ text = run ++ rest := by
  rw [plus, matches_seq_iff]
  constructor
  · rintro ⟨middle, hone, hmany⟩
    obtain ⟨c, hc, rfl⟩ := matches_one_iff.mp hone
    obtain ⟨run, hrun, rfl⟩ := matches_many_one_iff.mp hmany
    exact ⟨c :: run, by simp, List.forall_mem_cons.mpr ⟨hc, hrun⟩, rfl⟩
  · rintro ⟨run, hne, hrun, rfl⟩
    cases run with
    | nil => exact absurd rfl hne
    | cons c run =>
      rw [List.forall_mem_cons] at hrun
      exact ⟨run ++ rest, .one hrun.1, matches_many_one_iff.mpr ⟨run, hrun.2, rfl⟩⟩

end Pattern

/-! ## The first token of a text -/

/-- Whether a token that stands before the text ends there. -/
def Separates (text : List Char) : Prop := ∀ c ∈ text.head?, isBlank c = true

@[simp] theorem separates_nil : Separates [] := by simp [Separates]

theorem separates_append {run : List Char} (hne : run ≠ []) (hrun : ∀ c ∈ run, isBlank c = true)
    (text : List Char) : Separates (run ++ text) := by
  cases run with
  | nil => exact absurd rfl hne
  | cons c run => simpa [Separates] using hrun c List.mem_cons_self

/-- White space in front of a text is no part of a token. -/
theorem tokens_append_of_isBlank {run : List Char} (hrun : ∀ c ∈ run, isBlank c = true)
    (text : List Char) : tokens (run ++ text) = tokens text := by
  induction run with
  | nil => rfl
  | cons c run ih =>
    rw [List.forall_mem_cons] at hrun
    have hblank := tokens_append_blank hrun.1 [] (run ++ text)
    rw [tokens_nil, List.nil_append, List.nil_append] at hblank
    rw [List.cons_append, hblank, ih hrun.2]

/-- A run without white space that ends where the text after it begins is a token. -/
theorem tokens_append_of_separates {token text : List Char} (hne : token ≠ [])
    (htoken : ∀ c ∈ token, isBlank c = false) (htext : Separates text) :
    tokens (token ++ text) = token :: tokens text := by
  cases text with
  | nil => rw [List.append_nil, tokens_of_not_isBlank hne htoken, tokens_nil]
  | cons c text =>
    have hc : isBlank c = true := by simpa [Separates] using htext
    -- the blank that ends the token belongs to none
    have hskip : tokens ([c] ++ text) = tokens text :=
      tokens_append_of_isBlank (by simpa using hc) text
    rw [tokens_append_blank hc, tokens_of_not_isBlank hne htoken,
      show c :: text = [c] ++ text from rfl, hskip]
    rfl

/-- A text that does not begin with white space begins with a token. -/
theorem exists_token {c : Char} (hc : isBlank c = false) (text : List Char) :
    ∃ token rest, token ≠ [] ∧ (∀ d ∈ token, isBlank d = false) ∧ Separates rest ∧
      c :: text = token ++ rest := by
  refine ⟨(c :: text).takeWhile (!isBlank ·), (c :: text).dropWhile (!isBlank ·), ?_, ?_, ?_, ?_⟩
  · simp [hc]
  -- up to the first blank, and from there on
  · intro d hd
    simpa using List.mem_takeWhile_imp hd
  · intro d hd
    have hstop := List.head?_dropWhile_not (!isBlank ·) (c :: text)
    rw [Option.mem_def.mp hd] at hstop
    simpa using hstop
  · exact List.takeWhile_append_dropWhile.symm

/-- A text without tokens is white space. -/
theorem isBlank_of_tokens_eq_nil {text : List Char} (h : tokens text = []) :
    ∀ c ∈ text, isBlank c = true := by
  induction text with
  | nil => simp
  | cons c text ih =>
    -- a character that is not blank would begin a token
    cases hc : isBlank c with
    | true =>
      rw [← List.singleton_append, tokens_append_of_isBlank (by simpa using hc)] at h
      exact List.forall_mem_cons.mpr ⟨hc, ih h⟩
    | false =>
      obtain ⟨token, rest, hne, htoken, hrest, heq⟩ := exists_token hc text
      rw [heq, tokens_append_of_separates hne htoken hrest] at h
      cases h

/-- The first token of a text stands behind white space and ends before white space or the end. -/
theorem tokens_eq_cons {text token : List Char} {others : List (List Char)}
    (h : tokens text = token :: others) :
    ∃ run rest, (∀ c ∈ run, isBlank c = true) ∧ Separates rest ∧ tokens rest = others ∧
      text = run ++ (token ++ rest) := by
  induction text with
  | nil =>
    rw [tokens_nil] at h
    cases h
  | cons c text ih =>
    -- blanks in front of the first token, or the token itself
    cases hc : isBlank c with
    | true =>
      rw [← List.singleton_append, tokens_append_of_isBlank (by simpa using hc)] at h
      obtain ⟨run, rest, hrun, hrest, hothers, rfl⟩ := ih h
      exact ⟨c :: run, rest, List.forall_mem_cons.mpr ⟨hc, hrun⟩, hrest, hothers, rfl⟩
    | false =>
      obtain ⟨first, rest, hne, hfirst, hrest, heq⟩ := exists_token hc text
      rw [heq, tokens_append_of_separates hne hfirst hrest, List.cons.injEq] at h
      exact ⟨[], rest, by simp, hrest, h.2, by rw [heq, h.1, List.nil_append]⟩

end GroupFlattening.Text
