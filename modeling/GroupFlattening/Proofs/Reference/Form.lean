import GroupFlattening.Proofs.ObjectPath
import GroupFlattening.Proofs.Reference.References
import GroupFlattening.Proofs.Reference.RoundTrip

/-!
# The Form of a Value

A text is read as a list of keys or as a mapping of keys to words. The text of any value, whatever
its keys and words consist of, is read in the form of the value just when each key and word can
stand where it stands (`formOf?_text_iff`); a blank cuts it in two, and anything else that is in no
token makes the text unreadable. Keys and words that are tokens can stand anywhere, and are read as
they are (`ofText?_text_eq`).

Replacing keys and words keeps the form of the value itself (`Rewritten.form_eq`), so all depends on
what is put in. A flat name is a token just when the path of the group consists of characters that
tokens have, or is replaced by its digest (`isToken_flatName_iff`).
-/

namespace GroupFlattening.References

variable {references : References}

/-! ## The form of a value -/

/-- The two forms that a value can have. -/
inductive Form where
  /-- Keys that stand alone. -/
  | list
  /-- Keys that are each followed by words. -/
  | mapping
  deriving DecidableEq, Repr

/-- The form of a value whose entries are all alike; one without entries is a list. -/
def form (references : References) : Form :=
  if references.entries.all fun entry => entry.2.isNone then .list else .mapping

/-- The form in which a text is read, if it is read at all. -/
def formOf? (value : String) : Option Form := (ofText? value).map form

/-- Whether no entry has a list of words or, if there are entries, every one has. -/
def IsUniform (references : References) : Prop :=
  (∀ entry ∈ references.entries, IsBare entry) ∨
    references.entries ≠ [] ∧ ∀ entry ∈ references.entries, ¬ IsBare entry

theorem form_eq_list (h : ∀ entry ∈ references.entries, IsBare entry) :
    references.form = .list := by
  rw [form, if_pos]
  exact List.all_eq_true.mpr fun entry hentry => Option.isNone_iff_eq_none.mpr (h entry hentry)

theorem form_eq_mapping (hne : references.entries ≠ [])
    (h : ∀ entry ∈ references.entries, ¬ IsBare entry) : references.form = .mapping := by
  rw [form, if_neg]
  intro hall
  obtain ⟨entry, hentry⟩ := List.exists_mem_of_ne_nil _ hne
  exact h entry hentry (Option.isNone_iff_eq_none.mp (List.all_eq_true.mp hall entry hentry))

/-- Setting entries one after the other keeps their form. -/
theorem form_ofList {entries : List (String × Option (List String))}
    (h : IsUniform ⟨entries⟩) : (ofList entries).form = form ⟨entries⟩ := by
  rcases h with hbare | ⟨hne, hnot⟩
  · rw [form_eq_list hbare, form_eq_list fun entry hentry => hbare entry (mem_of_mem_ofList hentry)]
  · rw [form_eq_mapping hne hnot, form_eq_mapping (ofList_ne_nil hne) fun entry hentry =>
      hnot entry (mem_of_mem_ofList hentry)]

/-! ## The form in which a text is read -/

theorem ofAttribute_eq_ok_iff {name value : String} :
    ofAttribute name value = .ok references ↔ ofText? value = some references := by
  rw [ofAttribute]
  cases ofText? value <;> simp

theorem formOf?_eq (value : String) : formOf? value =
    if (Text.tokens value.toList).all isIdentifier then some .list
    else if isMapping (Text.tokens value.toList) then some .mapping else none := by
  simp only [formOf?, ofText?]
  split
  · rw [Option.map_some, form_eq_list]
    intro entry hentry
    obtain ⟨token, -, rfl⟩ := List.mem_map.mp (mem_of_mem_ofList hentry)
    rfl
  -- a text that is not a list may be a mapping
  · split
    · next hmapping =>
      have hall := List.all_eq_true.mp (Bool.and_eq_true_iff.mp hmapping).2
      have hnot := (sections_wellFormed hall).2
      rw [Option.map_some, form_eq_mapping (ofList_ne_nil (sections_ne_nil hmapping))]
      exact fun entry hentry => (hnot entry (mem_of_mem_ofList hentry)).2
    · rfl

theorem formOf?_eq_list_iff {value : String} : formOf? value = some .list ↔
    ∀ token ∈ Text.tokens value.toList, isIdentifier token = true := by
  rw [formOf?_eq, ← List.all_eq_true]
  split
  · next h => simp [h]
  · next h => split <;> simp [h]

theorem formOf?_eq_mapping_iff {value : String} :
    formOf? value = some .mapping ↔ isMapping (Text.tokens value.toList) = true := by
  rw [formOf?_eq]
  split
  · next h =>
    -- the first token is no key
    have hnot : isMapping (Text.tokens value.toList) = false := by
      cases htokens : Text.tokens value.toList with
      | nil => rfl
      | cons token rest =>
        have hword := List.all_eq_true.mp h token (by simp [htokens])
        simp [isMapping, keyOf?_eq_none hword]
    simp [hnot]
  · next h => simp

/-- The tokens of a text are identifiers just when its characters are those of identifiers or
blanks. -/
theorem forall_isIdentifier_tokens_iff {text : List Char} :
    (∀ token ∈ Text.tokens text, isIdentifier token = true) ↔
      ∀ c ∈ text, isIdentifierChar c = true ∨ Text.isBlank c = true := by
  rw [← Text.forall_mem_tokens_iff]
  refine forall₂_congr fun token htoken => ?_
  simp [isIdentifier, Text.ne_nil_of_mem_tokens htoken]

/-! ## The text of a value -/

/-- Whether each key and word can stand where it stands. In a list all characters of the keys are
those of identifiers or blanks; in a mapping the keys and words are cut into identifiers and keys,
and a key comes first. -/
def IsLegible (references : References) : Prop :=
  match references.form with
  | .list => ∀ entry ∈ references.entries, ∀ c ∈ entry.1.toList,
      isIdentifierChar c = true ∨ Text.isBlank c = true
  | .mapping =>
    (∀ entry ∈ references.entries, ∀ token ∈ entryPieces entry,
        (isIdentifier token || (keyOf? token).isSome) = true) ∧
      ∀ entry ∈ references.entries.head?, (entryPieces entry).head?.any fun token =>
        (keyOf? token).isSome

/-- The text of an entry with words has a token, if only a colon. -/
theorem entryPieces_ne_nil {entry : String × Option (List String)} (h : ¬ IsBare entry) :
    entryPieces entry ≠ [] := by
  obtain ⟨key, list⟩ := entry
  cases list with
  | none => exact absurd rfl h
  | some words =>
    intro hnil
    have hkey : Text.tokens (key.toList ++ [':']) = [] := (List.append_eq_nil_iff.mp hnil).1
    have hflatten := Text.flatten_tokens (key.toList ++ [':'])
    rw [hkey, List.filter_append] at hflatten
    simp [show Text.isBlank ':' = false from by decide] at hflatten

/-- The text of a value is read in the form of the value just when each key and word can stand where
it stands. -/
theorem formOf?_text_iff (h : references.IsUniform) :
    formOf? references.text = some references.form ↔ references.IsLegible := by
  -- a list of bare words, or a mapping with a list for every key
  rcases h with hbare | ⟨hne, hnot⟩
  · rw [IsLegible, form_eq_list hbare, formOf?_eq_list_iff, tokens_text]
    simp only [List.mem_flatMap, forall_exists_index, and_imp]
    constructor
    · intro hall entry hentry
      refine forall_isIdentifier_tokens_iff.mp fun token htoken => hall token entry hentry ?_
      obtain ⟨key, list⟩ := entry
      obtain rfl : list = none := hbare _ hentry
      exact htoken
    · intro hall token entry hentry htoken
      refine forall_isIdentifier_tokens_iff.mpr (hall entry hentry) token ?_
      obtain ⟨key, list⟩ := entry
      obtain rfl : list = none := hbare _ hentry
      exact htoken
  · rw [IsLegible, form_eq_mapping hne hnot, formOf?_eq_mapping_iff, tokens_text, isMapping,
      Bool.and_eq_true, List.all_eq_true, and_comm]
    refine and_congr ?_ ?_
    · simp only [List.mem_flatMap, forall_exists_index, and_imp]
      exact ⟨fun hall entry hentry token htoken => hall token entry hentry htoken,
        fun hall token entry hentry htoken => hall entry hentry token htoken⟩
    · -- the first token is one of the first entry
      cases hentries : references.entries with
      | nil => exact absurd hentries hne
      | cons entry rest =>
        obtain ⟨token, pieces, hpieces⟩ := List.exists_cons_of_ne_nil
          (entryPieces_ne_nil (hnot entry (by simp [hentries])))
        simp [hpieces]

/-- What is governed in a value of tokens is a token. -/
theorem isToken_of_governed {keys words : Bool} {token : String}
    (h : ∀ entry ∈ references.entries, EntryWellFormed entry)
    (htoken : token ∈ references.governed keys words) : IsToken token := by
  obtain ⟨entry, hentry, htoken⟩ := List.mem_flatMap.mp htoken
  obtain ⟨hkey, hwords⟩ := h entry hentry
  -- the key of the entry, or a word of its list
  rcases List.mem_append.mp htoken with htoken | htoken
  · split at htoken
    · exact List.mem_singleton.mp htoken ▸ hkey
    · cases htoken
  · split at htoken
    · cases hlist : entry.2 with
      | none => simp [hlist] at htoken
      | some list => exact hwords list hlist token (by simpa [hlist] using htoken)
    · cases htoken

/-- Tokens are read in the form of the value that they make up. -/
theorem formOf?_text_of_entryWellFormed (hform : references.IsUniform)
    (h : ∀ entry ∈ references.entries, EntryWellFormed entry) :
    formOf? references.text = some references.form := by
  rw [formOf?, ofText?_text_eq h hform, Option.map_some, form_ofList hform]

/-! ## Replaced keys and words -/

section Rewritten

variable {keys words : Bool} {R : String → String → Prop} {references' : References}
  (hR : Rewritten keys words R references references')

theorem EntryRewritten.isBare_iff {entry entry' : String × Option (List String)}
    (h : EntryRewritten keys words R entry entry') : IsBare entry ↔ IsBare entry' := by
  obtain ⟨key, list⟩ := entry
  obtain ⟨key', list'⟩ := entry'
  cases h.list <;> simp [IsBare]

include hR

theorem Rewritten.isUniform (h : references.IsUniform) : references'.IsUniform := by
  refine h.imp (fun hbare entry' hentry' => ?_) (fun ⟨hne, hnot⟩ => ⟨?_, fun entry' hentry' => ?_⟩)
  · obtain ⟨entry, hentry, hrewritten⟩ := Forall₂.exists_left hR hentry'
    exact hrewritten.isBare_iff.mp (hbare entry hentry)
  · rintro hnil
    rw [Rewritten, hnil, List.forall₂_nil_right_iff] at hR
    exact hne hR
  · obtain ⟨entry, hentry, hrewritten⟩ := Forall₂.exists_left hR hentry'
    exact fun hbare => hnot entry hentry (hrewritten.isBare_iff.mpr hbare)

/-- A value keeps its form when keys and words are replaced. -/
theorem Rewritten.form_eq : references'.form = references.form := by
  have hnone := Forall₂.map_eq hR (f := fun entry => entry.2.isNone)
    (g := fun entry => entry.2.isNone) fun entry entry' hentry => by
      rw [Bool.eq_iff_iff, Option.isNone_iff_eq_none, Option.isNone_iff_eq_none]
      exact hentry.isBare_iff
  have hall := congrArg (List.all · id) hnone
  simp only [List.all_map] at hall
  exact (congrArg (fun bare : Bool => if bare then Form.list else .mapping) hall).symm

/-- Entries that consist of tokens do so still if only tokens are put in. -/
theorem Rewritten.entryWellFormed (htoken : ∀ token text, R token text → IsToken text)
    (h : ∀ entry ∈ references.entries, EntryWellFormed entry) :
    ∀ entry ∈ references'.entries, EntryWellFormed entry := by
  intro entry' hentry'
  obtain ⟨entry, hentry, hkey, hlist⟩ := Forall₂.exists_left hR hentry'
  obtain ⟨hkeyToken, hwordTokens⟩ := h entry hentry
  obtain ⟨key, list⟩ := entry
  obtain ⟨key', list'⟩ := entry'
  refine ⟨?_, ?_⟩
  · cases keys with
    -- a key that is not governed stays as it is
    | false => exact (hkey : key = key') ▸ hkeyToken
    | true => exact htoken _ _ hkey
  · rintro list' rfl word' hword'
    cases hlist with
    | @some list _ hlist =>
      -- and so do the words, if they are not governed
      cases words with
      | false => exact hwordTokens list rfl word' ((hlist : list = list') ▸ hword')
      | true =>
        obtain ⟨word, -, hword⟩ := Forall₂.exists_left hlist hword'
        exact htoken _ _ hword

end Rewritten

/-! ## What is put in -/

theorem isToken_iff {text : String} :
    IsToken text ↔ text ≠ "" ∧ ∀ c ∈ text.toList, isIdentifierChar c = true := by
  simp [IsToken, isIdentifierChar]

section FlatName

open FlatName

/-- The flat name of an object whose name is a token is a token itself, unless the path of its group
has a character that no token has and stands in it. -/
theorem isToken_flatName_iff {place base : String} (hbase : IsToken base) :
    IsToken (flatName place base) ↔ ObjectPath.isRoot place = true ∨
      lengthLimit ≤ (joined place base).length ∨
      ∀ c ∈ place.toList, isIdentifierChar c = true := by
  obtain ⟨hne, hchars⟩ := isToken_iff.mp hbase
  have hjoiner : joiner.toList.all isIdentifierChar = true := by decide +kernel
  have hdigit : ∀ n < 16, isIdentifierChar (Digest.hexDigit n) = true := by decide +kernel
  rw [isToken_iff, and_iff_right (flatName_ne_empty hne),
    forall_mem_flatName_iff (List.all_eq_true.mp hjoiner) hdigit hchars]
  refine or_congr_right (or_congr_right (forall₂_congr fun c _ => ⟨fun h => ?_, fun h _ => h⟩))
  -- a separator is a character of tokens
  by_cases hc : c = ObjectPath.separator
  · rw [hc]
    decide +kernel
  · exact h hc

end FlatName

end GroupFlattening.References
