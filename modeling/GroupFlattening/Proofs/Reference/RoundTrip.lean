import GroupFlattening.Proofs.Text.Tokens
import GroupFlattening.Reference.Parser
import Mathlib.Data.List.Basic
import Mathlib.Data.List.Induction

/-!
# Reading What Was Written

A value of references is well-formed if it could have been read: its keys are distinct, its keys and
words are tokens, and either no entry has a list of words or every entry has one. Reading gives
well-formed values only (`wellFormed_of_ofText?`), and the text of a well-formed value is read as
that value (`ofText?_text`). So writing and reading are inverse to each other exactly on the
well-formed values (`ofText?_text_iff`).

Both directions go through the tokens: those of a text that was written are the tokens of its
entries one after the other (`tokens_text`), and a colon, which is in no identifier, tells the keys
of a mapping from its words and a mapping from a list.
-/

namespace GroupFlattening.References

/-! ## Well-formed values -/

/-- Whether a text can stand as a key or a word: it is not empty and consists of word characters and
of the characters that paths and comments are written with. -/
def IsToken (text : String) : Prop :=
  text ≠ "" ∧ ∀ c ∈ text.toList, Text.isWord c = true ∨ c ∈ ['#', '/', '.', '(', ')']

instance (text : String) : Decidable (IsToken text) := inferInstanceAs (Decidable (_ ∧ _))

/-- Whether an entry is a key on its own. -/
def IsBare (entry : String × Option (List String)) : Prop := entry.2 = none

/-- Whether the key and the words of an entry are tokens. -/
structure EntryWellFormed (entry : String × Option (List String)) : Prop where
  key : IsToken entry.1
  words : ∀ list, entry.2 = some list → ∀ word ∈ list, IsToken word

/-- A value that could have been read: a list of distinct keys, or a mapping that has an entry. -/
structure WellFormed (references : References) : Prop where
  nodup : (references.entries.map (·.1)).Nodup
  entries : ∀ entry ∈ references.entries, EntryWellFormed entry
  form : (∀ entry ∈ references.entries, IsBare entry) ∨
    references.entries ≠ [] ∧ ∀ entry ∈ references.entries, ¬ IsBare entry

/-! ## Identifiers -/

theorem isToken_ofList_iff {token : List Char} :
    IsToken (String.ofList token) ↔ isIdentifier token = true := by
  simp [IsToken, isIdentifier, isIdentifierChar]

theorem isIdentifier_toList {text : String} (h : IsToken text) :
    isIdentifier text.toList = true := by
  rwa [← isToken_ofList_iff, String.ofList_toList]

theorem isIdentifierChar_colon : isIdentifierChar ':' = false := by decide +kernel

theorem isBlank_eq_false_of_isIdentifierChar {c : Char} (h : isIdentifierChar c = true) :
    Text.isBlank c = false := by
  rw [Bool.eq_false_iff]
  intro hblank
  rw [isIdentifierChar, Text.isWord_eq_false_of_isBlank hblank, Bool.false_or] at h
  -- what is left are the characters listed one by one
  have hlisted : (['#', '/', '.', '(', ')'].all fun c => !Text.isBlank c) = true := by decide
  have hc := List.all_eq_true.mp hlisted c (by simpa using h)
  rw [hblank] at hc
  cases hc

theorem colon_not_mem {token : List Char} (h : isIdentifier token = true) : ':' ∉ token := by
  intro hmem
  simp only [isIdentifier, Bool.and_eq_true, List.all_eq_true] at h
  have hcolon := h.2 ':' hmem
  rw [isIdentifierChar_colon] at hcolon
  cases hcolon

/-- A word is no key. -/
theorem keyOf?_eq_none {token : List Char} (h : isIdentifier token = true) :
    keyOf? token = none := by
  rw [keyOf?, if_neg]
  rintro ⟨hlast, -⟩
  exact colon_not_mem h (List.mem_of_getLast? hlast)

theorem keyOf?_append_colon {token : List Char} (h : isIdentifier token = true) :
    keyOf? (token ++ [':']) = some token := by
  simp [keyOf?, h]

theorem isIdentifier_of_keyOf? {token key : List Char} (h : keyOf? token = some key) :
    isIdentifier key = true := by
  rw [keyOf?] at h
  split at h
  · next hkey => exact Option.some.inj h ▸ hkey.2
  · cases h

/-! ## Entries set one after the other -/

/-- A key that is new is set behind the others. -/
theorem setEntry_of_not_mem {key : String} {words : Option (List String)}
    {entries : List (String × Option (List String))} (h : key ∉ entries.map (·.1)) :
    setEntry key words entries = entries ++ [(key, words)] := by
  induction entries with
  | nil => rfl
  | cons entry rest ih =>
    rw [List.map_cons, List.mem_cons, not_or] at h
    rw [setEntry, if_neg (Ne.symm h.1), ih h.2]
    rfl

theorem mem_setEntry {key : String} {words : Option (List String)}
    {entries : List (String × Option (List String))} {entry : String × Option (List String)}
    (h : entry ∈ setEntry key words entries) : entry = (key, words) ∨ entry ∈ entries := by
  -- along the entries, up to the one with this key
  induction entries with
  | nil => exact Or.inl (List.mem_singleton.mp h)
  | cons first rest ih =>
    rw [setEntry] at h
    split at h
    · next heq =>
      rcases List.mem_cons.mp h with rfl | h
      · exact Or.inl (by rw [heq])
      · exact Or.inr (List.mem_cons_of_mem _ h)
    · rcases List.mem_cons.mp h with rfl | h
      · exact Or.inr List.mem_cons_self
      · exact (ih h).imp_right (List.mem_cons_of_mem _)

theorem nodup_setEntry {key : String} {words : Option (List String)}
    {entries : List (String × Option (List String))} (h : (entries.map (·.1)).Nodup) :
    ((setEntry key words entries).map (·.1)).Nodup := by
  induction entries with
  | nil => simp [setEntry]
  | cons entry rest ih =>
    rw [List.map_cons, List.nodup_cons] at h
    rw [setEntry]
    split
    -- the keys stay the same
    · exact List.nodup_cons.mpr h
    -- a key that is not here is not set here either
    · next hne =>
      rw [List.map_cons, List.nodup_cons]
      refine ⟨fun hmem => ?_, ih h.2⟩
      obtain ⟨other, hother, heq⟩ := List.mem_map.mp hmem
      rcases mem_setEntry hother with rfl | hother
      · exact hne heq.symm
      · exact h.1 (heq ▸ List.mem_map_of_mem hother)

theorem setEntry_ne_nil (key : String) (words : Option (List String))
    (entries : List (String × Option (List String))) : setEntry key words entries ≠ [] := by
  cases entries with
  | nil => simp [setEntry]
  | cons entry rest =>
    rw [setEntry]
    split <;> simp

theorem ofList_append_singleton (entries : List (String × Option (List String)))
    (entry : String × Option (List String)) :
    (ofList (entries ++ [entry])).entries = setEntry entry.1 entry.2 (ofList entries).entries := by
  rw [ofList, List.foldl_append]
  rfl

section OfList

variable {entries : List (String × Option (List String))}

/-- A value has only entries that were written. -/
theorem mem_of_mem_ofList {entry : String × Option (List String)}
    (h : entry ∈ (ofList entries).entries) : entry ∈ entries := by
  induction entries using List.reverseRecOn with
  | nil => cases h
  | append_singleton rest last ih =>
    rw [ofList_append_singleton] at h
    rcases mem_setEntry h with rfl | h
    · exact List.mem_append_right _ List.mem_cons_self
    · exact List.mem_append_left _ (ih h)

theorem nodup_ofList : ((ofList entries).entries.map (·.1)).Nodup := by
  induction entries using List.reverseRecOn with
  | nil => exact List.nodup_nil
  | append_singleton rest last ih =>
    rw [ofList_append_singleton]
    exact nodup_setEntry ih

theorem ofList_ne_nil (h : entries ≠ []) : (ofList entries).entries ≠ [] := by
  induction entries using List.reverseRecOn with
  | nil => exact absurd rfl h
  | append_singleton rest last _ =>
    rw [ofList_append_singleton]
    exact setEntry_ne_nil _ _ _

/-- Entries with distinct keys make a value with just these entries. -/
theorem ofList_of_nodup (h : (entries.map (·.1)).Nodup) : ofList entries = ⟨entries⟩ := by
  induction entries using List.reverseRecOn with
  | nil => rfl
  | append_singleton rest last ih =>
    rw [List.map_append, List.nodup_append] at h
    have hnew : last.1 ∉ rest.map (·.1) := fun hmem => h.2.2 _ hmem last.1 (by simp) rfl
    have hrest := ofList_append_singleton rest last
    rw [ih h.1, setEntry_of_not_mem hnew] at hrest
    exact congrArg References.mk hrest

end OfList

/-! ## What is read is well-formed -/

/-- The words and the entries of a mapping consist of tokens. -/
theorem sections_wellFormed {tokens : List (List Char)}
    (h : ∀ token ∈ tokens, (isIdentifier token || (keyOf? token).isSome) = true) :
    (∀ word ∈ (sections tokens).1, IsToken word) ∧
      ∀ entry ∈ (sections tokens).2, EntryWellFormed entry ∧ ¬ IsBare entry := by
  induction tokens with
  | nil => simp [sections]
  | cons token rest ih =>
    rw [List.forall_mem_cons] at h
    obtain ⟨hwords, hentries⟩ := ih h.2
    rw [sections]
    cases hkey : keyOf? token with
    | none =>
      -- another word of the entry before
      have hword : isIdentifier token = true := by simpa [hkey] using h.1
      exact ⟨List.forall_mem_cons.mpr ⟨isToken_ofList_iff.mpr hword, hwords⟩, hentries⟩
    | some key =>
      -- the words so far belong to this key
      refine ⟨by simp, List.forall_mem_cons.mpr ⟨⟨⟨?_, ?_⟩, by simp [IsBare]⟩, hentries⟩⟩
      · exact isToken_ofList_iff.mpr (isIdentifier_of_keyOf? hkey)
      · rintro list ⟨⟩
        exact hwords

/-- A mapping has an entry. -/
theorem sections_ne_nil {tokens : List (List Char)} (h : isMapping tokens = true) :
    (sections tokens).2 ≠ [] := by
  cases tokens with
  | nil => cases h
  | cons token rest =>
    have hkey : (keyOf? token).isSome = true := by
      simp only [isMapping, List.head?_cons, Option.any_some, Bool.and_eq_true] at h
      exact h.1
    obtain ⟨key, hkey⟩ := Option.isSome_iff_exists.mp hkey
    simp [sections, hkey]

/-- A value that was read is well-formed. -/
theorem wellFormed_of_ofText? {value : String} {references : References}
    (h : ofText? value = some references) : references.WellFormed := by
  simp only [ofText?] at h
  split at h
  · next hlist =>
    -- a list of keys
    obtain rfl := Option.some.inj h
    have hbare : ∀ entry ∈ (ofList ((Text.tokens value.toList).map fun token =>
        (String.ofList token, none))).entries, EntryWellFormed entry ∧ IsBare entry := by
      intro entry hentry
      obtain ⟨token, htoken, rfl⟩ := List.mem_map.mp (mem_of_mem_ofList hentry)
      exact ⟨⟨isToken_ofList_iff.mpr (List.all_eq_true.mp hlist token htoken), by simp⟩, rfl⟩
    exact ⟨nodup_ofList, fun entry hentry => (hbare entry hentry).1,
      Or.inl fun entry hentry => (hbare entry hentry).2⟩
  · split at h
    · next hmapping =>
      -- keys with their words
      obtain rfl := Option.some.inj h
      have hall : ∀ token ∈ Text.tokens value.toList,
          (isIdentifier token || (keyOf? token).isSome) = true := by
        simp only [isMapping, Bool.and_eq_true, List.all_eq_true] at hmapping
        exact hmapping.2
      have hentries := (sections_wellFormed hall).2
      exact ⟨nodup_ofList, fun entry hentry => (hentries entry (mem_of_mem_ofList hentry)).1,
        Or.inr ⟨ofList_ne_nil (sections_ne_nil hmapping),
          fun entry hentry => (hentries entry (mem_of_mem_ofList hentry)).2⟩⟩
    · cases h

/-! ## What is written is read -/

/-- The tokens with which an entry is written. -/
def entryTokens : String × Option (List String) → List (List Char)
  | (key, none) => [key.toList]
  | (key, some words) => (key.toList ++ [':']) :: words.map String.toList

theorem isBlank_eq_false_of_isToken {text : String} (h : IsToken text) :
    ∀ c ∈ text.toList, Text.isBlank c = false := by
  intro c hc
  have hall := isIdentifier_toList h
  simp only [isIdentifier, Bool.and_eq_true, List.all_eq_true] at hall
  exact isBlank_eq_false_of_isIdentifierChar (hall.2 c hc)

theorem tokens_of_isToken {text : String} (h : IsToken text) :
    Text.tokens text.toList = [text.toList] :=
  Text.tokens_of_not_isBlank (by simpa using h.1) (isBlank_eq_false_of_isToken h)

theorem tokens_key {key : String} (h : IsToken key) :
    Text.tokens (key.toList ++ [':']) = [key.toList ++ [':']] := by
  refine Text.tokens_of_not_isBlank (by simp) fun c hc => ?_
  rcases List.mem_append.mp hc with hc | hc
  · exact isBlank_eq_false_of_isToken h c hc
  · rw [List.mem_singleton.mp hc]
    decide

/-- What the text of an entry is cut into, whatever its key and its words are. -/
def entryPieces : String × Option (List String) → List (List Char)
  | (key, none) => Text.tokens key.toList
  | (key, some words) =>
    Text.tokens (key.toList ++ [':']) ++ words.flatMap fun word => Text.tokens word.toList

theorem tokens_entryText (entry : String × Option (List String)) :
    Text.tokens (entryText entry).toList = entryPieces entry := by
  obtain ⟨key, list⟩ := entry
  cases list with
  | none => rfl
  | some words =>
    cases words with
    | nil => simp [entryText, entryPieces]
    | cons word rest =>
      -- the colon ends the key, and a space stands before the words
      have htext : (entryText (key, some (word :: rest))).toList =
          (key.toList ++ [':']) ++ ' ' :: [' '].intercalate ((word :: rest).map String.toList) := by
        simp [entryText, String.toList_intercalate]
      rw [htext, Text.tokens_append_blank (by decide), Text.tokens_intercalate (by decide),
        List.flatMap_map]
      rfl

/-- The tokens of a value that was written are those of its entries. -/
theorem tokens_text (references : References) :
    Text.tokens references.text.toList = references.entries.flatMap entryPieces := by
  rw [text, String.toList_intercalate, show " ".toList = [' '] from rfl,
    Text.tokens_intercalate (by decide), List.map_map, List.flatMap_map]
  exact List.flatMap_congr fun entry _ => tokens_entryText entry

/-- An entry that consists of tokens is cut into these. -/
theorem entryPieces_eq {entry : String × Option (List String)} (h : EntryWellFormed entry) :
    entryPieces entry = entryTokens entry := by
  obtain ⟨key, list⟩ := entry
  cases list with
  | none => exact tokens_of_isToken h.key
  | some words =>
    have hwords : (words.flatMap fun word => Text.tokens word.toList) =
        words.map String.toList := by
      rw [← List.flatMap_singleton' (words.map _), List.flatMap_map]
      exact List.flatMap_congr fun word hword => tokens_of_isToken (h.words _ rfl word hword)
    rw [entryPieces, tokens_key h.key, hwords]
    rfl

/-- Words in front of the first key are set apart from the entries. -/
theorem sections_words {words : List String} (h : ∀ word ∈ words, IsToken word)
    (rest : List (List Char)) :
    sections (words.map String.toList ++ rest) =
      (words ++ (sections rest).1, (sections rest).2) := by
  induction words with
  | nil => rfl
  | cons word words ih =>
    rw [List.forall_mem_cons] at h
    rw [List.map_cons, List.cons_append, sections, ih h.2,
      keyOf?_eq_none (isIdentifier_toList h.1), String.ofList_toList]
    rfl

/-- The sections of a written mapping are its entries. -/
theorem sections_entryTokens {entries : List (String × Option (List String))}
    (h : ∀ entry ∈ entries, EntryWellFormed entry) (hform : ∀ entry ∈ entries, ¬ IsBare entry) :
    sections (entries.flatMap entryTokens) = ([], entries) := by
  induction entries with
  | nil => rfl
  | cons entry rest ih =>
    rw [List.forall_mem_cons] at h hform
    obtain ⟨key, list⟩ := entry
    cases list with
    -- no entry is bare
    | none => exact absurd rfl hform.1
    | some words =>
      rw [List.flatMap_cons, entryTokens, List.cons_append, sections,
        sections_words (h.1.words _ rfl), ih h.2 hform.2,
        keyOf?_append_colon (isIdentifier_toList h.1.key), List.append_nil]
      show ([], (String.ofList key.toList, some words) :: rest) = _
      rw [String.ofList_toList]

theorem isMapping_entryTokens {entries : List (String × Option (List String))}
    (hne : entries ≠ []) (h : ∀ entry ∈ entries, EntryWellFormed entry)
    (hform : ∀ entry ∈ entries, ¬ IsBare entry) :
    isMapping (entries.flatMap entryTokens) = true := by
  have hall : ∀ token ∈ entries.flatMap entryTokens,
      (isIdentifier token || (keyOf? token).isSome) = true := by
    intro token htoken
    obtain ⟨⟨key, list⟩, hentry, htoken⟩ := List.mem_flatMap.mp htoken
    cases list with
    | none => exact absurd rfl (hform _ hentry)
    | some words =>
      rcases List.mem_cons.mp htoken with rfl | htoken
      -- a key ends with a colon, and a word is an identifier
      · simp [keyOf?_append_colon (isIdentifier_toList (h _ hentry).key)]
      · obtain ⟨word, hword, rfl⟩ := List.mem_map.mp htoken
        simp [isIdentifier_toList ((h _ hentry).words _ rfl word hword)]
  rw [isMapping, Bool.and_eq_true, List.all_eq_true]
  refine ⟨?_, hall⟩
  cases entries with
  | nil => exact absurd rfl hne
  | cons entry rest =>
    obtain ⟨key, list⟩ := entry
    cases list with
    | none => exact absurd rfl (hform _ List.mem_cons_self)
    | some words =>
      simp [entryTokens, keyOf?_append_colon (isIdentifier_toList (h _ List.mem_cons_self).key)]

/-- Entries that consist of tokens, either all without words or all with words, are read from their
text and set one after the other. -/
theorem ofText?_text_eq {references : References}
    (h : ∀ entry ∈ references.entries, EntryWellFormed entry)
    (hform : (∀ entry ∈ references.entries, IsBare entry) ∨
      references.entries ≠ [] ∧ ∀ entry ∈ references.entries, ¬ IsBare entry) :
    ofText? references.text = some (ofList references.entries) := by
  have hread : Text.tokens references.text.toList = references.entries.flatMap entryTokens :=
    (tokens_text references).trans
      (List.flatMap_congr fun entry hentry => entryPieces_eq (h entry hentry))
  simp only [ofText?, hread]
  rcases hform with hform | ⟨hne, hform⟩
  · -- the tokens of a list are its keys
    have htokens : references.entries.flatMap entryTokens =
        references.entries.map fun entry => entry.1.toList := by
      rw [← List.flatMap_singleton' (references.entries.map _), List.flatMap_map]
      refine List.flatMap_congr fun entry hentry => ?_
      have hbare := hform entry hentry
      obtain ⟨key, list⟩ := entry
      obtain rfl : list = none := hbare
      rfl
    have hall : (references.entries.map fun entry => entry.1.toList).all isIdentifier = true := by
      simp only [List.all_map, List.all_eq_true]
      exact fun entry hentry => isIdentifier_toList (h entry hentry).key
    -- read as bare keys they are the entries again
    have hentries : (references.entries.map fun entry => entry.1.toList).map
        (fun token => (String.ofList token, (none : Option (List String)))) =
          references.entries := by
      rw [List.map_map]
      refine (List.map_congr_left fun entry hentry => ?_).trans (List.map_id _)
      exact Prod.ext String.ofList_toList (hform entry hentry).symm
    rw [htokens, if_pos hall, hentries]
  · have hnot : ¬ (references.entries.flatMap entryTokens).all isIdentifier = true := by
      -- the first token ends with a colon
      intro hall
      obtain ⟨⟨key, list⟩, hentry⟩ := List.exists_mem_of_ne_nil _ hne
      cases list with
      | none => exact hform _ hentry rfl
      | some words =>
        have hkey := List.all_eq_true.mp hall (key.toList ++ [':'])
          (List.mem_flatMap.mpr ⟨_, hentry, List.mem_cons_self⟩)
        exact colon_not_mem hkey (by simp)
    rw [if_neg hnot, if_pos (isMapping_entryTokens hne h hform),
      sections_entryTokens h hform]

/-- The text of a well-formed value is read as that value. -/
theorem ofText?_text {references : References} (h : references.WellFormed) :
    ofText? references.text = some references := by
  rw [ofText?_text_eq h.entries h.form, ofList_of_nodup h.nodup]

/-- Reading gives well-formed values only, and just these are read from their own text; so reading a
text, writing the value and reading again gives the value again. -/
theorem ofText?_text_iff :
    (∀ value references, ofText? value = some references → references.WellFormed) ∧
      (∀ references : References,
        ofText? references.text = some references ↔ references.WellFormed) ∧
      ∀ value references, ofText? value = some references →
        ofText? references.text = ofText? value := by
  refine ⟨fun _ _ => wellFormed_of_ofText?, fun references => ⟨wellFormed_of_ofText?, ofText?_text⟩,
    fun value references h => ?_⟩
  rw [h, ofText?_text (wellFormed_of_ofText? h)]

/-- A mapping in which a key without words is followed by another key and one key is written twice:
the second time counts, at the place of the first. -/
theorem methods_read_again :
    ∃ references, ofText? " lat: lon: mean\ttime: max lon: point (last) " = some references ∧
      references.WellFormed ∧ references.text = "lat: lon: point (last) time: max" ∧
      ofText? references.text = some references := by
  have hread : ofText? " lat: lon: mean\ttime: max lon: point (last) " =
      some ⟨[("lat", some []), ("lon", some ["point", "(last)"]), ("time", some ["max"])]⟩ := by
    decide +kernel
  have hform := ofText?_text_iff.1 _ _ hread
  exact ⟨_, hread, hform, by decide +kernel, (ofText?_text_iff.2.1 _).mpr hform⟩

end GroupFlattening.References
