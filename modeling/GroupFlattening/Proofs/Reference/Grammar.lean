import GroupFlattening.Proofs.Reference.Occurrences
import GroupFlattening.Proofs.Text.Pattern

/-!
# The Grammar of References

The two forms of an attribute that holds references are given by two patterns over the whole text,
and the value of a mapping by a loop over the tokens that carries the key whose words are being
read. The patterns accept just the texts whose tokens are those of a list
(`isMatch_listPattern_iff`) or of a mapping (`isMatch_mappingPattern_iff`), and the loop gives the
sections of a mapping (`readMapping_eq`). So reading by patterns is reading by tokens (`parse?_eq`).

What is read is then said without either of them (`ofText?_eq_some_iff`): the keys of the value are
those of the text in the order in which they first occur, and the words of a key are those behind
its last occurrence.
-/

namespace GroupFlattening.References

open Text (Pattern Separates tokens)
open Text.Pattern

/-! ## The two patterns -/

/-- White space, also none. -/
def blanks : Pattern := .many (.one Text.isBlank)

/-- White space between two tokens. -/
def gap : Pattern := .plus (.one Text.isBlank)

/-- The characters of a word, or those of a key without its colon. -/
def word : Pattern := .plus (.one isIdentifierChar)

/-- What a token ends with. -/
def ending : Pattern := .either gap .finish

/-- The words of a list, each with its end. -/
def listItems : Pattern := .many (.seq word ending)

/-- The words behind a key, each with the white space in front of it. -/
def laterWords : Pattern := .many (.seq gap word)

/-- A key with its colon and its words, and the end of the last of them. -/
def keyWithWords : Pattern := .seq word (.seq (.one (· == ':')) (.seq laterWords ending))

/-- The texts that are lists. -/
def listPattern : Pattern := .seq blanks (.seq listItems .finish)

/-- The texts that are mappings. -/
def mappingPattern : Pattern := .seq blanks (.seq (.plus keyWithWords) .finish)

variable {text rest : List Char}

theorem matches_gap_iff : Matches gap text rest ↔
    ∃ run, run ≠ [] ∧ (∀ c ∈ run, Text.isBlank c = true) ∧ text = run ++ rest :=
  matches_plus_one_iff

theorem matches_word_iff : Matches word text rest ↔
    ∃ token, isIdentifier token = true ∧ text = token ++ rest := by
  rw [word, matches_plus_one_iff]
  simp [isIdentifier, and_assoc]

/-! ## From a match to the tokens -/

theorem isBlank_eq_false_of_isIdentifier {token : List Char} (h : isIdentifier token = true) :
    ∀ c ∈ token, Text.isBlank c = false := by
  intro c hc
  simp only [isIdentifier, Bool.and_eq_true, List.all_eq_true] at h
  exact isBlank_eq_false_of_isIdentifierChar (h.2 c hc)

theorem ne_nil_of_isIdentifier {token : List Char} (h : isIdentifier token = true) :
    token ≠ [] := by
  rintro rfl
  cases h

/-- A word that ends where the text after it begins is a token. -/
theorem tokens_word {token : List Char} (h : isIdentifier token = true) (hrest : Separates rest) :
    tokens (token ++ rest) = token :: tokens rest :=
  Text.tokens_append_of_separates (ne_nil_of_isIdentifier h) (isBlank_eq_false_of_isIdentifier h)
    hrest

/-- A key with its colon that ends where the text after it begins is a token. -/
theorem tokens_key_append {key : List Char} (h : isIdentifier key = true)
    (hrest : Separates rest) :
    tokens (key ++ [':'] ++ rest) = (key ++ [':']) :: tokens rest := by
  apply Text.tokens_append_of_separates (by simp) _ hrest
  intro c hc
  rcases List.mem_append.mp hc with hc | hc
  · exact isBlank_eq_false_of_isIdentifier h c hc
  · rw [List.mem_singleton.mp hc]
    decide

theorem tokens_of_blanks (h : Matches blanks text rest) : tokens text = tokens rest := by
  obtain ⟨run, hrun, rfl⟩ := matches_many_one_iff.mp h
  exact Text.tokens_append_of_isBlank hrun rest

theorem separates_of_ending (h : Matches ending text rest) :
    Separates text ∧ tokens text = tokens rest := by
  rcases matches_either_iff.mp h with hgap | hfinish
  · obtain ⟨run, hne, hrun, rfl⟩ := matches_gap_iff.mp hgap
    exact ⟨Text.separates_append hne hrun rest, Text.tokens_append_of_isBlank hrun rest⟩
  · obtain ⟨rfl, rfl⟩ := matches_finish_iff.mp hfinish
    exact ⟨Text.separates_nil, rfl⟩

/-- The items of a list are words. -/
theorem tokens_of_listItems (h : Matches listItems text rest) :
    ∃ words, (∀ token ∈ words, isIdentifier token = true) ∧ tokens text = words ++ tokens rest := by
  apply h.many_induction
  · exact ⟨[], by simp, rfl⟩
  · intro text middle hitem ⟨words, hwords, htokens⟩
    obtain ⟨behind, hword, hending⟩ := matches_seq_iff.mp hitem
    obtain ⟨token, htoken, rfl⟩ := matches_word_iff.mp hword
    obtain ⟨hseparates, hbehind⟩ := separates_of_ending hending
    refine ⟨token :: words, List.forall_mem_cons.mpr ⟨htoken, hwords⟩, ?_⟩
    rw [tokens_word htoken hseparates, hbehind, htokens, List.cons_append]

/-- What stands behind a key are words if the text after them separates, and then the key ends in
front of them. -/
theorem tokens_of_laterWords (h : Matches laterWords text rest) (hrest : Separates rest) :
    Separates text ∧ ∃ words, (∀ token ∈ words, isIdentifier token = true) ∧
      tokens text = words ++ tokens rest := by
  apply h.many_induction
  · exact ⟨hrest, [], by simp, rfl⟩
  -- one more word in front: a gap ends it, so it is a token of its own
  · intro text middle hitem ⟨hseparates, words, hwords, htokens⟩
    obtain ⟨behind, hgap, hword⟩ := matches_seq_iff.mp hitem
    obtain ⟨run, hne, hrun, rfl⟩ := matches_gap_iff.mp hgap
    obtain ⟨token, htoken, rfl⟩ := matches_word_iff.mp hword
    refine ⟨Text.separates_append hne hrun _, token :: words,
      List.forall_mem_cons.mpr ⟨htoken, hwords⟩, ?_⟩
    rw [Text.tokens_append_of_isBlank hrun, tokens_word htoken hseparates, htokens,
      List.cons_append]

/-- A key with its words is a key token and then word tokens. -/
theorem tokens_of_keyWithWords (h : Matches keyWithWords text rest) :
    ∃ key words, isIdentifier key = true ∧ (∀ token ∈ words, isIdentifier token = true) ∧
      tokens text = (key ++ [':']) :: (words ++ tokens rest) := by
  obtain ⟨atColon, hword, hbehindKey⟩ := matches_seq_iff.mp h
  obtain ⟨key, hkey, rfl⟩ := matches_word_iff.mp hword
  obtain ⟨atWords, hcolon, hbehindColon⟩ := matches_seq_iff.mp hbehindKey
  obtain ⟨c, hc, rfl⟩ := matches_one_iff.mp hcolon
  obtain ⟨atEnd, hwords, hending⟩ := matches_seq_iff.mp hbehindColon
  obtain ⟨hend, hrest⟩ := separates_of_ending hending
  obtain ⟨hseparates, words, hall, htokens⟩ := tokens_of_laterWords hwords hend
  refine ⟨key, words, hkey, hall, ?_⟩
  -- the colon belongs to the token of the key
  have hsplit : key ++ c :: atWords = key ++ [':'] ++ atWords := by simp [eq_of_beq hc]
  rw [hsplit, tokens_key_append hkey hseparates, htokens, hrest]

/-- Whether a token is a word or a key. -/
def isWordOrKey (token : List Char) : Bool := isIdentifier token || (keyOf? token).isSome

theorem isWordOrKey_of_isIdentifier {token : List Char} (h : isIdentifier token = true) :
    isWordOrKey token = true := by
  simp [isWordOrKey, h]

theorem isWordOrKey_append_colon {key : List Char} (h : isIdentifier key = true) :
    isWordOrKey (key ++ [':']) = true := by
  simp [isWordOrKey, keyOf?_append_colon h]

theorem isWordOrKey_of_keyWithWords (h : Matches keyWithWords text rest)
    (hrest : ∀ token ∈ tokens rest, isWordOrKey token = true) :
    ∀ token ∈ tokens text, isWordOrKey token = true := by
  obtain ⟨key, words, hkey, hwords, htokens⟩ := tokens_of_keyWithWords h
  rw [htokens, List.forall_mem_cons, List.forall_mem_append]
  exact ⟨isWordOrKey_append_colon hkey, fun token htoken =>
    isWordOrKey_of_isIdentifier (hwords token htoken), hrest⟩

/-! ## From the tokens to a match -/

theorem ending_of_isBlank (h : ∀ c ∈ text, Text.isBlank c = true) : Matches ending text [] := by
  cases text with
  | nil => exact .right .finish
  | cons c text => exact .left (matches_gap_iff.mpr ⟨c :: text, by simp, h, by simp⟩)

/-- Between a place where a token ends and the next token there is white space. -/
theorem exists_gap {token : List Char} {others : List (List Char)} (hsep : Separates text)
    (h : tokens text = token :: others) (htoken : ∀ c ∈ token.head?, Text.isBlank c = false)
    (hne : token ≠ []) :
    ∃ rest, Matches gap text (token ++ rest) ∧ Separates rest ∧ tokens rest = others := by
  obtain ⟨run, rest, hrun, hrest, hothers, rfl⟩ := Text.tokens_eq_cons h
  refine ⟨rest, matches_gap_iff.mpr ⟨run, ?_, hrun, rfl⟩, hrest, hothers⟩
  rintro rfl
  -- the token would begin with white space
  obtain ⟨c, hc⟩ := Option.ne_none_iff_exists'.mp (mt List.head?_eq_none_iff.mp hne)
  have hblank := hsep c (by simp [hc])
  rw [htoken c hc] at hblank
  cases hblank

theorem exists_gap_word {token : List Char} {others : List (List Char)} (hsep : Separates text)
    (h : tokens text = token :: others) (htoken : isIdentifier token = true) :
    ∃ rest, Matches gap text (token ++ rest) ∧ Separates rest ∧ tokens rest = others :=
  exists_gap hsep h (fun c hc => isBlank_eq_false_of_isIdentifier htoken c
    (List.mem_of_mem_head? hc)) (ne_nil_of_isIdentifier htoken)

theorem exists_gap_key {key : List Char} {others : List (List Char)} (hsep : Separates text)
    (h : tokens text = (key ++ [':']) :: others) (hkey : isIdentifier key = true) :
    ∃ rest, Matches gap text (key ++ ':' :: rest) ∧ Separates rest ∧ tokens rest = others := by
  have hhead : ∀ c ∈ (key ++ [':']).head?, Text.isBlank c = false := by
    intro c hc
    rw [List.head?_append_of_ne_nil _ (ne_nil_of_isIdentifier hkey)] at hc
    exact isBlank_eq_false_of_isIdentifier hkey c (List.mem_of_mem_head? hc)
  obtain ⟨rest, hgap, hrest, hothers⟩ := exists_gap hsep h hhead (by simp)
  exact ⟨rest, by simpa using hgap, hrest, hothers⟩

/-- The rest of a list, from the end of one of its words on. -/
theorem matches_listItems {words : List (List Char)} (hsep : Separates text)
    (h : tokens text = words) (hwords : ∀ token ∈ words, isIdentifier token = true) :
    Matches (.seq ending listItems) text [] := by
  -- along the words: each one is followed by a gap or by the end
  induction words generalizing text with
  | nil => exact .seq (ending_of_isBlank (Text.isBlank_of_tokens_eq_nil h)) .done
  | cons token words ih =>
    rw [List.forall_mem_cons] at hwords
    obtain ⟨rest, hgap, hrest, hothers⟩ := exists_gap_word hsep h hwords.1
    obtain ⟨behind, hending, hitems⟩ := matches_seq_iff.mp (ih hrest hothers hwords.2)
    have hitem : Matches (.seq word ending) (token ++ rest) behind :=
      .seq (matches_word_iff.mpr ⟨token, hwords.1, rfl⟩) hending
    exact .seq (.left hgap) (.more hitem hitems)

/-- The rest of a mapping, from the end of one of its keys or words on. -/
theorem matches_keysWithWords {others : List (List Char)} (hsep : Separates text)
    (h : tokens text = others) (hothers : ∀ token ∈ others, isWordOrKey token = true) :
    Matches (.seq laterWords (.seq ending (.many keyWithWords))) text [] := by
  -- along the tokens: each one is a word of the key before, or a new key
  induction others generalizing text with
  | nil => exact .seq .done (.seq (ending_of_isBlank (Text.isBlank_of_tokens_eq_nil h)) .done)
  | cons token others ih =>
    rw [List.forall_mem_cons] at hothers
    cases hkey : keyOf? token with
    | none =>
      -- one more word of the key before
      have htoken : isIdentifier token = true := by simpa [isWordOrKey, hkey] using hothers.1
      obtain ⟨rest, hgap, hrest, heq⟩ := exists_gap_word hsep h htoken
      obtain ⟨behind, hwords, hmany⟩ := matches_seq_iff.mp (ih hrest heq hothers.2)
      have hitem : Matches (.seq gap word) text rest :=
        .seq hgap (matches_word_iff.mpr ⟨token, htoken, rfl⟩)
      exact .seq (.more hitem hwords) hmany
    | some key =>
      -- the words of the key before end here
      have hidentifier := isIdentifier_of_keyOf? hkey
      rw [eq_append_colon_of_keyOf? hkey] at h
      obtain ⟨rest, hgap, hrest, heq⟩ := exists_gap_key hsep h hidentifier
      obtain ⟨atEnd, hwords, hmany⟩ := matches_seq_iff.mp (ih hrest heq hothers.2)
      obtain ⟨behind, hending, hmany⟩ := matches_seq_iff.mp hmany
      have hitem : Matches keyWithWords (key ++ ':' :: rest) behind :=
        .seq (matches_word_iff.mpr ⟨key, hidentifier, rfl⟩)
          (.seq (.one rfl) (.seq hwords hending))
      exact .seq .done (.seq (.left hgap) (.more hitem hmany))

/-! ## What the patterns accept -/

/-- A text is accepted as a list if every token is a word. -/
theorem isMatch_listPattern_iff :
    listPattern.IsMatch text ↔ (tokens text).all isIdentifier = true := by
  rw [List.all_eq_true]
  constructor
  · rintro ⟨rest, h⟩
    obtain ⟨start, hblanks, h⟩ := matches_seq_iff.mp h
    obtain ⟨behind, hitems, hfinish⟩ := matches_seq_iff.mp h
    obtain ⟨rfl, rfl⟩ := matches_finish_iff.mp hfinish
    obtain ⟨words, hwords, htokens⟩ := tokens_of_listItems hitems
    rwa [tokens_of_blanks hblanks, htokens, Text.tokens_nil, List.append_nil]
  · intro h
    refine ⟨[], ?_⟩
    cases htokens : tokens text with
    -- only white space, which is a list of no words
    | nil =>
      have hblank := Text.isBlank_of_tokens_eq_nil htokens
      exact .seq (matches_many_one_iff.mpr ⟨text, hblank, by simp⟩) (.seq .done .finish)
    | cons token others =>
      rw [htokens, List.forall_mem_cons] at h
      obtain ⟨run, rest, hrun, hrest, hothers, rfl⟩ := Text.tokens_eq_cons htokens
      obtain ⟨behind, hending, hitems⟩ := matches_seq_iff.mp (matches_listItems hrest hothers h.2)
      have hitem : Matches (.seq word ending) (token ++ rest) behind :=
        .seq (matches_word_iff.mpr ⟨token, h.1, rfl⟩) hending
      exact .seq (matches_many_one_iff.mpr ⟨run, hrun, rfl⟩)
        (.seq (.more hitem hitems) .finish)

/-- A text is accepted as a mapping if the first token is a key and every other one is a word or a
key. -/
theorem isMatch_mappingPattern_iff :
    mappingPattern.IsMatch text ↔ isMapping (tokens text) = true := by
  rw [isMapping, Bool.and_eq_true, List.all_eq_true]
  constructor
  · rintro ⟨rest, h⟩
    obtain ⟨start, hblanks, h⟩ := matches_seq_iff.mp h
    obtain ⟨behind, hplus, hfinish⟩ := matches_seq_iff.mp h
    obtain ⟨rfl, rfl⟩ := matches_finish_iff.mp hfinish
    obtain ⟨second, hfirst, hmany⟩ := matches_seq_iff.mp hplus
    -- every token behind the first key is a word or a key
    have hlater : ∀ token ∈ tokens second, isWordOrKey token = true := by
      apply hmany.many_induction
      · simp
      · intro text middle hitem hmiddle
        exact isWordOrKey_of_keyWithWords hitem hmiddle
    rw [tokens_of_blanks hblanks]
    refine ⟨?_, isWordOrKey_of_keyWithWords hfirst hlater⟩
    obtain ⟨key, words, hkey, -, htokens⟩ := tokens_of_keyWithWords hfirst
    simp [htokens, keyOf?_append_colon hkey]
  · rintro ⟨hhead, hall⟩
    cases htokens : tokens text with
    | nil =>
      rw [htokens] at hhead
      cases hhead
    | cons token others =>
      -- the first token is a key, and the others follow it
      rw [htokens, List.head?_cons, Option.any_some] at hhead
      rw [htokens, List.forall_mem_cons] at hall
      obtain ⟨key, hkey⟩ := Option.isSome_iff_exists.mp hhead
      obtain ⟨run, rest, hrun, hrest, hothers, rfl⟩ := Text.tokens_eq_cons htokens
      obtain ⟨atEnd, hwords, hmany⟩ :=
        matches_seq_iff.mp (matches_keysWithWords hrest hothers hall.2)
      obtain ⟨behind, hending, hmany⟩ := matches_seq_iff.mp hmany
      have hitem : Matches keyWithWords (token ++ rest) behind := by
        rw [eq_append_colon_of_keyOf? hkey, List.append_assoc, List.singleton_append]
        exact .seq (matches_word_iff.mpr ⟨key, isIdentifier_of_keyOf? hkey, rfl⟩)
          (.seq (.one rfl) (.seq hwords hending))
      exact ⟨[], .seq (matches_many_one_iff.mpr ⟨run, hrun, rfl⟩)
        (.seq (.seq hitem hmany) .finish)⟩

instance : Decidable (listPattern.IsMatch text) :=
  decidable_of_iff _ isMatch_listPattern_iff.symm

instance : Decidable (mappingPattern.IsMatch text) :=
  decidable_of_iff _ isMatch_mappingPattern_iff.symm

/-! ## The loop over the tokens -/

/-- The part of a token in front of the colon it ends with. -/
def stripColon? (token : List Char) : Option (List Char) :=
  if token.getLast? = some ':' then some token.dropLast else none

/-- A mapping that has been read in part. -/
structure Reading where
  /-- The entries that are complete. -/
  references : References
  /-- The key that was read last, with its words so far. -/
  pending : Option (String × List String)

namespace Reading

/-- The entries with the pending one. -/
def close (reading : Reading) : References :=
  match reading.pending with
  | some (key, words) => reading.references.insert key (some words)
  | none => reading.references

/-- The pending entry once `words` have been added to it. -/
def pendingEntry (reading : Reading) (words : List String) :
    List (String × Option (List String)) :=
  match reading.pending with
  | some (key, earlier) => [(key, some (earlier ++ words))]
  | none => []

/-- One token more: a key, or a word of the pending key. -/
def step (reading : Reading) (token : List Char) : Reading :=
  match stripColon? token with
  | some key => ⟨reading.close, some (String.ofList key, [])⟩
  | none =>
    { reading with
      pending := reading.pending.map fun (key, words) => (key, words ++ [String.ofList token]) }

end Reading

/-- The value of a mapping with these tokens. -/
def readMapping (tokens : List (List Char)) : References :=
  (tokens.foldl Reading.step ⟨empty, none⟩).close

/-- The entries that the text of an attribute stands for, by the patterns and the loop. -/
def parse? (value : String) : Option References :=
  if listPattern.IsMatch value.toList then
    some ((tokens value.toList).foldl
      (fun references token => references.insert (String.ofList token) none) empty)
  else if mappingPattern.IsMatch value.toList then some (readMapping (tokens value.toList))
  else none

/-- A token of a mapping ends with a colon only if it is a key. -/
theorem stripColon?_eq_keyOf? {token : List Char} (h : isWordOrKey token = true) :
    stripColon? token = keyOf? token := by
  cases hkey : keyOf? token with
  | none =>
    have htoken : isIdentifier token = true := by simpa [isWordOrKey, hkey] using h
    rw [stripColon?, if_neg]
    exact fun hlast => colon_not_mem htoken (List.mem_of_getLast? hlast)
  | some key =>
    rw [eq_append_colon_of_keyOf? hkey]
    simp [stripColon?]

/-- From any state on, the loop adds the words up to the next key to the pending entry and inserts
it, and then the entries behind it. -/
theorem close_foldl_step {tokens : List (List Char)}
    (h : ∀ token ∈ tokens, isWordOrKey token = true) (reading : Reading) :
    (tokens.foldl Reading.step reading).close =
      (reading.pendingEntry (sections tokens).1 ++ (sections tokens).2).foldl
        (fun references entry => references.insert entry.1 entry.2) reading.references := by
  induction tokens generalizing reading with
  | nil =>
    -- at the end the entry that is open is inserted, if there is one
    obtain ⟨references, _ | ⟨key, words⟩⟩ := reading
    · rfl
    · simp [Reading.close, Reading.pendingEntry, sections]
  | cons token rest ih =>
    rw [List.forall_mem_cons] at h
    rw [List.foldl_cons, ih h.2, Reading.step, stripColon?_eq_keyOf? h.1, sections]
    -- whether an entry is open or not, the token is a key that closes it or a word
    obtain ⟨references, _ | ⟨key, words⟩⟩ := reading <;> cases keyOf? token <;>
      simp [Reading.close, Reading.pendingEntry]

theorem readMapping_eq {tokens : List (List Char)} (h : isMapping tokens = true) :
    readMapping tokens = ofList (sections tokens).2 := by
  rw [isMapping, Bool.and_eq_true, List.all_eq_true] at h
  rw [readMapping, close_foldl_step h.2]
  rfl

/-- Reading by the patterns and the loop is reading by tokens. -/
theorem parse?_eq (value : String) : parse? value = ofText? value := by
  simp only [parse?, ofText?, isMatch_listPattern_iff, isMatch_mappingPattern_iff]
  split
  · rw [ofList, List.foldl_map]
  · split
    · next h => rw [readMapping_eq h]
    · rfl

/-! ## What is read -/

/-- Whether a token is a key: a word with a colon behind it. -/
def IsKey (token : List Char) : Prop := ∃ key, IsToken (String.ofList key) ∧ token = key ++ [':']

/-- Whether the tokens are those of a list: every one is a word. -/
def IsListForm (tokens : List (List Char)) : Prop := ∀ token ∈ tokens, IsToken (String.ofList token)

/-- Whether the tokens are those of a mapping: the first is a key, and every one is a word or a
key. -/
def IsMappingForm (tokens : List (List Char)) : Prop :=
  (∃ token ∈ tokens.head?, IsKey token) ∧
    ∀ token ∈ tokens, IsToken (String.ofList token) ∨ IsKey token

/-- The entries of a list: its distinct words, each on its own. -/
def listEntries (tokens : List (List Char)) : List (String × Option (List String)) :=
  tokens.eraseDups.map fun token => (String.ofList token, none)

/-- The entries of a mapping: its distinct keys, each with the words behind its last occurrence. -/
def mappingEntries (tokens : List (List Char)) : List (String × Option (List String)) :=
  (tokens.filterMap keyOf?).eraseDups.map fun key =>
    (String.ofList key, some (wordsBehind (key ++ [':']) tokens))

theorem isKey_iff {token : List Char} : IsKey token ↔ (keyOf? token).isSome = true := by
  rw [Option.isSome_iff_exists]
  constructor
  · rintro ⟨key, hkey, rfl⟩
    exact ⟨key, keyOf?_append_colon (isToken_ofList_iff.mp hkey)⟩
  · rintro ⟨key, hkey⟩
    exact ⟨key, isToken_ofList_iff.mpr (isIdentifier_of_keyOf? hkey),
      eq_append_colon_of_keyOf? hkey⟩

theorem isListForm_iff {tokens : List (List Char)} :
    IsListForm tokens ↔ tokens.all isIdentifier = true := by
  simp [IsListForm, isToken_ofList_iff]

theorem isMappingForm_iff {tokens : List (List Char)} :
    IsMappingForm tokens ↔ isMapping tokens = true := by
  simp only [IsMappingForm, isMapping, isToken_ofList_iff, isKey_iff, Bool.and_eq_true,
    Option.any_eq_true, List.all_eq_true, Bool.or_eq_true, Option.mem_def]

/-- The first token of a mapping is no word. -/
theorem not_isListForm_of_isMappingForm {tokens : List (List Char)} (h : IsMappingForm tokens) :
    ¬ IsListForm tokens := by
  obtain ⟨⟨token, hhead, key, -, rfl⟩, -⟩ := h
  intro hlist
  have hword := hlist _ (List.mem_of_mem_head? hhead)
  exact colon_not_mem (isToken_ofList_iff.mp hword) (by simp)

theorem eraseDups_map_ofList (texts : List (List Char)) :
    (texts.map String.ofList).eraseDups = texts.eraseDups.map String.ofList := by
  induction texts using List.reverseRecOn with
  | nil => rfl
  | append_singleton rest last ih =>
    -- different characters make different texts
    have hmem : String.ofList last ∈ rest.map String.ofList ↔ last ∈ rest :=
      List.mem_map_of_injective fun _ _ => String.ofList_injective
    rw [List.map_append, List.map_singleton, eraseDups_append_singleton,
      eraseDups_append_singleton, ih]
    by_cases h : last ∈ rest
    · rw [if_pos h, if_pos (hmem.mpr h)]
    · rw [if_neg h, if_neg (mt hmem.mp h), List.map_append, List.map_singleton]

/-- Entries are given by their keys and by what their keys are mapped to. -/
theorem eq_map_of_map_fst (words : List Char → Option (List String))
    {entries : List (String × Option (List String))} {keys : List (List Char)}
    (hkeys : entries.map (·.1) = keys.map String.ofList)
    (hwords : ∀ entry ∈ entries, entry.2 = words entry.1.toList) :
    entries = keys.map fun key => (String.ofList key, words key) := by
  have hself : entries = (entries.map (·.1)).map fun key => (key, words key.toList) := by
    rw [List.map_map]
    refine (List.map_id _).symm.trans (List.map_congr_left fun entry hentry => ?_)
    exact Prod.ext rfl (hwords entry hentry)
  rw [hself, hkeys, List.map_map]
  simp

theorem entries_of_list (tokens : List (List Char)) :
    (ofList (tokens.map fun token => (String.ofList token, none))).entries =
      listEntries tokens := by
  apply eq_map_of_map_fst fun _ => none
  · rw [map_fst_ofList, List.map_map, ← eraseDups_map_ofList]
    rfl
  · intro entry hentry
    obtain ⟨token, -, rfl⟩ := List.mem_map.mp (mem_of_mem_ofList hentry)
    rfl

theorem entries_of_sections (tokens : List (List Char)) :
    (ofList (sections tokens).2).entries = mappingEntries tokens := by
  apply eq_map_of_map_fst fun key => some (wordsBehind (key ++ [':']) tokens)
  · rw [map_fst_ofList, map_fst_sections, eraseDups_map_ofList]
  · intro entry hentry
    exact eq_wordsBehind hentry

/-- Reading by the patterns and the loop is reading by tokens, and it accepts just the lists and the
mappings. A list gives its distinct words, a mapping its distinct keys, each with the words behind
its last occurrence. -/
theorem ofText?_eq_some_iff :
    (∀ value, parse? value = ofText? value) ∧
      ∀ value references, ofText? value = some references ↔
        (IsListForm (tokens value.toList) ∧
          references.entries = listEntries (tokens value.toList)) ∨
        (IsMappingForm (tokens value.toList) ∧
          references.entries = mappingEntries (tokens value.toList)) := by
  refine ⟨parse?_eq, fun value references => ?_⟩
  have hentries : ∀ other : References,
      some other = some references ↔ references.entries = other.entries := by
    intro other
    obtain ⟨entries⟩ := other
    obtain ⟨read⟩ := references
    simp [eq_comm]
  simp only [ofText?]
  split
  · next hlist =>
    -- a list is no mapping, so only one of the cases is left
    have hlist := isListForm_iff.mpr hlist
    have hmapping : ¬ IsMappingForm (tokens value.toList) :=
      fun h => not_isListForm_of_isMappingForm h hlist
    rw [hentries, entries_of_list]
    simp [hlist, hmapping]
  · next hlist =>
    rw [← isListForm_iff] at hlist
    split
    · next hmapping =>
      rw [hentries, entries_of_sections]
      simp [hlist, isMappingForm_iff.mpr hmapping]
    · next hmapping =>
      rw [← isMappingForm_iff] at hmapping
      simp [hlist, hmapping]

-- a colon stands alone, in a word, or behind a word of a list
example : ofText? "a: :" = none ∧ ofText? "a: b:c" = none ∧ ofText? "a b: c" = none := by
  decide +kernel

end GroupFlattening.References
