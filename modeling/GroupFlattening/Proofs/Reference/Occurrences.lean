import GroupFlattening.Proofs.Reference.RoundTrip
import Mathlib.Data.List.DropRight

/-!
# Keys That Are Written Again

A key that is written again keeps its place among the keys (`map_fst_ofList`), and the words that
stand behind it the last time are the ones that count (`exists_last_of_mem_ofList`). In terms of
tokens, these are the tokens behind the last occurrence of the key up to the next key
(`eq_wordsBehind`).
-/

namespace GroupFlattening.References

/-! ## The value of entries written one after the other -/

section Entries

variable {key : String} {words : Option (List String)}
  {entries : List (String × Option (List String))} {entry : String × Option (List String)}

theorem eraseDups_append_singleton {α : Type} [BEq α] [LawfulBEq α] (list : List α) (a : α) :
    (list ++ [a]).eraseDups = if a ∈ list then list.eraseDups else list.eraseDups ++ [a] := by
  rw [List.eraseDups_append]
  split
  · next h => simp [List.removeAll, h]
  · next h => simp [List.removeAll, List.eraseDups_cons, h]

theorem map_fst_setEntry : (setEntry key words entries).map (·.1) =
    if key ∈ entries.map (·.1) then entries.map (·.1) else entries.map (·.1) ++ [key] := by
  induction entries with
  | nil => rfl
  | cons first rest ih =>
    rw [setEntry]
    -- the key is replaced where it stands, or appended behind the others
    by_cases heq : first.1 = key
    · simp [heq]
    · rw [if_neg heq, List.map_cons, ih, List.map_cons]
      by_cases hmem : key ∈ rest.map (·.1)
      · rw [if_pos hmem, if_pos (List.mem_cons_of_mem _ hmem)]
      · rw [if_neg hmem, if_neg (List.not_mem_cons_of_ne_of_not_mem (Ne.symm heq) hmem),
          List.cons_append]

/-- The keys of a value stand in the order in which they are first written. -/
theorem map_fst_ofList : (ofList entries).entries.map (·.1) = (entries.map (·.1)).eraseDups := by
  induction entries using List.reverseRecOn with
  | nil => rfl
  | append_singleton rest last ih =>
    rw [ofList_append_singleton, map_fst_setEntry, ih, List.map_append, List.map_singleton,
      eraseDups_append_singleton]
    simp only [List.mem_eraseDups]

/-- An entry that was there before its key was set has another key. -/
theorem mem_setEntry_of_nodup (hnodup : (entries.map (·.1)).Nodup)
    (h : entry ∈ setEntry key words entries) :
    entry = (key, words) ∨ entry ∈ entries ∧ entry.1 ≠ key := by
  induction entries with
  | nil => exact Or.inl (List.mem_singleton.mp h)
  | cons first rest ih =>
    rw [List.map_cons, List.nodup_cons] at hnodup
    rw [setEntry] at h
    split at h
    -- replaced here, and there is no other entry of this key
    · next heq =>
      rcases List.mem_cons.mp h with rfl | h
      · exact Or.inl (by rw [heq])
      · refine Or.inr ⟨List.mem_cons_of_mem _ h, fun hkey => hnodup.1 ?_⟩
        rw [heq, ← hkey]
        exact List.mem_map_of_mem h
    · next hne =>
      rcases List.mem_cons.mp h with rfl | h
      · exact Or.inr ⟨List.mem_cons_self, hne⟩
      · exact (ih hnodup.2 h).imp_right fun h => ⟨List.mem_cons_of_mem _ h.1, h.2⟩

/-- An entry of a value is the last one that was written with its key. -/
theorem exists_last_of_mem_ofList (h : entry ∈ (ofList entries).entries) :
    ∃ before after, entries = before ++ entry :: after ∧ entry.1 ∉ after.map (·.1) := by
  induction entries using List.reverseRecOn with
  | nil => cases h
  | append_singleton rest last ih =>
    rw [ofList_append_singleton] at h
    -- the last entry of all, or the last one of its key before it
    rcases mem_setEntry_of_nodup nodup_ofList h with rfl | ⟨h, hne⟩
    · exact ⟨rest, [], rfl, by simp⟩
    · obtain ⟨before, after, rfl, hafter⟩ := ih h
      refine ⟨before, after ++ [last], by simp, ?_⟩
      simp only [List.map_append, List.map_singleton, List.mem_append, List.mem_singleton, not_or]
      exact ⟨hafter, hne⟩

end Entries

/-! ## The tokens of a mapping -/

section Tokens

variable {tokens : List (List Char)}

/-- The key in front of the colon, and the token made of it. -/
theorem eq_append_colon_of_keyOf? {token key : List Char} (h : keyOf? token = some key) :
    token = key ++ [':'] := by
  rw [keyOf?] at h
  split at h
  · next hkey =>
    obtain rfl := Option.some.inj h
    exact (List.dropLast_append_getLast? _ hkey.1).symm
  · cases h

/-- The tokens behind the last time that `key` stands, up to the next key. -/
def wordsBehind (key : List Char) (tokens : List (List Char)) : List String :=
  ((tokens.rtakeWhile (· != key)).takeWhile fun token => (keyOf? token).isNone).map String.ofList

theorem map_fst_sections :
    (sections tokens).2.map (·.1) = (tokens.filterMap keyOf?).map String.ofList := by
  induction tokens with
  | nil => rfl
  | cons token rest ih =>
    rw [sections]
    cases hkey : keyOf? token with
    | none => rw [List.filterMap_cons_none hkey, ← ih]
    | some key => rw [List.filterMap_cons_some hkey, List.map_cons, List.map_cons, ih]

theorem fst_sections : (sections tokens).1 =
    (tokens.takeWhile fun token => (keyOf? token).isNone).map String.ofList := by
  induction tokens with
  | nil => rfl
  | cons token rest ih =>
    rw [sections]
    cases hkey : keyOf? token with
    | none => simp [hkey, ih]
    | some key => simp [hkey]

/-- Where an entry stands among the sections, its key stands among the tokens. -/
theorem exists_key_of_sections {before after : List (String × Option (List String))}
    {entry : String × Option (List String)} (h : (sections tokens).2 = before ++ entry :: after) :
    ∃ earlier key later, tokens = earlier ++ (key ++ [':']) :: later ∧
      keyOf? (key ++ [':']) = some key ∧
      entry = (String.ofList key, some (sections later).1) ∧ after = (sections later).2 := by
  induction tokens generalizing before with
  | nil => simp [sections] at h
  | cons token rest ih =>
    rw [sections] at h
    cases hkey : keyOf? token with
    -- a word in front of every key
    | none =>
      rw [hkey] at h
      obtain ⟨earlier, key, later, rfl, hfound⟩ := ih h
      exact ⟨token :: earlier, key, later, rfl, hfound⟩
    | some key =>
      rw [hkey] at h
      obtain rfl := eq_append_colon_of_keyOf? hkey
      -- a key: the entry is its own, or one further on
      cases before with
      | nil =>
        obtain ⟨rfl, rfl⟩ := List.cons.inj h
        exact ⟨[], key, rest, rfl, hkey, rfl, rfl⟩
      | cons first before =>
        obtain ⟨earlier, other, later, rfl, hfound⟩ := ih (List.cons.inj h).2
        exact ⟨(key ++ [':']) :: earlier, other, later, rfl, hfound⟩

theorem rtakeWhile_append_cons {α : Type} {holds : α → Bool} {a : α} (earlier : List α)
    {later : List α} (ha : holds a = false) (hlater : ∀ b ∈ later, holds b = true) :
    (earlier ++ a :: later).rtakeWhile holds = later := by
  have hreverse : ∀ b ∈ later.reverse, holds b = true := by simpa using hlater
  rw [List.rtakeWhile, List.reverse_append, List.reverse_cons, List.append_assoc,
    List.takeWhile_append_of_pos hreverse]
  simp [ha]

/-- The words of an entry stand behind the last occurrence of its key. -/
theorem eq_wordsBehind {entry : String × Option (List String)}
    (h : entry ∈ (ofList (sections tokens).2).entries) :
    entry.2 = some (wordsBehind (entry.1.toList ++ [':']) tokens) := by
  obtain ⟨before, after, hsections, hlast⟩ := exists_last_of_mem_ofList h
  obtain ⟨earlier, key, later, rfl, hkey, rfl, rfl⟩ := exists_key_of_sections hsections
  have hlater : ∀ token ∈ later, (token != key ++ [':']) = true := by
    intro token htoken
    rw [bne_iff_ne]
    rintro rfl
    -- the key would be written again
    apply hlast
    rw [map_fst_sections]
    exact List.mem_map_of_mem (List.mem_filterMap.mpr ⟨_, htoken, hkey⟩)
  rw [wordsBehind, String.toList_ofList, rtakeWhile_append_cons earlier (by simp) hlater,
    fst_sections]

end Tokens

end GroupFlattening.References
