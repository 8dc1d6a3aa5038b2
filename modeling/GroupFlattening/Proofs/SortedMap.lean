import GroupFlattening.SortedMap

/-!
# Maps Made of Lists

A map that is made of a list has the last value of each key. A list in strictly increasing order of
its keys is kept as it is, since each entry goes behind the ones before it; so a map is made of its
own entries (`ofList_entries`).
-/

namespace GroupFlattening.SortedMap

variable {α : Type}

/-! ## Lookups -/

/-- In a map made of a list the last entry of a key counts. -/
theorem find?_ofList (entries : List (String × α)) (key : String) :
    (ofList entries).find? key = entries.reverse.lookup key := by
  -- along the list, whatever the map held before
  have walk : ∀ (entries : List (String × α)) (m : SortedMap α),
      (entries.foldl (fun m e => m.insert e.1 e.2) m).find? key =
        (entries.reverse.lookup key).or (m.find? key) := by
    intro entries
    induction entries with
    | nil => exact fun m => rfl
    | cons e rest ih =>
      intro m
      obtain ⟨k, value⟩ := e
      -- a later entry of the same key hides this one
      rw [List.foldl_cons, ih, find?_insert, List.reverse_cons, List.lookup_append,
        lookup_cons_eq, Option.or_assoc]
      congr 1
      split <;> rfl
  rw [ofList, walk, show (empty : SortedMap α).find? key = none from rfl, Option.or_none]

theorem mem_of_find?_ofList {entries : List (String × α)} {key : String} {value : α}
    (h : (ofList entries).find? key = some value) : (key, value) ∈ entries := by
  rw [find?_ofList, List.lookup_eq_some_iff] at h
  obtain ⟨before, after, heq, -⟩ := h
  rw [← List.mem_reverse, heq]
  simp

theorem exists_find?_ofList {entries : List (String × α)} {entry : String × α}
    (h : entry ∈ entries) : ∃ value, (ofList entries).find? entry.1 = some value := by
  rw [find?_ofList, ← Option.isSome_iff_exists, List.lookup_isSome_iff]
  exact ⟨entry, List.mem_reverse.mpr h, by simp⟩

/-- A map that is made of a list has no other entries. -/
theorem mem_of_mem_ofList {entries : List (String × α)} {entry : String × α}
    (h : entry ∈ (ofList entries).entries) : entry ∈ entries := by
  -- along the list, beside the entries that the map holds already
  have walk : ∀ (rest : List (String × α)) (m : SortedMap α),
      entry ∈ (rest.foldl (fun m e => m.insert e.1 e.2) m).entries →
        entry ∈ m.entries ∨ entry ∈ rest := by
    intro rest
    induction rest with
    | nil => exact fun m hm => Or.inl hm
    | cons e rest ih =>
      intro m hm
      rcases ih _ hm with hinsert | hrest
      · rcases mem_insertEntry hinsert with rfl | hm
        · exact Or.inr List.mem_cons_self
        · exact Or.inl hm
      · exact Or.inr (List.mem_cons_of_mem _ hrest)
  rcases walk entries empty h with hempty | hmem
  · cases hempty
  · exact hmem

/-! ## Entries in order -/

/-- An entry whose key is beyond all others goes behind them. -/
theorem insertEntry_of_forall_lt {key : String} {value : α} {entries : List (String × α)}
    (h : ∀ e ∈ entries, e.1 < key) : insertEntry key value entries = entries ++ [(key, value)] := by
  induction entries with
  | nil => rfl
  | cons e rest ih =>
    obtain ⟨hlt, hrest⟩ := List.forall_mem_cons.mp h
    have hne : key ≠ e.1 := fun heq => String.lt_irrefl _ (heq ▸ hlt)
    rw [insertEntry, if_neg (String.lt_asymm hlt), if_neg hne, ih hrest, List.cons_append]

/-- A map is made of its own entries. -/
theorem ofList_entries (m : SortedMap α) : ofList m.entries = m := by
  -- along the list, behind the entries that the map holds already
  have walk : ∀ (rest : List (String × α)) (m : SortedMap α),
      (m.entries ++ rest).Pairwise (fun a b => a.1 < b.1) →
        (rest.foldl (fun m e => m.insert e.1 e.2) m).entries = m.entries ++ rest := by
    intro rest
    induction rest with
    | nil => exact fun m _ => (List.append_nil _).symm
    | cons e rest ih =>
      intro m h
      -- the entries increase, so the next one comes last
      have hlast : ∀ entry ∈ m.entries, entry.1 < e.1 := fun entry hentry =>
        (List.pairwise_append.mp h).2.2 entry hentry e List.mem_cons_self
      have hinsert : (m.insert e.1 e.2).entries = m.entries ++ [e] :=
        insertEntry_of_forall_lt hlast
      rw [List.append_cons, ← hinsert] at h
      rw [List.foldl_cons, ih _ h, hinsert, ← List.append_cons]
  exact ext (walk m.entries empty m.increasing)

end GroupFlattening.SortedMap
