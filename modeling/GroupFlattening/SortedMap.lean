/-!
# Maps Sorted by Key

Finite maps from texts, kept as entries in strictly increasing order of their keys, code point by
code point. Insertion is a single pass that replaces the value of a key already present, so a map
has one representation and its entries are listed in key order.
-/

namespace GroupFlattening

/-- A finite map from texts to `α`. -/
structure SortedMap (α : Type) where
  /-- The entries in key order. -/
  entries : List (String × α)
  /-- Keys increase strictly. -/
  increasing : entries.Pairwise fun a b => a.1 < b.1

namespace SortedMap

variable {α : Type}

/-- Two maps with the same entries are equal. -/
@[ext] theorem ext {m n : SortedMap α} (h : m.entries = n.entries) : m = n := by
  cases m; cases n; simp_all

instance [DecidableEq α] : DecidableEq (SortedMap α) := fun m n =>
  if h : m.entries = n.entries then isTrue (ext h) else isFalse fun e => h (e ▸ rfl)

instance [Repr α] : Repr (SortedMap α) := ⟨fun m n => reprPrec m.entries n⟩

/-- The map without entries. -/
def empty : SortedMap α := ⟨[], List.Pairwise.nil⟩

instance : Inhabited (SortedMap α) := ⟨empty⟩

/-- The value of `key`. -/
def find? (m : SortedMap α) (key : String) : Option α := m.entries.lookup key

/-- Entries with `key` set to `value`, at its place in the order. -/
def insertEntry (key : String) (value : α) : List (String × α) → List (String × α)
  | [] => [(key, value)]
  | (k, v) :: rest =>
    if key < k then (key, value) :: (k, v) :: rest
    else if key = k then (key, value) :: rest
    else (k, v) :: insertEntry key value rest

theorem mem_insertEntry {key : String} {value : α} {entries : List (String × α)}
    {e : String × α} (h : e ∈ insertEntry key value entries) : e = (key, value) ∨ e ∈ entries := by
  induction entries with
  | nil => exact Or.inl (by simpa [insertEntry] using h)
  | cons head rest ih =>
    obtain ⟨k, v⟩ := head
    rw [insertEntry] at h
    split at h
    · rcases List.mem_cons.mp h with h | h
      · exact Or.inl h
      · exact Or.inr h
    · split at h
      · rcases List.mem_cons.mp h with h | h
        · exact Or.inl h
        · exact Or.inr (List.mem_cons_of_mem _ h)
      · rcases List.mem_cons.mp h with h | h
        · exact Or.inr (h ▸ List.mem_cons_self)
        · exact (ih h).imp id (List.mem_cons_of_mem _)

theorem increasing_insertEntry (key : String) (value : α) {entries : List (String × α)}
    (h : entries.Pairwise fun a b => a.1 < b.1) :
    (insertEntry key value entries).Pairwise fun a b => a.1 < b.1 := by
  induction entries with
  | nil => simp [insertEntry]
  | cons head rest ih =>
    obtain ⟨k, v⟩ := head
    obtain ⟨hhead, hrest⟩ := List.pairwise_cons.mp h
    rw [insertEntry]
    split
    · next hlt =>
      refine List.pairwise_cons.mpr ⟨fun e he => ?_, h⟩
      rcases List.mem_cons.mp he with rfl | he
      · exact hlt
      · exact String.lt_trans hlt (hhead e he)
    · next hge =>
      split
      · next heq =>
        subst heq
        exact List.pairwise_cons.mpr ⟨hhead, hrest⟩
      · next hne =>
        refine List.pairwise_cons.mpr ⟨fun e he => ?_, ih hrest⟩
        rcases mem_insertEntry he with rfl | he
        · -- the new key is neither below nor equal, so it is above
          exact Decidable.byContradiction fun hn =>
            hne (String.le_antisymm (String.not_lt.mp hn) (String.not_lt.mp hge))
        · exact hhead e he

/-- The map with `key` set to `value`. -/
def insert (m : SortedMap α) (key : String) (value : α) : SortedMap α :=
  ⟨insertEntry key value m.entries, increasing_insertEntry key value m.increasing⟩

/-- The map of the given entries; of two with the same key the later one counts. -/
def ofList (entries : List (String × α)) : SortedMap α :=
  entries.foldl (fun m e => m.insert e.1 e.2) empty

theorem lookup_cons_eq (key k : String) (v : α) (rest : List (String × α)) :
    List.lookup key ((k, v) :: rest) = if key = k then some v else List.lookup key rest := by
  rw [List.lookup_cons]
  by_cases h : key = k
  · simp [h]
  · rw [beq_false_of_ne h, if_neg h]

/-- Looking up a key just set gives its value, any other key is as before. -/
theorem find?_insert (m : SortedMap α) (key other : String) (value : α) :
    (m.insert key value).find? other = if other = key then some value else m.find? other := by
  obtain ⟨entries, increasing⟩ := m
  simp only [find?, insert]
  clear increasing
  induction entries with
  | nil => simp [insertEntry, lookup_cons_eq]
  | cons head rest ih =>
    obtain ⟨k, v⟩ := head
    rw [insertEntry]
    split
    · rw [lookup_cons_eq]
    · split
      · next heq =>
        subst heq
        simp only [lookup_cons_eq]
        split <;> rfl
      · next hne =>
        rw [lookup_cons_eq, lookup_cons_eq, ih]
        by_cases h : other = k
        · subst h
          rw [if_pos rfl, if_pos rfl, if_neg (Ne.symm hne)]
        · rw [if_neg h, if_neg h]

end SortedMap

end GroupFlattening
