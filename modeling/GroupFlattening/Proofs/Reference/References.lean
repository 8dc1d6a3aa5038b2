import GroupFlattening.Reference.References
import GroupFlattening.Proofs.Faults

/-!
# Replacing Keys and Words

A replacement that succeeds gives a value with the same entries in the same order, in which the
governed keys and words are replaced and nothing else is changed (`mapM_eq_ok_iff`). Only what is
governed is ever looked at (`Rewritten.imp_of_governed`), and all of it is
(`Rewritten.exists_of_governed`).
-/

namespace GroupFlattening.References

/-- An entry with its key, its words, or both replaced. -/
@[mk_iff] structure EntryRewritten (keys words : Bool) (R : String → String → Prop)
    (entry entry' : String × Option (List String)) : Prop where
  key : if keys then R entry.1 entry'.1 else entry.1 = entry'.1
  list : Option.Rel (fun list list' => if words then List.Forall₂ R list list' else list = list')
    entry.2 entry'.2

/-- A value with the governed keys and words of another one replaced. -/
def Rewritten (keys words : Bool) (R : String → String → Prop)
    (references references' : References) : Prop :=
  List.Forall₂ (EntryRewritten keys words R) references.entries references'.entries

variable {ε : Type} {keys words : Bool} {replace : String → Except ε String}

theorem entry_eq_ok_iff {entry entry' : String × Option (List String)} :
    (do
      let key ← if keys then replace entry.1 else pure entry.1
      let list ← match entry.2 with
        | none => pure none
        | some list => if words then some <$> list.mapM replace else pure (some list)
      pure (key, list) : Except ε (String × Option (List String))) = .ok entry' ↔
      EntryRewritten keys words (fun token text => replace token = .ok text) entry entry' := by
  obtain ⟨key, list⟩ := entry
  obtain ⟨key', list'⟩ := entry'
  rw [entryRewritten_iff]
  cases keys <;> cases words <;> cases list <;> cases list' <;>
    simp [Except.bind_eq_ok_iff, Except.map_eq_ok_iff, Except.mapM_eq_ok_iff,
      Except.pure_eq_ok_iff, and_comm]

theorem mapM_eq_ok_iff {references references' : References} :
    references.mapM keys words replace = .ok references' ↔
      Rewritten keys words (fun token text => replace token = .ok text) references references' := by
  simp only [mapM, Except.bind_eq_ok_iff, Except.pure_eq_ok_iff, Except.mapM_eq_ok_iff]
  constructor
  · rintro ⟨entries, hentries, rfl⟩
    exact hentries.imp fun _ _ => entry_eq_ok_iff.mp
  · intro h
    exact ⟨references'.entries, h.imp fun _ _ => entry_eq_ok_iff.mpr, rfl⟩

/-- What is known of the replacements of governed tokens holds of the whole value. -/
theorem Rewritten.imp_of_governed {R S : String → String → Prop}
    {references references' : References}
    (hR : Rewritten keys words R references references')
    (himp : ∀ token ∈ references.governed keys words, ∀ text, R token text → S token text) :
    Rewritten keys words S references references' := by
  have hentries := (List.forall₂_and_left (p := (· ∈ references.entries)) _ _).mpr
    ⟨fun entry hentry => hentry, hR⟩
  refine hentries.imp fun entry entry' hentry => ?_
  obtain ⟨hmem, hkey, hlist⟩ := hentry
  -- what is governed in an entry is governed in the value
  have hgoverned : ∀ token ∈ (if keys then [entry.1] else []) ++
      (if words then entry.2.getD [] else []), ∀ text, R token text → S token text :=
    fun token htoken => himp token (List.mem_flatMap.mpr ⟨entry, hmem, htoken⟩)
  refine ⟨?_, ?_⟩
  · cases keys with
    | false => exact hkey
    | true => exact hgoverned entry.1 (by simp) entry'.1 hkey
  · obtain ⟨key, list⟩ := entry
    obtain ⟨key', list'⟩ := entry'
    cases hlist with
    | none => exact .none
    | @some list list' hlist =>
      refine .some ?_
      cases words with
      | false => exact hlist
      | true =>
        -- word by word
        have htokens := (List.forall₂_and_left (p := (· ∈ list)) _ _).mpr
          ⟨fun token htoken => htoken, hlist⟩
        exact htokens.imp fun token text htoken =>
          hgoverned token (by simp [htoken.1]) text htoken.2

/-- Every governed token of a rewritten value has something in its place. -/
theorem Rewritten.exists_of_governed {R : String → String → Prop}
    {references references' : References} (hR : Rewritten keys words R references references')
    {token : String} (htoken : token ∈ references.governed keys words) :
    ∃ text, R token text := by
  obtain ⟨entry, hentry, htoken⟩ := List.mem_flatMap.mp htoken
  obtain ⟨entry', -, hkey, hlist⟩ := Forall₂.exists_right hR hentry
  obtain ⟨key, list⟩ := entry
  obtain ⟨key', list'⟩ := entry'
  -- a governed key has its own text, and so has a governed word
  rcases List.mem_append.mp htoken with htoken | htoken
  · cases keys with
    | false => cases htoken
    | true =>
      obtain rfl := List.mem_singleton.mp htoken
      exact ⟨key', hkey⟩
  · cases words with
    | false => cases htoken
    | true =>
      cases hlist with
      | none => cases htoken
      | some hlist =>
        obtain ⟨text, -, htext⟩ := Forall₂.exists_right hlist htoken
        exact ⟨text, htext⟩

/-- Replacing tokens fails only as replacing one of them does. -/
theorem faultsIn_mapM {P : ε → Prop} {references : References}
    (hreplace : ∀ token ∈ references.governed keys words, Except.FaultsIn P (replace token)) :
    Except.FaultsIn P (references.mapM keys words replace) := by
  simp only [mapM]
  refine Except.FaultsIn.bind (.mapM fun entry hentry => ?_) fun entries => .pure _
  have hreplace : ∀ token ∈ (if keys then [entry.1] else []) ++
      (if words then entry.2.getD [] else []), Except.FaultsIn P (replace token) :=
    fun token htoken => hreplace token (List.mem_flatMap.mpr ⟨entry, hentry, htoken⟩)
  obtain ⟨entryKey, entryList⟩ := entry
  -- a list is replaced word by word, if words are governed at all
  have hlist : ∀ key : String, Except.FaultsIn P (do
      let list ← match entryList with
        | none => pure none
        | some list => if words then some <$> list.mapM replace else pure (some list)
      pure (key, list)) := by
    intro key
    cases entryList with
    | none => exact .pure _
    | some list =>
      cases words with
      | false => exact .pure _
      | true =>
        have hwords : ∀ token ∈ list, Except.FaultsIn P (replace token) :=
          fun token htoken => hreplace token (List.mem_append_right _ htoken)
        exact ((Except.FaultsIn.mapM hwords).map some).bind fun list => .pure _
  cases keys with
  | false => exact hlist entryKey
  | true => exact (hreplace entryKey (List.mem_append_left _ (by simp))).bind hlist

end GroupFlattening.References
