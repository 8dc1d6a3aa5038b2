import GroupFlattening.Attribute
import Mathlib.Data.List.Nodup

/-!
# Setting Attributes

Setting an attribute changes the value found under its name and no other, and keeps the names
distinct. Setting several attributes one after the other only loses something where a name occurs
again with another value, since of several values the last one counts (`find?_setAll`).
-/

namespace GroupFlattening.Attributes

/-! ## Looking up -/

theorem find?_nil (name : String) : find? [] name = none := rfl

theorem find?_cons (n : String) (v : AttributeValue) (rest : Attributes) (name : String) :
    find? ((n, v) :: rest) name = if name = n then some v else find? rest name := by
  unfold find?
  rw [List.lookup_cons]
  by_cases h : name = n
  · simp [h]
  · rw [beq_false_of_ne h, if_neg h]

theorem find?_singleton (entry : String × AttributeValue) (name : String) :
    find? [entry] name = if name = entry.1 then some entry.2 else none :=
  find?_cons entry.1 entry.2 [] name

/-- A name is looked up in the first list and then in the second one. -/
theorem find?_append (first second : Attributes) (name : String) :
    find? (first ++ second) name = (find? first name).or (find? second name) := by
  induction first with
  | nil => simp [find?_nil]
  | cons entry rest ih =>
    rw [List.cons_append, find?_cons, find?_cons, ih]
    split <;> simp

theorem find?_eq_none_iff {attributes : Attributes} {name : String} :
    find? attributes name = none ↔ name ∉ attributes.map (·.1) := by
  induction attributes with
  | nil => simp [find?_nil]
  | cons entry rest ih =>
    rw [find?_cons, List.map_cons, List.mem_cons]
    by_cases h : name = entry.1
    · simp [h]
    · rw [if_neg h, ih]
      simp [h]

theorem mem_of_find? {attributes : Attributes} {name : String} {value : AttributeValue}
    (h : find? attributes name = some value) : (name, value) ∈ attributes := by
  induction attributes with
  | nil => simp [find?_nil] at h
  | cons entry rest ih =>
    rw [find?_cons] at h
    split at h
    · next heq =>
      obtain rfl := Option.some.inj h
      exact heq ▸ List.mem_cons_self
    · exact List.mem_cons_of_mem _ (ih h)

/-- Where names are distinct, an entry is what its name is looked up to be. -/
theorem find?_of_mem {attributes : Attributes} (hnodup : (attributes.map (·.1)).Nodup)
    {name : String} {value : AttributeValue} (h : (name, value) ∈ attributes) :
    find? attributes name = some value := by
  induction attributes with
  | nil => simp at h
  | cons entry rest ih =>
    rw [List.map_cons, List.nodup_cons] at hnodup
    rw [find?_cons]
    rcases List.mem_cons.mp h with rfl | h
    · exact if_pos rfl
    -- the first entry has another name, since names are unique
    · have hne : name ≠ entry.1 := fun heq => hnodup.1 (heq ▸ List.mem_map_of_mem h)
      rw [if_neg hne]
      exact ih hnodup.2 h

/-! ## Setting one attribute -/

/-- What has been set is found under its name, and under other names what was found before. -/
theorem find?_set (attributes : Attributes) (name other : String) (value : AttributeValue) :
    find? (attributes.set name value) other =
      if other = name then some value else find? attributes other := by
  induction attributes with
  | nil => rw [set, find?_cons]
  | cons entry rest ih =>
    rw [set]
    split
    -- the value stands where the old one stood, or behind all others
    · next heq =>
      subst heq
      rw [find?_cons, find?_cons]
      split <;> rfl
    · next hne =>
      rw [find?_cons, find?_cons, ih]
      by_cases hother : other = name
      · rw [if_pos hother, if_neg (fun h => hne (h.symm.trans hother)), if_pos hother]
      · rw [if_neg hother, if_neg hother]

/-- Setting an attribute keeps the names in their order; a new name comes last. -/
theorem names_set (attributes : Attributes) (name : String) (value : AttributeValue) :
    (attributes.set name value).map (·.1) =
      if name ∈ attributes.map (·.1) then attributes.map (·.1)
      else attributes.map (·.1) ++ [name] := by
  induction attributes with
  | nil => rfl
  | cons entry rest ih =>
    rw [set]
    by_cases heq : entry.1 = name
    · rw [if_pos heq]
      simp [heq]
    · rw [if_neg heq, List.map_cons, ih, List.map_cons]
      by_cases hmem : name ∈ rest.map (·.1)
      · rw [if_pos hmem, if_pos (List.mem_cons_of_mem _ hmem)]
      · have hno : name ∉ entry.1 :: rest.map (·.1) := by
          rw [List.mem_cons]
          rintro (h | h)
          · exact heq h.symm
          · exact hmem h
        rw [if_neg hmem, if_neg hno, List.cons_append]

theorem nodup_set {attributes : Attributes} (h : (attributes.map (·.1)).Nodup) (name : String)
    (value : AttributeValue) : ((attributes.set name value).map (·.1)).Nodup := by
  rw [names_set]
  split
  · exact h
  · next hno => exact List.nodup_append.mpr ⟨h, by simp, fun a ha b hb heq => hno (by simp_all)⟩

/-- An attribute of a new name comes last. -/
theorem set_of_not_mem {attributes : Attributes} {name : String}
    (h : name ∉ attributes.map (·.1)) (value : AttributeValue) :
    attributes.set name value = attributes ++ [(name, value)] := by
  induction attributes with
  | nil => rfl
  | cons entry rest ih =>
    rw [List.map_cons, List.mem_cons, not_or] at h
    rw [set, if_neg (Ne.symm h.1), ih h.2, List.cons_append]

/-- Where names are distinct, setting an attribute that is there replaces its value. -/
theorem set_eq_map {attributes : Attributes} {name : String} {value : AttributeValue}
    (hnodup : (attributes.map (·.1)).Nodup) (hname : name ∈ attributes.map (·.1)) :
    attributes.set name value =
      attributes.map fun a => (a.1, if a.1 = name then value else a.2) := by
  induction attributes with
  | nil => simp at hname
  | cons a rest ih =>
    rw [List.map_cons, List.nodup_cons] at hnodup
    rw [set, List.map_cons]
    by_cases heq : a.1 = name
    · -- the name does not occur again
      have hrest : rest.map (fun b => (b.1, if b.1 = name then value else b.2)) = rest := by
        refine (List.map_congr_left fun b hb => ?_).trans (List.map_id rest)
        have hne : b.1 ≠ name := fun h =>
          hnodup.1 (heq.trans h.symm ▸ List.mem_map_of_mem hb)
        simp [hne]
      rw [if_pos heq, if_pos heq, hrest]
    · rw [if_neg heq, if_neg heq, ih hnodup.2 (by simpa [Ne.symm heq] using hname)]

/-! ## Setting several attributes -/

/-- The attributes with others set one after the other. -/
def setAll (attributes : Attributes) (entries : List (String × AttributeValue)) : Attributes :=
  entries.foldl (fun attributes entry => attributes.set entry.1 entry.2) attributes

theorem setAll_append (attributes : Attributes) (first second : List (String × AttributeValue)) :
    attributes.setAll (first ++ second) = (attributes.setAll first).setAll second :=
  List.foldl_append

theorem nodup_setAll {attributes : Attributes} (h : (attributes.map (·.1)).Nodup)
    (entries : List (String × AttributeValue)) :
    ((attributes.setAll entries).map (·.1)).Nodup := by
  induction entries generalizing attributes with
  | nil => exact h
  | cons entry rest ih => exact ih (nodup_set h entry.1 entry.2)

/-- Of several values set under one name the last one counts. -/
theorem find?_setAll (attributes : Attributes) (entries : List (String × AttributeValue))
    (name : String) : find? (attributes.setAll entries) name =
      (find? entries.reverse name).or (find? attributes name) := by
  induction entries generalizing attributes with
  | nil => rfl
  | cons entry rest ih =>
    -- the last entry under a name counts, hence the reversed list
    have hrest := ih (attributes.set entry.1 entry.2)
    rw [find?_set] at hrest
    rw [List.reverse_cons, find?_append, find?_cons, find?_nil]
    show find? (setAll (attributes.set entry.1 entry.2) rest) name = _
    rw [hrest]
    -- the entry counts unless the rest sets the name again
    by_cases hname : name = entry.1
    · rw [if_pos hname, if_pos hname]
      cases find? rest.reverse name <;> rfl
    · rw [if_neg hname, if_neg hname]
      cases find? rest.reverse name <;> rfl

/-- Where names are distinct, every entry that was set is found. -/
theorem find?_reverse_of_mem {entries : List (String × AttributeValue)}
    (hnodup : (entries.map (·.1)).Nodup) {name : String} {value : AttributeValue}
    (h : (name, value) ∈ entries) : find? entries.reverse name = some value := by
  refine find?_of_mem ?_ (List.mem_reverse.mpr h)
  rw [List.map_reverse]
  exact List.nodup_reverse.mpr hnodup

/-- Where names are distinct, setting attributes that are there replaces values at their places. -/
theorem setAll_eq_map {attributes : Attributes} {entries : List (String × AttributeValue)}
    (hnodup : (attributes.map (·.1)).Nodup)
    (hthere : ∀ entry ∈ entries, entry.1 ∈ attributes.map (·.1)) :
    attributes.setAll entries = attributes.map fun a =>
      (a.1, (find? entries.reverse a.1).getD a.2) := by
  induction entries generalizing attributes with
  | nil => simp [setAll, find?_nil]
  | cons entry rest ih =>
    rw [List.forall_mem_cons] at hthere
    have hnames : (attributes.set entry.1 entry.2).map (·.1) = attributes.map (·.1) := by
      rw [names_set, if_pos hthere.1]
    show setAll (attributes.set entry.1 entry.2) rest = _
    rw [ih (by rw [hnames]; exact hnodup) (by rw [hnames]; exact hthere.2),
      set_eq_map hnodup hthere.1, List.map_map]
    refine List.map_congr_left fun a _ => ?_
    simp only [Function.comp_apply, List.reverse_cons, find?_append, find?_singleton]
    -- a later value under the name counts, or else the entry itself
    cases find? rest.reverse a.1 with
    | some value => rfl
    | none =>
      by_cases heq : a.1 = entry.1
      · simp [heq]
      · simp [heq]

/-- The attributes of one name, where names are distinct. -/
theorem filter_eq_find? {attributes : Attributes} (hnodup : (attributes.map (·.1)).Nodup)
    (name : String) : attributes.filter (fun entry => entry.1 == name) =
      (find? attributes name).toList.map fun value => (name, value) := by
  induction attributes with
  | nil => rfl
  | cons entry rest ih =>
    rw [List.map_cons, List.nodup_cons] at hnodup
    rw [find?_cons]
    by_cases heq : entry.1 = name
    -- the name does not occur again, so nothing else is kept
    · have hnone : find? rest name = none := find?_eq_none_iff.mpr (heq ▸ hnodup.1)
      rw [List.filter_cons_of_pos (by simpa using heq), ih hnodup.2, hnone, if_pos heq.symm]
      subst heq
      rfl
    · rw [List.filter_cons_of_neg (by simpa using heq), ih hnodup.2, if_neg (Ne.symm heq)]

end GroupFlattening.Attributes
