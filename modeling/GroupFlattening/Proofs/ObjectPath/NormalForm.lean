import GroupFlattening.Proofs.ObjectPath

/-!
# Normal Forms of Paths

A text is read as a path segment by segment: empty segments and `.` lead nowhere, `..` takes back
the name before it, and any other segment is one name more. The path made of the names that are left
is the normal form of the text (`normalForm`). The components of a path are its segments without the
empty ones, so reading a path comes to reading its components (`foldl_read_segments`), and where
none of these is a dot or two, they are all left (`foldl_read_of_plain`).
-/

namespace GroupFlattening.ObjectPath

/-! ## Segments -/

/-- What stands between the separators of a text. -/
def segments (text : String) : List String := (text.toList.splitOn separator).map String.ofList

theorem segments_append (front back : String) :
    segments (front ++ "/" ++ back) = segments front ++ segments back := by
  have hlist : (front ++ "/" ++ back).toList = front.toList ++ separator :: back.toList := by
    simp [separator]
  rw [segments, hlist, List.splitOn_append_cons_self, List.map_append]
  rfl

/-- The components of a path are its segments, empty ones left out. -/
theorem components_eq_filter (path : String) :
    components path = (segments path).filter fun segment => segment ≠ "" := by
  rw [components, segments, List.filter_map]
  refine congrArg (List.map String.ofList) (List.filter_congr fun part _ => ?_)
  rw [Bool.eq_iff_iff]
  simp [← String.toList_eq_nil_iff]

theorem ne_empty_of_mem_components {path name : String} (h : name ∈ components path) :
    name ≠ "" := by
  rw [components_eq_filter] at h
  simpa using (List.mem_filter.mp h).2

theorem not_mem_of_mem_splitOn {α : Type} [BEq α] [LawfulBEq α] {a : α} {xs part : List α}
    (h : part ∈ xs.splitOn a) : a ∉ part := by
  induction xs generalizing part with
  | nil =>
    obtain rfl : part = [] := by simpa using h
    simp
  | cons x rest ih =>
    rw [List.splitOn_cons_eq_if_modifyHead] at h
    split at h
    -- a cut starts a part that is empty so far
    · rcases List.mem_cons.mp h with rfl | h
      · simp
      · exact ih h
    -- any other element joins the part behind it
    · next hne =>
      cases hrest : rest.splitOn a with
      | nil => simp [hrest] at h
      | cons first others =>
        rw [hrest, List.modifyHead_cons, List.mem_cons] at h
        rcases h with rfl | h
        · have hfirst : a ∉ first := ih (hrest ▸ List.mem_cons_self)
          simpa [hfirst] using fun heq : a = x => hne (beq_iff_eq.mpr heq.symm)
        · exact ih (hrest ▸ List.mem_cons_of_mem _ h)

theorem isName_of_mem_components {path name : String} (h : name ∈ components path) :
    IsName name := by
  refine ⟨ne_empty_of_mem_components h, ?_⟩
  obtain ⟨part, hpart, rfl⟩ := List.mem_map.mp h
  rw [String.toList_ofList]
  exact not_mem_of_mem_splitOn (List.mem_filter.mp hpart).1

/-- The last segment of a text is what stands behind its last separator. -/
theorem segments_of_cutAtLast {text : String} {before after : List Char}
    (h : cutAtLast (· == separator) text.toList = some (before, after)) :
    segments text = (before.splitOn separator).map String.ofList ++ [String.ofList after] := by
  obtain ⟨a, ha, hlist, hafter⟩ := cutAtLast_eq_some h
  obtain rfl := beq_iff_eq.mp ha
  have hfree : separator ∉ after := fun hmem => by simpa using hafter separator hmem
  rw [segments, hlist, List.splitOn_append_cons_self, List.splitOn_eq_singleton hfree,
    List.map_append]
  rfl

theorem exists_cutAtLast {text : String} (h : isCompound text = true) :
    ∃ before after, cutAtLast (· == separator) text.toList = some (before, after) := by
  cases hcut : cutAtLast (· == separator) text.toList with
  | some parts => exact ⟨parts.1, parts.2, rfl⟩
  | none =>
    have hmem : separator ∈ text.toList := by simpa [isCompound] using h
    have hfalse := cutAtLast_eq_none_iff.mp hcut separator hmem
    simp at hfalse

/-! ## Normal forms -/

/-- Whether a segment is read as something other than a name. -/
def IsDots (segment : String) : Prop := segment = "." ∨ segment = ".."

instance (segment : String) : Decidable (IsDots segment) := inferInstanceAs (Decidable (_ ∨ _))

/-- The names along a path after one more segment was read. -/
def read (names : List String) (segment : String) : List String :=
  if segment = "" ∨ segment = "." then names
  else if segment = ".." then names.dropLast
  else names ++ [segment]

/-- The path made of the names that are left when a text has been read. -/
def normalForm (text : String) : String := ((segments text).foldl read []).foldl join root

example : normalForm "/g//./c/../d/x" = "/g/d/x" := by decide +kernel

theorem read_of_plain {names : List String} {segment : String} (hne : segment ≠ "")
    (hplain : ¬ IsDots segment) : read names segment = names ++ [segment] := by
  obtain ⟨hdot, hdots⟩ := not_or.mp hplain
  rw [read, if_neg (by simp [hne, hdot]), if_neg hdots]

/-- Empty segments lead nowhere. -/
theorem foldl_read_segments (path : String) (names : List String) :
    (segments path).foldl read names = (components path).foldl read names := by
  rw [components_eq_filter]
  generalize segments path = segments
  induction segments generalizing names with
  | nil => rfl
  | cons segment rest ih =>
    by_cases hempty : segment = ""
    · rw [List.foldl_cons, List.filter_cons_of_neg (by simp [hempty]), read,
        if_pos (Or.inl hempty), ih]
    · rw [List.foldl_cons, List.filter_cons_of_pos (by simp [hempty]), List.foldl_cons, ih]

theorem foldl_read_of_plain {segments : List String} (hne : ∀ segment ∈ segments, segment ≠ "")
    (hplain : ∀ segment ∈ segments, ¬ IsDots segment) (names : List String) :
    segments.foldl read names = names ++ segments := by
  induction segments generalizing names with
  | nil => simp
  | cons segment rest ih =>
    rw [List.forall_mem_cons] at hne hplain
    rw [List.foldl_cons, read_of_plain hne.1 hplain.1, ih hne.2 hplain.2, List.append_assoc]
    rfl

end GroupFlattening.ObjectPath
