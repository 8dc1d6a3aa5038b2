import GroupFlattening.FlatName

/-!
# Joining and Splitting Paths

A path made by joining a name to a group path is taken apart again by `split`, and followed by
`components` one name further than the group. Both hold for every group path as long as the name
is free of separators, which is what makes the path of an object determine the object.

A flat name is made of the characters of the object's name, of joiners and hexadecimal digits and,
if it is not too long, of those of the group path (`forall_mem_flatName_iff`). So it never brings a
separator of its own: whatever the group path is, the flat name of a name without separators has
none (`separator_not_mem_flatName`).
-/

namespace GroupFlattening

namespace ObjectPath

/-! ## Cutting a list at its last separator -/

theorem cutAtLast_eq_none_iff {α : Type} {cut : α → Bool} {xs : List α} :
    cutAtLast cut xs = none ↔ ∀ x ∈ xs, cut x = false := by
  induction xs with
  | nil => simp [cutAtLast]
  | cons x rest ih =>
    rw [cutAtLast, List.forall_mem_cons, ← ih]
    cases cutAtLast cut rest with
    | none => simp
    | some parts => simp

theorem cutAtLast_append_cons {α : Type} {cut : α → Bool} {a : α} {before after : List α}
    (ha : cut a = true) (h : ∀ x ∈ after, cut x = false) :
    cutAtLast cut (before ++ a :: after) = some (before, after) := by
  induction before with
  | nil =>
    rw [List.nil_append, cutAtLast, cutAtLast_eq_none_iff.mpr h]
    simp [ha]
  | cons x rest ih => rw [List.cons_append, cutAtLast, ih]

/-- The cut is at an element that satisfies `cut`, and nothing behind it does. -/
theorem cutAtLast_eq_some {α : Type} {cut : α → Bool} {xs before after : List α}
    (h : cutAtLast cut xs = some (before, after)) :
    ∃ a, cut a = true ∧ xs = before ++ a :: after ∧ ∀ x ∈ after, cut x = false := by
  induction xs generalizing before with
  | nil => cases h
  | cons x rest ih =>
    rw [cutAtLast] at h
    split at h
    -- a cut further on comes first
    · next before' after' hrest =>
      obtain ⟨rfl, rfl⟩ := Prod.mk.inj (Option.some.inj h)
      obtain ⟨a, ha, rfl, hafter⟩ := ih hrest
      exact ⟨a, ha, rfl, hafter⟩
    · next hnone =>
      split at h
      -- without one the cut is here, if anywhere
      · next hcut =>
        obtain ⟨rfl, rfl⟩ := Prod.mk.inj (Option.some.inj h)
        exact ⟨x, hcut, rfl, cutAtLast_eq_none_iff.mp hnone⟩
      · cases h

/-! ## Joining -/

theorem isRoot_iff {path : String} : isRoot path = true ↔ path = root ∨ path = "" := by
  simp [isRoot]

@[simp] theorem isRoot_root : isRoot root = true := rfl

theorem toList_join (group name : String) :
    (join group name).toList =
      (if isRoot group then [] else group.toList) ++ separator :: name.toList := by
  rw [join]
  split <;> simp [separator]

theorem isAbsolute_join {group : String} (hgroup : isAbsolute group = true) (name : String) :
    isAbsolute (join group name) = true := by
  rw [isAbsolute, toList_join]
  split
  · rfl
  · rw [isAbsolute] at hgroup
    cases hlist : group.toList with
    | nil => simp
    | cons c rest => simpa [hlist] using hgroup

theorem join_ne_empty (group name : String) : join group name ≠ "" := by
  intro h
  have hlist := congrArg String.toList h
  rw [toList_join] at hlist
  simp at hlist

/-- A separator-free name and the group it was joined to are found again. -/
theorem split_join {group name : String} (hgroup : group ≠ "") (hname : separator ∉ name.toList) :
    split (join group name) = (group, name) := by
  have hcut : cutAtLast (· == separator) (join group name).toList =
      some (if isRoot group then [] else group.toList, name.toList) := by
    rw [toList_join]
    refine cutAtLast_append_cons (by simp) fun c hc => ?_
    simp only [beq_eq_false_iff_ne, ne_eq]
    rintro rfl
    exact hname hc
  rw [split, hcut]
  by_cases hroot : isRoot group
  -- the root itself
  · rcases isRoot_iff.mp hroot with rfl | h
    · simp
    · exact absurd h hgroup
  · -- a group path other than the root is not empty, so the second branch is passed over
    have hne : group.toList ≠ [] := fun h => hgroup (String.toList_eq_nil_iff.mp h)
    simp only [hroot]
    cases hlist : group.toList with
    | nil => exact absurd hlist hne
    | cons c rest => simp [← hlist]

theorem split_join_root {name : String} (hname : separator ∉ name.toList) :
    split (join root name) = (root, name) := split_join (by decide) hname

theorem join_inj {group group' name name' : String} (hgroup : group ≠ "") (hgroup' : group' ≠ "")
    (hname : separator ∉ name.toList) (hname' : separator ∉ name'.toList)
    (h : join group name = join group' name') : group = group' ∧ name = name' := by
  have hsplit := congrArg split h
  rw [split_join hgroup hname, split_join hgroup' hname'] at hsplit
  exact Prod.mk.inj hsplit

/-- Whatever a path was joined from, it ends with the name that is free of separators. -/
theorem suffix_of_join_eq {group group' name name' : String} (hname : separator ∉ name.toList)
    (h : join group name = join group' name') : name.toList <:+ name'.toList := by
  have hlist := congrArg String.toList h
  rw [toList_join, toList_join] at hlist
  -- both names end the same path, so one of them ends the other
  have hends : name.toList <:+ (if isRoot group then [] else group.toList) ++
      separator :: name.toList := ⟨_, List.append_assoc _ [separator] _⟩
  have hends' : separator :: name'.toList <:+ (if isRoot group then [] else group.toList) ++
      separator :: name.toList := ⟨_, hlist.symm⟩
  rcases List.suffix_or_suffix_of_suffix hends hends' with hsuffix | hsuffix
  -- the name is free of separators, so it ends before the one of the other
  · rcases List.suffix_cons_iff.mp hsuffix with heq | hsuffix
    · exact absurd (heq ▸ List.mem_cons_self) hname
    · exact hsuffix
  · exact absurd (hsuffix.subset List.mem_cons_self) hname

/-! ## Following a path -/

@[simp] theorem components_root : components root = [] := by decide +kernel

@[simp] theorem components_empty : components "" = [] := by decide +kernel

theorem components_of_isRoot {path : String} (h : isRoot path = true) : components path = [] := by
  rcases isRoot_iff.mp h with rfl | rfl
  · exact components_root
  · exact components_empty

/-- Following a joined path is following the group path and then one name more. -/
theorem components_join {group name : String} (hname : IsName name) :
    components (join group name) = components group ++ [name] := by
  obtain ⟨hne, hfree⟩ := hname
  -- a proper name is one component
  have hlast : (name.toList.splitOn separator).filter (fun part => !part.isEmpty) =
      [name.toList] := by
    rw [List.splitOn_eq_singleton hfree]
    simp [String.toList_eq_nil_iff, hne]
  -- in front of it are those of the group
  have hprefix : ((((if isRoot group then [] else group.toList).splitOn separator).filter
      fun part => !part.isEmpty).map String.ofList) = components group := by
    split
    · next hroot => rw [components_of_isRoot hroot]; simp
    · rfl
  rw [components, toList_join, List.splitOn_append_cons_self, List.filter_append,
    List.map_append, hprefix, hlast]
  simp

end ObjectPath

/-! ## Flat names -/

namespace FlatName

open ObjectPath (separator)

section Characters

variable {P : Char → Prop} (hjoiner : ∀ c ∈ joiner.toList, P c)

include hjoiner

/-- The group part is made of joiners and the characters of the path that are no separators. -/
theorem forall_mem_groupPart_iff (group : String) : (∀ c ∈ (groupPart group).toList, P c) ↔
    ∀ c ∈ group.toList, c ≠ separator → P c := by
  simp only [groupPart, String.toList_ofList, List.mem_flatMap, forall_exists_index, and_imp]
  constructor
  · intro h c hc hne
    -- only separators are dropped
    have hkept : c ∈ group.toList.dropWhile (· == separator) := by
      rw [← List.takeWhile_append_dropWhile (p := (· == separator)) (l := group.toList)] at hc
      refine (List.mem_append.mp hc).resolve_left fun hdropped => hne ?_
      simpa using List.all_eq_true.mp List.all_takeWhile c hdropped
    exact h c c hkept (by simp [hne])
  · intro h c d hd hc
    split at hc
    · exact hjoiner c hc
    · next hne =>
      obtain rfl := List.mem_singleton.mp hc
      exact h c ((List.dropWhile_sublist _).subset hd) (by simpa using hne)

variable (hdigit : ∀ n < 16, P (Digest.hexDigit n))

include hdigit

omit hjoiner in
/-- A digest is made of hexadecimal digits. -/
theorem forall_mem_digest (text : String) : ∀ c ∈ (digest text).toList, P c := by
  simp only [digest, Digest.hex, String.toList_ofList, List.mem_flatMap, forall_exists_index,
    and_imp]
  intro c byte _ hmem
  have hbyte : byte.toNat < 256 := byte.toNat_lt
  rcases List.mem_cons.mp hmem with rfl | h
  · exact hdigit _ (by omega)
  · obtain rfl := List.mem_singleton.mp h
    exact hdigit _ (Nat.mod_lt _ (by decide))

/-- Where the name of the object has only certain characters, the flat name has others just when the
path of the group has some and stands in the flat name. -/
theorem forall_mem_flatName_iff {group base : String} (hbase : ∀ c ∈ base.toList, P c) :
    (∀ c ∈ (flatName group base).toList, P c) ↔ ObjectPath.isRoot group = true ∨
      lengthLimit ≤ (joined group base).length ∨ ∀ c ∈ group.toList, c ≠ separator → P c := by
  have happend : ∀ head : String, (∀ c ∈ (head ++ joiner ++ base).toList, P c) ↔
      ∀ c ∈ head.toList, P c := by
    intro head
    simp only [String.toList_append, List.forall_mem_append]
    exact ⟨fun h => h.1.1, fun h => ⟨⟨h, hjoiner⟩, hbase⟩⟩
  rw [flatName]
  split
  -- at the root the flat name is the base name
  · next hroot => exact iff_of_true hbase (Or.inl hroot)
  · next hroot =>
    rw [or_iff_right hroot]
    split
    · next hshort =>
      rw [or_iff_right (Nat.not_le.mpr hshort), joined, happend,
        forall_mem_groupPart_iff hjoiner]
    · next hlong =>
      -- a long name holds digests in place of the group, and digests are digits
      refine iff_of_true ?_ (Or.inl (Nat.not_lt.mp hlong))
      split
      · exact (happend _).mpr (forall_mem_digest hdigit group)
      · exact forall_mem_digest hdigit _

end Characters

/-- A digest has twenty bytes, with two digits each. -/
theorem length_digest (text : String) : (digest text).length = 40 := by
  rw [digest, String.length_ofList, Digest.length_hex, Digest.length_sha1]

end FlatName

open ObjectPath FlatName in
/-- The flat name of a separator-free name has no separator. -/
theorem separator_not_mem_flatName {group base : String} (hbase : separator ∉ base.toList) :
    separator ∉ (flatName group base).toList := by
  have hjoiner : separator ∉ joiner.toList := by decide
  have hdigit : ∀ n < 16, Digest.hexDigit n ≠ separator := by decide
  have hflat : ∀ c ∈ (flatName group base).toList, c ≠ separator :=
    (forall_mem_flatName_iff (P := (· ≠ separator)) (fun c hc heq => hjoiner (heq ▸ hc)) hdigit
      fun c hc heq => hbase (heq ▸ hc)).mpr (Or.inr (Or.inr fun c _ hne => hne))
  exact fun hmem => hflat separator hmem rfl

theorem flatName_ne_empty {group base : String} (hbase : base ≠ "") : flatName group base ≠ "" := by
  rw [flatName]
  split
  · exact hbase
  · -- every other form has characters of its own
    split
    · simp [FlatName.joined, FlatName.joiner, ← String.toList_eq_nil_iff]
    · split
      · simp [FlatName.hashed, FlatName.joiner, ← String.toList_eq_nil_iff]
      · intro hempty
        have hlength := FlatName.length_digest (FlatName.joined group base)
        rw [hempty] at hlength
        cases hlength

end GroupFlattening
