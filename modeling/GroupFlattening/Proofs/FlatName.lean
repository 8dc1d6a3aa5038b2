import GroupFlattening.Proofs.ObjectPath
import Mathlib.Data.List.Infix

/-!
# Flat Names Without Collisions

A flat name that is not shortened consists of the names on the way to the object, with a joiner
between any two (`flatName_eq_intercalate`). Where it is cut again is clear as long as no name has a
joiner in it or begins with an underscore: a name may end with one, and then the last two
underscores of three are the joiner (`append_inj_of_isTail`). So two objects of such names share a
flat name only if one of the names is shortened (`flatName_eq_iff`).

Names that would be too long are shortened wherever they come from a group other than the root. An
object of the root keeps its name, and this is the one way in which a flat name can reach the limit
(`flatName_bounded`).
-/

namespace GroupFlattening

/-- The path with the given names along it. -/
def ObjectPath.ofNames (names : List String) : String := "/" ++ "/".intercalate names

namespace FlatName

/-! ## Names that can be told apart -/

/-- Names that can be told apart when they are joined. -/
structure IsPlain (name : String) : Prop where
  isName : ObjectPath.IsName name
  /-- No joiner is part of the name. -/
  joiner_free : ¬ joiner.toList <:+: name.toList
  front_ne : name.toList.head? ≠ some '_'

instance (name : String) : Decidable (IsPlain name) :=
  decidable_of_iff (ObjectPath.IsName name ∧ ¬ joiner.toList <:+: name.toList ∧
    name.toList.head? ≠ some '_')
    ⟨fun h => ⟨h.1, h.2.1, h.2.2⟩, fun h => ⟨h.isName, h.joiner_free, h.front_ne⟩⟩

/-- What can stand behind a name: nothing, or a joiner and then something that does not begin with
an underscore. -/
def IsTail (tail : List Char) : Prop :=
  tail = [] ∨ ∃ c rest, tail = '_' :: '_' :: c :: rest ∧ c ≠ '_'

/-- No tail begins inside a name. -/
theorem eq_nil_of_isTail {name more tail : List Char} (hname : ¬ joiner.toList <:+: name ++ more)
    (hmore : IsTail (more ++ tail)) (htail : IsTail tail) : more = [] := by
  rcases hmore with hnil | ⟨c, rest, hcut, hc⟩
  · exact (List.append_eq_nil_iff.mp hnil).1
  -- the rest of the name can have no character, one, or more
  · match more with
    | [] => rfl
    | [d] =>
      -- the tail begins with the second underscore, and has no other one
      obtain ⟨-, rfl⟩ := List.cons.inj hcut
      rcases htail with hnil | ⟨c', rest', hcut', -⟩
      · cases hnil
      · obtain ⟨-, hcut'⟩ := List.cons.inj hcut'
        exact absurd (List.cons.inj hcut').1 hc
    | d :: e :: more =>
      -- the whole joiner would be part of the name
      simp only [List.cons_append, List.cons.injEq] at hcut
      obtain ⟨rfl, rfl, -⟩ := hcut
      exact absurd ⟨name, more, by simp [joiner]⟩ hname

/-- A name without a joiner and the tail behind it can be told apart. -/
theorem append_inj_of_isTail {name name' tail tail' : List Char}
    (hname : ¬ joiner.toList <:+: name) (hname' : ¬ joiner.toList <:+: name') (htail : IsTail tail)
    (htail' : IsTail tail') (h : name ++ tail = name' ++ tail') : name = name' ∧ tail = tail' := by
  rcases List.append_eq_append_iff.mp h with ⟨more, rfl, rfl⟩ | ⟨more, rfl, rfl⟩
  · obtain rfl := eq_nil_of_isTail hname' htail htail'
    simp
  · obtain rfl := eq_nil_of_isTail hname htail' htail
    simp

/-! ## Joined names -/

/-- Names with a joiner in front of each. -/
def behind (names : List String) : List Char :=
  names.flatMap fun name => joiner.toList ++ name.toList

/-- What stands behind a name is nothing, or begins with the joiner and no third underscore. -/
theorem isTail_behind {names : List String} (hnames : ∀ name ∈ names, IsPlain name) :
    IsTail (behind names) := by
  cases names with
  | nil => exact Or.inl rfl
  | cons name rest =>
    have hplain := hnames name List.mem_cons_self
    cases hlist : name.toList with
    | nil => exact absurd (String.toList_eq_nil_iff.mp hlist) hplain.isName.1
    | cons c chars =>
      have hc : c ≠ '_' := by simpa [hlist] using hplain.front_ne
      exact Or.inr ⟨c, chars ++ behind rest, by simp [behind, hlist, joiner], hc⟩

/-- Joined names can be told apart. -/
theorem behind_inj {names names' : List String} (hnames : ∀ name ∈ names, IsPlain name)
    (hnames' : ∀ name ∈ names', IsPlain name) (h : behind names = behind names') :
    names = names' := by
  induction names generalizing names' with
  | nil =>
    cases names' with
    | nil => rfl
    | cons name' rest' => simp [behind, joiner] at h
  | cons name rest ih =>
    cases names' with
    | nil => simp [behind, joiner] at h
    | cons name' rest' =>
      rw [List.forall_mem_cons] at hnames hnames'
      have hcut : name.toList ++ behind rest = name'.toList ++ behind rest' := by
        simpa [behind] using h
      obtain ⟨hname, hrest⟩ := append_inj_of_isTail hnames.1.joiner_free hnames'.1.joiner_free
        (isTail_behind hnames.2) (isTail_behind hnames'.2) hcut
      rw [String.toList_inj.mp hname, ih hnames.2 hnames'.2 hrest]

/-- Joined items are the first one and each further one behind a joiner. -/
theorem intercalate_cons {α : Type} (between first : List α) (rest : List (List α)) :
    between.intercalate (first :: rest) = first ++ rest.flatMap fun next => between ++ next := by
  induction rest generalizing first with
  | nil => simp
  | cons next rest ih => rw [List.intercalate_cons_cons, ih]; simp

/-- With a joiner in front, joined names are each behind a joiner. -/
theorem joiner_intercalate {names : List String} (hne : names ≠ []) :
    joiner.toList ++ (joiner.intercalate names).toList = behind names := by
  cases names with
  | nil => exact absurd rfl hne
  | cons name rest => simp [intercalate_cons, behind, List.flatMap_map]

/-! ## Group paths -/

/-- Only the separators of a path are replaced. -/
theorem flatMap_separator {name : List Char} (hname : ObjectPath.separator ∉ name) :
    (name.flatMap fun c => if c == ObjectPath.separator then joiner.toList else [c]) = name := by
  induction name with
  | nil => rfl
  | cons c rest ih =>
    rw [List.mem_cons, not_or] at hname
    rw [List.flatMap_cons, ih hname.2, if_neg (by simpa using Ne.symm hname.1),
      List.singleton_append]

/-- The group part of a path is its names, joined. -/
theorem groupPart_ofNames {names : List String} (hnames : ∀ name ∈ names, ObjectPath.IsName name) :
    groupPart (ObjectPath.ofNames names) = joiner.intercalate names := by
  cases names with
  | nil => decide +kernel
  | cons name rest =>
    rw [List.forall_mem_cons] at hnames
    have hlist : (ObjectPath.ofNames (name :: rest)).toList = ObjectPath.separator ::
        (name.toList ++ rest.flatMap fun next => ObjectPath.separator :: next.toList) := by
      simp [ObjectPath.ofNames, intercalate_cons, List.flatMap_map, ObjectPath.separator]
    -- the first name stops the search for leading separators
    have hdrop : (ObjectPath.ofNames (name :: rest)).toList.dropWhile (· == ObjectPath.separator) =
        name.toList ++ rest.flatMap fun next => ObjectPath.separator :: next.toList := by
      cases hname : name.toList with
      | nil => exact absurd (String.toList_eq_nil_iff.mp hname) hnames.1.1
      | cons c chars =>
        have hc : c ≠ ObjectPath.separator := fun heq => hnames.1.2 (by simp [hname, heq])
        simp [hlist, hname, hc]
    -- in a further name only the slash in front of it is replaced
    have hrest : ∀ next ∈ rest, (ObjectPath.separator :: next.toList).flatMap
        (fun c => if c == ObjectPath.separator then joiner.toList else [c]) =
        joiner.toList ++ next.toList := fun next hnext => by
      rw [List.flatMap_cons, flatMap_separator (hnames.2 next hnext).2, if_pos (beq_self_eq_true _)]
    rw [← String.toList_inj, groupPart, hdrop, String.toList_ofList, List.flatMap_append,
      flatMap_separator hnames.1.2, List.flatMap_assoc, List.flatMap_congr hrest]
    simp [intercalate_cons, List.flatMap_map]

/-- One more name is joined behind the others. -/
theorem intercalate_concat {names : List String} (hne : names ≠ []) (base : String) :
    joiner.intercalate (names ++ [base]) = joiner.intercalate names ++ joiner ++ base := by
  cases names with
  | nil => exact absurd rfl hne
  | cons name rest => simp [← String.toList_inj, intercalate_cons]

end FlatName

open FlatName ObjectPath

/-- The path of no names is the root, and no other one is. -/
theorem isRoot_ofNames {names : List String} (hnames : ∀ name ∈ names, IsName name) :
    isRoot (ofNames names) = true ↔ names = [] := by
  cases names with
  | nil => exact iff_of_true (by decide +kernel) rfl
  | cons name rest =>
    have hne := (hnames name List.mem_cons_self).1
    simp [isRoot_iff, ofNames, root, ← String.toList_inj, intercalate_cons, hne]

/-- The flat name of an object is made of all names on the way to it, unless it is shortened. -/
theorem flatName_eq_intercalate {names : List String} {base : String}
    (hnames : ∀ name ∈ names, IsName name)
    (hshort : (joiner.intercalate (names ++ [base])).length < lengthLimit) :
    flatName (ofNames names) base = joiner.intercalate (names ++ [base]) := by
  by_cases hnil : names = []
  -- in the root the name is left alone, and so it is joined to nothing
  · subst hnil
    rw [flatName, if_pos ((isRoot_ofNames hnames).mpr rfl)]
    simp
  · have hjoined : joined (ofNames names) base = joiner.intercalate (names ++ [base]) := by
      rw [joined, groupPart_ofNames hnames, intercalate_concat hnil]
    rw [flatName, if_neg (hnil ∘ (isRoot_ofNames hnames).mp), hjoined, if_pos hshort]

/-- Two objects of names that can be told apart have different flat names, unless one of these is
shortened. -/
theorem flatName_eq_iff {names names' : List String} {base base' : String}
    (hplain : ∀ name ∈ names ++ [base], IsPlain name)
    (hplain' : ∀ name ∈ names' ++ [base'], IsPlain name)
    (hshort : (joiner.intercalate (names ++ [base])).length < lengthLimit)
    (hshort' : (joiner.intercalate (names' ++ [base'])).length < lengthLimit) :
    flatName (ofNames names) base = flatName (ofNames names') base' ↔
      names = names' ∧ base = base' := by
  refine ⟨fun h => ?_, fun ⟨hnames, hbase⟩ => by rw [hnames, hbase]⟩
  have hisName {names : List String} {base : String} (h : ∀ name ∈ names ++ [base], IsPlain name) :
      ∀ name ∈ names, IsName name := fun name hmem => (h name (List.mem_append_left _ hmem)).isName
  rw [flatName_eq_intercalate (hisName hplain) hshort,
    flatName_eq_intercalate (hisName hplain') hshort'] at h
  -- behind a joiner each, the names can be told apart from the left
  have hbehind : behind (names ++ [base]) = behind (names' ++ [base']) := by
    rw [← joiner_intercalate (by simp), ← joiner_intercalate (by simp), h]
  obtain ⟨hnames, hbase⟩ := List.append_inj' (behind_inj hplain hplain' hbehind) rfl
  exact ⟨hnames, List.singleton_inj.mp hbase⟩

/-- A name that ends with an underscore is not mistaken for one that is followed by a name with an
underscore at its front. -/
theorem flatName_eq_iff_underscores :
    (∀ name ∈ ["a_"] ++ ["b"], IsPlain name) ∧ (∀ name ∈ ["a", "b_"] ++ ["c"], IsPlain name) ∧
      (flatName (ofNames ["a_"]) "b" = flatName (ofNames ["a", "b_"]) "c" ↔
        ["a_"] = ["a", "b_"] ∧ "b" = "c") :=
  ⟨by decide +kernel, by decide +kernel, flatName_eq_iff (by decide +kernel) (by decide +kernel)
    (by decide +kernel) (by decide +kernel)⟩

example : flatName "/a_" "b" = flatName "/a" "_b" ∧ flatName "/a__b" "c" = flatName "/a/b" "c" := by
  decide +kernel

/-! ## Length -/

/-- Below the root, names that would be too long are shortened. -/
theorem length_flatName_lt {group : String} (hgroup : ¬ isRoot group = true) (base : String) :
    (flatName group base).length < lengthLimit := by
  rw [flatName, if_neg hgroup]
  split
  · next hshort => exact hshort
  · split
    · next hhashed => exact hhashed
    · rw [length_digest]
      decide

/-- The flat name of a name without separators has none, and it has fewer characters than the limit,
unless it is the name of an object of the root that has not. -/
theorem flatName_bounded {group base : String} (hbase : separator ∉ base.toList) :
    separator ∉ (flatName group base).toList ∧
      ((flatName group base).length < lengthLimit ↔
        (isRoot group = true → base.length < lengthLimit)) := by
  refine ⟨separator_not_mem_flatName hbase, ?_⟩
  by_cases hroot : isRoot group = true
  · -- objects of the root keep their names
    rw [flatName, if_pos hroot]
    simp only [hroot, forall_const]
  · exact iff_of_true (length_flatName_lt hroot base) fun h => absurd h hroot

/-- The characters are counted, not their bytes: the joined name just reaches the limit, and with
the digest of the group in front it is too long as well. -/
theorem flatName_bounded_at_limit :
    (joined "/g" (String.ofList (List.replicate 253 'é'))).length = lengthLimit ∧
      separator ∉ (String.ofList (List.replicate 253 'é')).toList ∧
      separator ∉ (flatName "/g" (String.ofList (List.replicate 253 'é'))).toList ∧
      ((flatName "/g" (String.ofList (List.replicate 253 'é'))).length < lengthLimit ↔
        (isRoot "/g" = true → (String.ofList (List.replicate 253 'é')).length < lengthLimit)) := by
  have hpart : groupPart "/g" = "g" := by decide +kernel
  have hfree : separator ∉ (String.ofList (List.replicate 253 'é')).toList := by
    rw [String.toList_ofList, List.mem_replicate]
    rintro ⟨-, heq⟩
    exact absurd heq (by decide)
  refine ⟨?_, hfree, flatName_bounded hfree⟩
  rw [joined, hpart, String.length_append, String.length_ofList, List.length_replicate]
  rfl

/-- A long name in the root is not shortened. -/
theorem long_name_kept_in_root :
    separator ∉ (String.ofList (List.replicate 256 'x')).toList ∧
      flatName "/" (String.ofList (List.replicate 256 'x')) =
        String.ofList (List.replicate 256 'x') ∧
      ¬ (flatName "/" (String.ofList (List.replicate 256 'x'))).length < lengthLimit := by
  have hkept : flatName "/" (String.ofList (List.replicate 256 'x')) =
      String.ofList (List.replicate 256 'x') := if_pos (by decide)
  refine ⟨?_, hkept, ?_⟩
  · rw [String.toList_ofList, List.mem_replicate]
    rintro ⟨-, heq⟩
    exact absurd heq (by decide)
  · rw [hkept, String.length_ofList, List.length_replicate]
    decide

end GroupFlattening
