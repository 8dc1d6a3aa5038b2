import GroupFlattening.Proofs.Hierarchy.Agreement
import GroupFlattening.Proofs.Hierarchy.Store
import GroupFlattening.Proofs.NameTable
import GroupFlattening.Proofs.Resolution.Lateral
import GroupFlattening.Resolution.Resolve

/-!
# What Searches Find

Whatever a search finds, along a relative path, upwards or sideways, is an object that a group of
the hierarchy defines, and its name is the end of the token (`exists_defines_of_mem_lookup`). In a
snapshot such an object has a flat name of its own kind (`exists_find?_of_lookup`), so that a name
of the other kind is never taken for it.
-/

namespace GroupFlattening

namespace Hierarchy

variable {h : Hierarchy} {rule : ReferenceRule} {v : Variable} {kind : ObjectKind}
  {name token path : String}

/-! ## Searches -/

theorem exists_defines_of_lookAt? {place : Nat × Option Nat} {result : Lookup}
    (hlook : h.lookAt? rule kind name place = some result) (hpath : path ∈ result.paths) :
    ∃ id, h.defines id kind name = true ∧ path = h.objectPath id name := by
  unfold lookAt? at hlook
  split at hlook
  -- the group itself has the object
  · next hdefines =>
    cases hlook
    exact ⟨place.1, hdefines, List.mem_singleton.mp hpath⟩
  -- an apex without it is searched sideways
  · split at hlook
    · cases hlook
      obtain ⟨id, -, hid⟩ := exists_of_mem_paths_lateral hpath
      exact ⟨id, hid⟩
    · cases hlook

theorem exists_defines_of_proximity (hpath : path ∈ (h.proximity rule v kind name).paths) :
    ∃ id, h.defines id kind name = true ∧ path = h.objectPath id name := by
  unfold proximity at hpath
  split at hpath
  -- one of the groups around answers
  · next result hresult =>
    obtain ⟨place, -, hplace⟩ := List.exists_of_findSome?_eq_some hresult
    exact exists_defines_of_lookAt? hplace hpath
  -- otherwise the owner of a dimension is searched sideways
  · split at hpath
    · split at hpath
      · obtain ⟨id, -, hid⟩ := exists_of_mem_paths_lateral hpath
        exact ⟨id, hid⟩
      · cases hpath
    · cases hpath

theorem exists_defines_of_relative {start : Nat}
    (hpath : path ∈ (h.relative start kind token).paths) :
    ∃ id name, h.defines id kind name = true ∧ path = h.objectPath id name ∧
      name.toList <:+ token.toList := by
  unfold relative at hpath
  split at hpath
  · cases hpath
  · next directories last hcut =>
    split at hpath
    · cases hpath
    · split at hpath
      -- the walk ends at a group that has the object under the last segment
      · next hlast =>
        obtain ⟨a, -, htoken, -⟩ := ObjectPath.cutAtLast_eq_some hcut
        refine ⟨_, _, hlast.2, List.mem_singleton.mp hpath, directories ++ [a], ?_⟩
        rw [htoken, String.toList_ofList, List.append_assoc]
        rfl
      · cases hpath

/-- What a search for a token comes back with, be it one object or several, are objects of the kind
asked for, and the token ends with their name. -/
theorem exists_defines_of_mem_lookup (hpath : path ∈ (h.lookup rule v kind token).paths) :
    ∃ id name, h.defines id kind name = true ∧ path = h.objectPath id name ∧
      name.toList <:+ token.toList := by
  unfold lookup at hpath
  split at hpath
  · exact exists_defines_of_relative hpath
  · obtain ⟨id, hdefines, hpath⟩ := exists_defines_of_proximity hpath
    exact ⟨id, token, hdefines, hpath, List.suffix_refl _⟩

theorem exists_defines_of_lookup (hfound : h.lookup rule v kind token = .found path) :
    ∃ id name, h.defines id kind name = true ∧ path = h.objectPath id name ∧
      name.toList <:+ token.toList :=
  exists_defines_of_mem_lookup (by rw [hfound]; exact List.mem_singleton_self path)

/-- An object that a token was resolved to among several kinds was found by the search for its own
kind. -/
theorem lookup_of_resolveAmong {kinds : List ObjectKind} {ambiguous : Option (List String)}
    (hresolve : h.resolveAmong rule v token kinds ambiguous = .ok (.object path kind)) :
    kind ∈ kinds ∧ h.lookup rule v kind token = .found path := by
  -- along the kinds, up to the one whose object is the answer
  induction kinds generalizing ambiguous with
  | nil =>
    simp only [resolveAmong, outcomeOfMissing] at hresolve
    split at hresolve
    · cases hresolve
    · split at hresolve <;> cases hresolve
  | cons first rest ih =>
    rw [resolveAmong] at hresolve
    split at hresolve
    · next found hfound =>
      split at hresolve
      · obtain ⟨answer, -, hresolve⟩ := Except.bind_eq_ok_iff.mp hresolve
        split at hresolve
        · cases Except.pure_eq_ok_iff.mp hresolve
          exact ⟨List.mem_cons_self, hfound⟩
        · cases Except.pure_eq_ok_iff.mp hresolve
      · cases hresolve
        exact ⟨List.mem_cons_self, hfound⟩
    · exact (ih hresolve).imp_left (List.mem_cons_of_mem _)
    · exact (ih hresolve).imp_left (List.mem_cons_of_mem _)

/-- A token is ambiguous as it was for an earlier kind, or as it is for one of the kinds. -/
theorem lookup_of_resolveAmong_ambiguous {kinds : List ObjectKind}
    {ambiguous : Option (List String)} {candidates : List String}
    (hresolve : h.resolveAmong rule v token kinds ambiguous = .ok (.ambiguous candidates)) :
    ambiguous = some candidates ∨
      ∃ kind ∈ kinds, h.lookup rule v kind token = .ambiguous candidates := by
  -- along the kinds, for any ambiguous answer of those before
  induction kinds generalizing ambiguous with
  | nil =>
    simp only [resolveAmong, outcomeOfMissing] at hresolve
    split at hresolve
    · cases hresolve
    · split at hresolve
      · cases hresolve
        exact Or.inl rfl
      · cases hresolve
  | cons first rest ih =>
    have hlater {ambiguous' : Option (List String)}
        (hrest : h.resolveAmong rule v token rest ambiguous' = .ok (.ambiguous candidates)) :
        ambiguous' = some candidates ∨
          ∃ kind ∈ first :: rest, h.lookup rule v kind token = .ambiguous candidates :=
      (ih hrest).imp_right fun ⟨kind, hkind, hlookup⟩ =>
        ⟨kind, List.mem_cons_of_mem _ hkind, hlookup⟩
    rw [resolveAmong] at hresolve
    split at hresolve
    · split at hresolve
      · obtain ⟨answer, -, hresolve⟩ := Except.bind_eq_ok_iff.mp hresolve
        split at hresolve <;> cases Except.pure_eq_ok_iff.mp hresolve
      · cases hresolve
    · next found hfound =>
      rcases hlater hresolve with heq | hkind
      · -- the first ambiguous answer stays
        rcases Option.or_eq_some_iff.mp heq with heq | ⟨-, heq⟩
        · exact Or.inl heq
        · cases heq
          exact Or.inr ⟨first, List.mem_cons_self, hfound⟩
      · exact Or.inr hkind
    · exact hlater hresolve

/-- A token is resolved to an object if it is its path or if a search finds it. -/
theorem absolute_or_found_of_resolve (hresolve : h.resolve rule v token = .ok (.object path kind)) :
    ObjectPath.isAbsolute token = true ∧ path = token ∨
      ObjectPath.isAbsolute token = false ∧ h.lookup rule v kind token = .found path := by
  rw [resolve] at hresolve
  split at hresolve
  · next habsolute =>
    cases hresolve
    exact Or.inl ⟨habsolute, rfl⟩
  · next hrelative =>
    exact Or.inr ⟨Bool.eq_false_iff.mpr hrelative, (lookup_of_resolveAmong hresolve).2⟩

/-! ## Flat names -/

/-- A group that defines something is one of the hierarchy. -/
theorem lt_size_of_defines {id : Nat} (hdefines : h.defines id kind name = true) : id < h.size := by
  refine Nat.lt_of_not_le fun hle => ?_
  have hempty : h.group id = default := by
    rw [group, Forest.label?_eq_none_iff.mpr hle]
    rfl
  cases kind <;> simp only [defines, hempty] at hdefines <;> cases hdefines

/-- What a group of a snapshot defines is an object of the dataset. -/
theorem mem_objects_of_defines {d : Dataset} {limit : Nat} (hd : d.WellFormed)
    (hnames : d.HasProperNames) (hrun : ofDataset d limit = .ok h) {n : Nat}
    (hdefines : h.defines n kind name = true) : ((h.group n).path, name) ∈ d.objects kind := by
  obtain ⟨id, hid, hg⟩ := exists_surveyed_of_lt hd hnames hrun (lt_size_of_defines hdefines)
  refine Dataset.mem_located.mpr ⟨id, hd.mem_groupIds_iff.mpr hid, hg.path.symm, ?_⟩
  -- what the surveyed group defines was listed in the dataset
  cases kind with
  | dim => simpa [defines, hg.dimensions, Dataset.Group.objectNames] using hdefines
  | var =>
    obtain ⟨w, hw, rfl⟩ : ∃ w ∈ (h.group n).vars, w.name = name := by
      simpa [defines] using hdefines
    obtain ⟨u, hu, huw⟩ := Forall₂.exists_left hg.vars hw
    exact List.mem_map.mpr ⟨u, hu, huw.name.symm⟩

/-- The name table of a snapshot has a flat name for everything that a group defines. -/
theorem exists_find?_of_defines {σ : Type} [Readable σ] {dataset : σ} {limit : Nat}
    (hrun : ofDataset dataset limit = .ok h) {id : Nat} (hdefines : h.defines id kind name = true) :
    ∃ flat, ((NameTable.ofHierarchy h).ofKind kind).find? (h.objectPath id name) = some flat := by
  have hmem : h.group id ∈ h.groups.labels :=
    mem_labels_iff.mpr ⟨id, lt_size_of_defines hdefines, rfl⟩
  cases kind with
  | dim =>
    have hname : name ∈ (h.group id).dimensions := by simpa [defines] using hdefines
    have hentry : (h.objectPath id name, flatName (h.group id).path name) ∈
        h.groups.labels.flatMap NameTable.dimensionEntries :=
      List.mem_flatMap.mpr ⟨_, hmem, List.mem_map_of_mem hname⟩
    exact SortedMap.exists_find?_ofList hentry
  | var =>
    obtain ⟨w, hw, rfl⟩ : ∃ w ∈ (h.group id).vars, w.name = name := by
      simpa [defines] using hdefines
    obtain ⟨infos, -, hvars⟩ := (surveyedFrom_of_ofDataset hrun _ hmem).vars
    obtain ⟨info, -, hlisted⟩ := Forall₂.exists_left hvars hw
    -- a variable of a snapshot knows its path
    have hpath : w.path = h.objectPath id w.name := by
      rw [hlisted.path, hlisted.name, objectPath]
    have hentry : (w.path, flatName (h.group id).path w.name) ∈
        h.groups.labels.flatMap NameTable.variableEntries :=
      List.mem_flatMap.mpr ⟨_, hmem, List.mem_map_of_mem hw⟩
    rw [← hpath]
    exact SortedMap.exists_find?_ofList hentry

/-- The name table of a snapshot has a flat name for everything that a search finds. -/
theorem exists_find?_of_lookup {σ : Type} [Readable σ] {dataset : σ} {limit : Nat}
    (hrun : ofDataset dataset limit = .ok h) (hfound : h.lookup rule v kind token = .found path) :
    ∃ flat, ((NameTable.ofHierarchy h).ofKind kind).find? path = some flat := by
  obtain ⟨id, name, hdefines, rfl, -⟩ := exists_defines_of_lookup hfound
  exact exists_find?_of_defines hrun hdefines

end Hierarchy

end GroupFlattening
