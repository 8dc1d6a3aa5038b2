import GroupFlattening.Proofs.Dataset.Extension
import GroupFlattening.Proofs.ObjectPath.NormalForm

/-!
# Finding What Was Created

An object is created under any name that its place does not hold yet, and the path that is given
back is joined from the path of the place and the name. Paths are followed by cutting them at
separators, so that path leads to the object just when the name survives the cutting: the name of a
dimension or a variable has no separator, and that of a group is not empty besides. Then the path
leads to the object for good, whatever is done to the dataset afterwards; otherwise no path ever
does (`created_found`).

A place is the number of a group and, for a dimension or a variable, its position among those of the
group (`placeAt?`). Later operations keep it (`WellFormed.extends_applyAll`).
-/

namespace GroupFlattening

namespace ObjectPath

/-- The name behind the cut has no separator. -/
theorem separator_not_mem_split (path : String) : separator ∉ (split path).2.toList := by
  rw [split]
  -- the name is what stands behind the last slash, or the whole text if there is none
  cases hcut : cutAtLast (· == separator) path.toList with
  | none =>
    intro hmem
    simpa using cutAtLast_eq_none_iff.mp hcut separator hmem
  | some parts =>
    obtain ⟨before, after⟩ := parts
    obtain ⟨-, -, -, hafter⟩ := cutAtLast_eq_some hcut
    intro hmem
    cases before <;> simpa using hafter separator (by simpa using hmem)

end ObjectPath

namespace Dataset

open ObjectPath (IsName components join separator split)

/-! ## Groups -/

/-- The group that a path leads to was reached by the names of its own path. -/
theorem WellFormed.components_path {d : Dataset} (hd : d.WellFormed) {path : String} {id : Nat}
    (h : d.groupId path = .ok id) : components (d.group id).path = components path := by
  rw [groupId_eq_ok_iff] at h
  have hproper : ∀ name ∈ components path, IsName name := fun name =>
    ObjectPath.isName_of_mem_components
  generalize components path = names at h hproper
  -- the last name is that of the group, and the names before it lead to its parent
  induction names using List.reverseRecOn generalizing id with
  | nil =>
    -- no names: the group is the root
    obtain rfl : rootId = id := by simpa [descend?] using h
    rw [hd.path_root, ObjectPath.components_root]
  | append_singleton init name ih =>
    rw [descend?_append] at h
    obtain ⟨p, hp, hlast⟩ := Option.bind_eq_some_iff.mp h
    obtain ⟨hchild, rfl⟩ := child?_eq_some (by simpa [descend?] using hlast)
    rw [List.forall_mem_append, List.forall_mem_singleton] at hproper
    rw [hd.path_eq id p (Forest.mem_children_iff.mp hchild),
      ObjectPath.components_join hproper.2, ih hp hproper.1]

/-- The path of a group with a proper name leads to the group if some path leads to its parent. -/
theorem WellFormed.groupId_path_of_parent? {d : Dataset} (hd : d.WellFormed) {path : String}
    {id p : Nat} (hp : d.groups.parent? id = some p) (hname : IsName (d.group id).name)
    (h : d.groupId path = .ok p) : d.groupId (d.group id).path = .ok id := by
  have hchild := hd.child?_name (Forest.mem_children_iff.mpr hp)
  rw [groupId_eq_ok_iff, hd.path_eq id p hp, ObjectPath.components_join hname, descend?_append,
    hd.components_path h, groupId_eq_ok_iff.mp h]
  simpa [descend?] using hchild

/-- Paths lead to groups with proper names only. -/
theorem isName_of_groupId {d : Dataset} {path : String} {id : Nat} (hid : id ≠ rootId)
    (h : d.groupId path = .ok id) : IsName (d.group id).name := by
  rw [groupId_eq_ok_iff] at h
  rcases List.eq_nil_or_concat (components path) with hnil | ⟨init, name, hnames⟩
  -- a path without names leads to the root only
  · rw [hnil] at h
    exact absurd (Option.some.inj h).symm hid
  · rw [hnames, List.concat_eq_append, descend?_append] at h
    obtain ⟨p, -, hlast⟩ := Option.bind_eq_some_iff.mp h
    obtain ⟨-, rfl⟩ := child?_eq_some (by simpa [descend?] using hlast)
    have hmem : (d.group id).name ∈ components path := by simp [hnames]
    exact ObjectPath.isName_of_mem_components hmem

/-- A group is found under the path that it was created with if its name is proper, and under no
path otherwise. -/
theorem found_of_createGroup {d d' : Dataset} (hd : d.WellFormed)
    {parent name path : String} (hcreate : createGroup parent name d = .ok path d')
    {later : Dataset} (hextends : d'.Extends later) :
    (later.group d.groups.size).name = name ∧ (later.group d.groups.size).path = path ∧
      if IsName name then later.groupId path = .ok d.groups.size
      else ∀ q, later.groupId q ≠ .ok d.groups.size := by
  have hd' : d'.WellFormed := by
    have happly := hd.apply (.group parent name)
    rwa [Change.apply, hcreate] at happly
  obtain ⟨p, hcheck, heq⟩ := checked_eq_ok_iff.mp hcreate
  obtain ⟨-, hparent, -⟩ := checkGroup_eq_ok_iff.mp hcheck
  obtain ⟨rfl, hadded⟩ := Prod.mk.inj heq
  obtain rfl : d.withGroup p name (join (d.group p).path name) = d' := hadded
  have hlt := hd.lt_size_of_groupId hparent
  have hnew : (d.withGroup p name (join (d.group p).path name)).group d.groups.size =
      Group.empty name (join (d.group p).path name) := by
    rw [group_withGroup hlt, if_pos rfl]
  -- what later operations keep of the groups before them they keep of the new one
  have hsize := Nat.lt_succ_self d.groups.size
  rw [← Nat.add_one, ← size_withGroup hlt] at hsize
  have hname : (later.group d.groups.size).name = name := by
    rw [hextends.names _ hsize, hnew]
    rfl
  have hpath : (later.group d.groups.size).path = join (d.group p).path name := by
    rw [hextends.paths _ hsize, hnew]
    rfl
  refine ⟨hname, hpath, ?_⟩
  split
  · next hproper =>
    apply hextends.groupIds
    have hfound := hd'.groupId_path_of_parent?
      ((parent?_withGroup hlt _).trans (if_pos rfl)) (by rw [hnew]; exact hproper)
      (groupId_withGroup hlt hparent)
    rwa [hnew] at hfound
  · next hproper =>
    intro q hq
    exact hproper (hname ▸ isName_of_groupId (Nat.ne_of_gt hd.root_lt) hq)

/-! ## Dimensions and variables -/

/-- The group of a variable, and the place of the variable among those of the group. -/
def variableAt? (d : Dataset) (path : String) : Option (Nat × Nat) :=
  placeAt? Group.vars Variable.name d path

section Places

variable {α : Type} {items : Group → List α} {name : α → String}

/-- Where no two items share a name, the place of a name is that of the item that has it. -/
theorem findIdx?_eq_some_iff_of_nodup {xs : List α} (hnodup : (xs.map name).Nodup) {n : String}
    {k : Nat} :
    xs.findIdx? (fun x => name x == n) = some k ↔ ∃ x, xs[k]? = some x ∧ name x = n := by
  rw [List.findIdx?_eq_some_iff_getElem]
  constructor
  · rintro ⟨hk, hname, -⟩
    exact ⟨xs[k], List.getElem?_eq_getElem hk, beq_iff_eq.mp hname⟩
  · rintro ⟨x, hx, rfl⟩
    obtain ⟨hk, rfl⟩ := List.getElem?_eq_some_iff.mp hx
    refine ⟨hk, beq_self_eq_true _, fun j hj hsame => ?_⟩
    -- another item of this name would stand in the same place
    have hkm : k < (xs.map name).length := by rwa [List.length_map]
    have hjm : j < (xs.map name).length := Nat.lt_trans hj hkm
    have hsame : (xs.map name)[j] = (xs.map name)[k] := by simpa using hsame
    exact absurd (hnodup.getElem_inj_iff.mp hsame) (Nat.ne_of_lt hj)

variable {d : Dataset} {id k : Nat}

/-- Where names are unique, an object has the place at which an object of its name stands. -/
theorem placeAt?_eq_some_iff_of_nodup (hnodup : ((items (d.group id)).map name).Nodup)
    {path : String} : placeAt? items name d path = some (id, k) ↔
      d.groupId (split path).1 = .ok id ∧
        ∃ x, (items (d.group id))[k]? = some x ∧ name x = (split path).2 := by
  rw [placeAt?_eq_some_iff, findIdx?_eq_some_iff_of_nodup hnodup]

/-- A name without separators is cut off the path that it was joined to. -/
theorem groupId_split_join {group n : String} (hn : separator ∉ n.toList)
    (hgroup : d.groupId group = .ok id) :
    d.groupId (split (join group n)).1 = .ok id ∧ (split (join group n)).2 = n := by
  -- the root has an empty path besides its own, and the same is joined to either
  by_cases hempty : group = ""
  · subst hempty
    rw [show join "" n = join ObjectPath.root n from rfl, ObjectPath.split_join_root hn,
      groupId_root]
    exact ⟨(groupId_of_isRoot d rfl).symm.trans hgroup, rfl⟩
  · rw [ObjectPath.split_join hempty hn]
    exact ⟨hgroup, rfl⟩

/-- An object is found under the path joined from its group and its name, unless the name has a
separator: then it is found under no path. -/
theorem placeAt?_found {x : α} (hnodup : ((items (d.group id)).map name).Nodup) {group : String}
    (hgroup : d.groupId group = .ok id) (hx : (items (d.group id))[k]? = some x) :
    if separator ∈ (name x).toList then ∀ path, placeAt? items name d path ≠ some (id, k)
    else placeAt? items name d (join group (name x)) = some (id, k) := by
  split
  · next hcut =>
    -- a path is cut at its last slash, so it never ends in a name that holds one
    intro path hplace
    obtain ⟨-, y, hy, hname⟩ := (placeAt?_eq_some_iff_of_nodup hnodup).mp hplace
    obtain rfl := Option.some.inj (hx.symm.trans hy)
    exact ObjectPath.separator_not_mem_split path (hname ▸ hcut)
  · next hfree =>
    obtain ⟨hid, hname⟩ := groupId_split_join hfree hgroup
    exact (placeAt?_eq_some_iff_of_nodup hnodup).mpr ⟨hid, x, hx, hname.symm⟩

/-- The item in the place that a path leads to is the one that is looked up. -/
theorem find?_of_placeAt? (hnodup : ((items (d.group id)).map name).Nodup) {path : String} {x : α}
    (hplace : placeAt? items name d path = some (id, k)) (hx : (items (d.group id))[k]? = some x) :
    d.groupId (split path).1 = .ok id ∧
      (items (d.group id)).find? (fun y => name y == (split path).2) = some x := by
  obtain ⟨hid, y, hy, hname⟩ := (placeAt?_eq_some_iff_of_nodup hnodup).mp hplace
  obtain rfl := Option.some.inj (hx.symm.trans hy)
  refine ⟨hid, ?_⟩
  rw [← hname]
  exact find?_eq_some_of_nodup hnodup (List.mem_of_getElem? hx)

end Places

section Created

variable {d d' later : Dataset} (hd : d.WellFormed) (hlater : later.WellFormed)
  (hextends : d'.Extends later) {group path : String}

include hd hlater hextends

/-- A dimension is found under the path that it was created with, unless its name has a
separator. -/
theorem found_of_addDimension {dim : Dimension} (hadd : addDimension group dim d = .ok path d') :
    ∃ id dim', d.groupId group = .ok id ∧ Grows dim dim' ∧
      (later.group id).dimensions[(d.group id).dimensions.length]? = some dim' ∧
      if separator ∈ dim.name.toList then
        ∀ q, later.dimensionAt? q ≠ some (id, (d.group id).dimensions.length)
      else later.dimensionAt? path = some (id, (d.group id).dimensions.length) ∧
        later.dimension path = .ok dim' := by
  obtain ⟨id, hcheck, heq⟩ := checked_eq_ok_iff.mp hadd
  obtain ⟨hgroup, -⟩ := checkDimension_eq_ok_iff.mp hcheck
  obtain ⟨rfl, rfl⟩ := Prod.mk.inj heq
  have hnew : ((d.appendDimension id dim).group id).dimensions[(d.group id).dimensions.length]? =
      some dim := by
    rw [appendDimension, group_changeGroup_self d (hd.lt_size_of_groupId hgroup)]
    exact List.getElem?_concat_length
  -- later operations leave it in its place and make it longer at most
  obtain ⟨dim', hdim', hgrows⟩ := hextends.dimensions id _ dim hnew
  have hgroup' : later.groupId group = .ok id :=
    hextends.groupIds _ _ ((groupId_changeGroup rfl group).trans hgroup)
  have hnodup := (hlater.groups id).dimensions
  have hfound := placeAt?_found hnodup hgroup' hdim'
  rw [hgrows.name] at hfound
  refine ⟨id, dim', hgroup, hgrows, hdim', ?_⟩
  split at hfound
  · next hcut =>
    rw [if_pos hcut]
    exact hfound
  · next hfree =>
    rw [if_neg hfree]
    exact ⟨hfound, dimension_eq_ok_iff.mpr ⟨id, find?_of_placeAt? hnodup hfound hdim'⟩⟩

/-- A variable is found under the path that it was created with, unless its name has a
separator. -/
theorem found_of_addVariable {name : String} {type : ElementType} {dimensions : List String}
    (hadd : addVariable group name type dimensions d = .ok path d') :
    ∃ id v, d.groupId group = .ok id ∧
      (v.name = name ∧ v.type = type ∧ v.dimensions = dimensions) ∧
      (later.group id).vars[(d.group id).vars.length]? = some v ∧
      if separator ∈ name.toList then
        ∀ q, later.variableAt? q ≠ some (id, (d.group id).vars.length)
      else later.variableAt? path = some (id, (d.group id).vars.length) ∧
        later.findVariable path = .ok (id, v) := by
  obtain ⟨⟨⟩, created, hcreate, hpath⟩ := EStateM.bind_eq_ok_iff.mp hadd
  obtain ⟨rfl, rfl⟩ := EStateM.pure_eq_ok_iff.mp hpath
  obtain ⟨⟨id, shape⟩, hcheck, heq⟩ := checked_eq_ok_iff.mp hcreate
  obtain ⟨hgroup, -, -⟩ := checkVariable_eq_ok_iff.mp hcheck
  obtain ⟨-, rfl⟩ := Prod.mk.inj heq
  -- later operations leave it in its place and keep its description
  obtain ⟨v, hv, hkeeps⟩ := hextends.vars id (d.group id).vars.length
    (Variable.ofDefinition ⟨name, type, dimensions, none⟩ shape) (by
      rw [group_changeGroup_self d (hd.lt_size_of_groupId hgroup)]
      exact List.getElem?_concat_length)
  have hgroup' : later.groupId group = .ok id :=
    hextends.groupIds _ _ ((groupId_changeGroup rfl group).trans hgroup)
  have hnodup := (hlater.groups id).vars
  have hname : v.name = name := hkeeps.name
  have hfound := placeAt?_found hnodup hgroup' hv
  rw [hname] at hfound
  refine ⟨id, v, hgroup, ⟨hname, hkeeps.type, hkeeps.dimensions⟩, hv, ?_⟩
  split at hfound
  · next hcut =>
    rw [if_pos hcut]
    exact hfound
  · next hfree =>
    rw [if_neg hfree]
    exact ⟨hfound, findVariable_eq_ok_iff.mpr (find?_of_placeAt? hnodup hfound hv)⟩

end Created

/-- Whatever is done to a dataset after something was created in it, the path that was given back
leads to what was created, if its name can stand in a path: that of a group is proper, that of a
dimension or a variable has no separator. Otherwise no path leads there. -/
theorem created_found {d d' : Dataset} (hd : d.Reachable) {path : String} (changes : List Change) :
    (∀ parent name, createGroup parent name d = .ok path d' →
      ((d'.applyAll changes).group d.groups.size).name = name ∧
      ((d'.applyAll changes).group d.groups.size).path = path ∧
      if IsName name then (d'.applyAll changes).groupId path = .ok d.groups.size
      else ∀ q, (d'.applyAll changes).groupId q ≠ .ok d.groups.size) ∧
    (∀ group dim, addDimension group dim d = .ok path d' →
      ∃ id dim', d.groupId group = .ok id ∧ Grows dim dim' ∧
        ((d'.applyAll changes).group id).dimensions[(d.group id).dimensions.length]? = some dim' ∧
        if separator ∈ dim.name.toList then
          ∀ q, (d'.applyAll changes).dimensionAt? q ≠ some (id, (d.group id).dimensions.length)
        else (d'.applyAll changes).dimensionAt? path = some (id, (d.group id).dimensions.length) ∧
          (d'.applyAll changes).dimension path = .ok dim') ∧
    (∀ group name type dimensions, addVariable group name type dimensions d = .ok path d' →
      ∃ id v, d.groupId group = .ok id ∧
        (v.name = name ∧ v.type = type ∧ v.dimensions = dimensions) ∧
        ((d'.applyAll changes).group id).vars[(d.group id).vars.length]? = some v ∧
        if separator ∈ name.toList then
          ∀ q, (d'.applyAll changes).variableAt? q ≠ some (id, (d.group id).vars.length)
        else (d'.applyAll changes).variableAt? path = some (id, (d.group id).vars.length) ∧
          (d'.applyAll changes).findVariable path = .ok (id, v)) := by
  -- whatever follows a creation extends the dataset that it made
  have hlater : ∀ change : Change, ((change.apply d).applyAll changes).WellFormed ∧
      (change.apply d).Extends ((change.apply d).applyAll changes) := fun change =>
    ⟨((hd.change change).applyAll changes).wellFormed,
      (hd.change change).wellFormed.extends_applyAll changes⟩
  refine ⟨fun parent name hcreate => ?_, fun group dim hadd => ?_,
    fun group name type dimensions hadd => ?_⟩
  · have hlater := hlater (.group parent name)
    rw [Change.apply, hcreate] at hlater
    exact found_of_createGroup hd.wellFormed hcreate hlater.2
  · have hlater := hlater (.sizedDimension group dim)
    rw [Change.apply, hadd] at hlater
    exact found_of_addDimension hd.wellFormed hlater.1 hlater.2 hadd
  · -- the change creates the variable, and the path is only computed after it
    have hlater := hlater (.variable group ⟨name, type, dimensions, none⟩)
    obtain ⟨⟨⟩, created, hcreate, hpath⟩ := EStateM.bind_eq_ok_iff.mp hadd
    obtain ⟨-, rfl⟩ := EStateM.pure_eq_ok_iff.mp hpath
    rw [Change.apply, hcreate] at hlater
    exact found_of_addVariable hd.wellFormed hlater.1 hlater.2 hadd

/-- A shelf with an atlas on it. -/
def shelf : Dataset := (Dataset.create "shelf" true).applyAll [.group "/" "atlas"]

/-- The sheets of the atlas are found whatever happens to the shelf afterwards. -/
theorem shelf_sheets_found : shelf.Reachable ∧ ∃ path d',
    addVariable "/atlas" "sheets" .short [] shelf = .ok path d' ∧
    ∀ changes, ∃ v, (d'.applyAll changes).findVariable path = .ok (1, v) ∧ v.name = "sheets" := by
  have hshelf : shelf.Reachable := (Reachable.create "shelf" true).applyAll _
  have hsucceeds : EStateM.succeedsWith (fun (_ : String) (_ : Dataset) => true)
      (addVariable "/atlas" "sheets" .short [] shelf) = true := by decide +kernel
  obtain ⟨path, d', hadd, -⟩ := EStateM.exists_of_succeedsWith _ hsucceeds
  refine ⟨hshelf, path, d', hadd, fun changes => ?_⟩
  obtain ⟨id, v, hid, ⟨hname, -⟩, -, hfound⟩ := (created_found hshelf changes).2.2 _ _ _ _ hadd
  have hatlas : shelf.groupId "/atlas" = .ok 1 := by decide +kernel
  obtain rfl := Except.ok.inj (hid.symm.trans hatlas)
  rw [if_neg (by decide)] at hfound
  exact ⟨v, hfound.2, hname⟩

/-- A variable whose name has a separator is created under a path at which nothing is found, and a
group without a name under that of the group around it. -/
theorem shelf_sheet_lost : shelf.Reachable ∧
    (∃ d', addVariable "/atlas" "a/b" .double [] shelf = .ok "/atlas/a/b" d' ∧
      d'.findVariable "/atlas/a/b" = .error (.notFound (.path "/atlas/a"))) ∧
    ∃ d', createGroup "/" "" shelf = .ok "/" d' ∧ d'.groupId "/" = .ok rootId := by
  have hvariable : EStateM.succeedsWith (fun path (d' : Dataset) => path == "/atlas/a/b" &&
      decide (d'.findVariable "/atlas/a/b" = .error (.notFound (.path "/atlas/a"))))
      (addVariable "/atlas" "a/b" .double [] shelf) = true := by decide +kernel
  have hgroup : EStateM.succeedsWith (fun path (_ : Dataset) => path == "/")
      (createGroup "/" "" shelf) = true := by decide +kernel
  obtain ⟨path, d', hadd, hcheck⟩ := EStateM.exists_of_succeedsWith _ hvariable
  obtain ⟨hpath, hlost⟩ := Bool.and_eq_true_iff.mp hcheck
  obtain rfl := beq_iff_eq.mp hpath
  obtain ⟨path', d'', hcreate, hpath'⟩ := EStateM.exists_of_succeedsWith _ hgroup
  obtain rfl := beq_iff_eq.mp hpath'
  exact ⟨(Reachable.create "shelf" true).applyAll _, ⟨d', hadd, of_decide_eq_true hlost⟩, d'',
    hcreate, groupId_root d''⟩

end Dataset

end GroupFlattening
