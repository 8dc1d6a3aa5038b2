import GroupFlattening.Hierarchy.Snapshot
import GroupFlattening.Proofs.Dataset.WellFormed
import Mathlib.Data.List.Nodup

/-!
# Snapshots of Datasets

A successful survey numbers the groups of a dataset in the order of the tree: the group with number
`n` is what was surveyed of the `n`-th group on the walk `groupIds` (`forall₂_surveyed`). The tree
of the snapshot follows the paths (`Linked`), so that looking up the path of a variable in the
snapshot leads to what was surveyed of that variable and of no other
(`surveyedVariable_of_findVariable?`).
-/

namespace GroupFlattening.Hierarchy

open ObjectPath (join split)

/-! ## Surveyed groups -/

/-- What a survey knows of a variable of the group at `place`. -/
structure SurveyedVariable (d : Dataset) (place : String) (number : Nat) (v : Dataset.Variable)
    (w : Variable) : Prop where
  name : w.name = v.name
  path : w.path = join place v.name
  group : w.group = number
  dimensions : w.dimensions = v.dimensions
  coordinates : surveyCoordinates d (join place v.name) = .ok w.coordinates

/-- What a survey knows of a group of a dataset. -/
structure Surveyed (d : Dataset) (id number : Nat) (g : Group) : Prop where
  path : g.path = (d.group id).path
  name : g.name = (split (d.group id).path).2
  dimensions : g.dimensions = (d.group id).dimensions.map (·.name)
  vars : List.Forall₂ (SurveyedVariable d (d.group id).path number) (d.group id).vars g.vars
  enclosesItself : g.enclosesItself = false

theorem foldl_addDimension (dims : List Dimension) (g : Group) :
    dims.foldl (fun g dim => g.addDimension dim.name) g =
      { g with dimensions := g.dimensions ++ dims.map (·.name) } := by
  induction dims generalizing g with
  | nil => simp
  | cons dim rest ih => rw [List.foldl_cons, ih]; simp [Group.addDimension]

variable {d : Dataset}

theorem dimensions_eq_ok_iff {path : String} {dims : List Dimension} :
    d.dimensions path = .ok dims ↔
      ∃ id, d.groupId path = .ok id ∧ (d.group id).dimensions = dims := by
  simp only [Dataset.dimensions, Except.bind_eq_ok_iff, Except.pure_eq_ok_iff]

theorem variableInfos_eq_ok_iff {path : String} {infos : List VariableInfo} :
    d.variableInfos path = .ok infos ↔ ∃ id, d.groupId path = .ok id ∧
      List.Forall₂ (fun v info => d.infoOf v = .ok info) (d.group id).vars infos := by
  simp only [Dataset.variableInfos, Except.bind_eq_ok_iff, Except.mapM_eq_ok_iff]

theorem infoOf_eq_ok_iff {v : Dataset.Variable} {info : VariableInfo} :
    d.infoOf v = .ok info ↔ ∃ shape, d.shapeOf v.dimensions = .ok shape ∧
      ⟨v.name, v.type, v.dimensions, shape⟩ = info := by
  simp only [Dataset.infoOf, Except.bind_eq_ok_iff, Except.pure_eq_ok_iff]

/-- A group that can be surveyed by its path has been surveyed. -/
theorem surveyed_of_surveyGroup {id number : Nat} {g : Group}
    (hid : d.groupId (d.group id).path = .ok id) (hpath : (d.group id).path ≠ "")
    (h : surveyGroup d (d.group id).path number = .ok g) : Surveyed d id number g := by
  simp only [surveyGroup, Except.bind_eq_ok_iff, fromStore, Except.mapError_eq_ok_iff] at h
  obtain ⟨dims, hdims, infos, hinfos, hfold⟩ := h
  obtain ⟨i, hi, rfl⟩ := dimensions_eq_ok_iff.mp hdims
  obtain ⟨j, hj, hinfos⟩ := variableInfos_eq_ok_iff.mp hinfos
  obtain rfl := Except.ok.inj (hid.symm.trans hi)
  obtain rfl := Except.ok.inj (hid.symm.trans hj)
  -- the path is not empty, so the survey keeps it as it is
  have hroot : (if ObjectPath.isRoot (d.group id).path then ObjectPath.root
      else (d.group id).path) = (d.group id).path := by
    split
    · next h => exact ((ObjectPath.isRoot_iff.mp h).resolve_right hpath).symm
    · rfl
  rw [foldl_addDimension] at hfold
  -- along the variables: what is there already stays, and each adds what is surveyed of it
  have hI := Except.foldlM_induction
    (I := fun done (g : Group) => g.path = (d.group id).path ∧
      g.name = (split (d.group id).path).2 ∧
      g.dimensions = (d.group id).dimensions.map (·.name) ∧ g.enclosesItself = false ∧
      List.Forall₂ (fun (info : VariableInfo) w => w.name = info.name ∧
        w.path = join (d.group id).path info.name ∧ w.group = number ∧
        w.dimensions = info.dimensions ∧
        surveyCoordinates d (join (d.group id).path info.name) = .ok w.coordinates) done g.vars)
    (fun done info rest g g' _ hg hstep => ?_) ?_ hfold
  · obtain ⟨hgpath, hname, hdims, hself, hvars⟩ := hI
    -- the listing and the survey go through the variables in the same order
    refine ⟨hgpath, hname, hdims, (Forall₂.comp hinfos hvars).imp fun v w hw => ?_, hself⟩
    obtain ⟨info, hinfo, hwname, hwpath, hwgroup, hwdims, hwcoordinates⟩ := hw
    obtain ⟨shape, -, rfl⟩ := infoOf_eq_ok_iff.mp hinfo
    exact ⟨hwname, hwpath, hwgroup, hwdims, hwcoordinates⟩
  · obtain ⟨hgpath, hname, hdims, hself, hvars⟩ := hg
    obtain ⟨coordinates, hcoordinates, hadd⟩ := Except.bind_eq_ok_iff.mp hstep
    obtain rfl := Except.pure_eq_ok_iff.mp hadd
    refine ⟨hgpath, hname, hdims, hself, Forall₂.append hvars (List.Forall₂.cons ?_ .nil)⟩
    exact ⟨rfl, by rw [hgpath], rfl, rfl, hcoordinates⟩
  · exact ⟨hroot, rfl, rfl, rfl, List.Forall₂.nil⟩

/-! ## Trees that follow paths -/

/-- Every group but the roots has the path joined from the group around it and its name, and no
group is inside itself. -/
structure Linked (h : Hierarchy) : Prop where
  path_eq : ∀ i p, h.groups.parent? i = some p →
    (h.group i).path = join (h.group p).path (h.group i).name
  enclosesItself : ∀ i, (h.group i).enclosesItself = false

theorem Linked.parent?_eq {h : Hierarchy} (hh : h.Linked) (i : Nat) :
    h.parent? i = h.groups.parent? i := by
  rw [parent?, hh.enclosesItself, if_neg (by simp)]

theorem Linked.children_eq {h : Hierarchy} (hh : h.Linked) (i : Nat) :
    h.children i = h.groups.children i := by
  rw [children, hh.enclosesItself, if_neg (by simp)]

theorem linked_empty : empty.Linked :=
  ⟨fun i p hp => by simp [empty, Forest.empty, Forest.parent?] at hp, fun i => rfl⟩

section AddGroup

variable {h : Hierarchy} {parent : Option Nat} {g : Group}
  (hparent : ∀ p, parent = some p → p < h.size)

include hparent

/-- A group that is not inside itself is added as it is. -/
theorem groups_addGroup (hself : g.enclosesItself = false) :
    (h.addGroup parent g).groups = h.groups.add parent g := by
  have hne : (parent == some h.size) = false := by
    rw [beq_eq_false_iff_ne]
    intro heq
    exact Nat.lt_irrefl _ (hparent _ heq)
  rw [addGroup, hne, ← hself]

theorem labels_addGroup (hself : g.enclosesItself = false) :
    (h.addGroup parent g).groups.labels = h.groups.labels ++ [g] := by
  rw [groups_addGroup hparent hself, Forest.labels_add hparent]

theorem size_addGroup (hself : g.enclosesItself = false) :
    (h.addGroup parent g).size = h.size + 1 := by
  rw [size, groups_addGroup hparent hself, Forest.size_add hparent]
  rfl

theorem group_addGroup (hself : g.enclosesItself = false) (i : Nat) :
    (h.addGroup parent g).group i = if i = h.size then g else h.group i := by
  rw [group, groups_addGroup hparent hself, Forest.label?_add hparent]
  split <;> simp_all [size, group]

/-- A group whose path is joined from the group around it keeps a tree linked. -/
theorem Linked.addGroup (hh : h.Linked) (hself : g.enclosesItself = false)
    (hpath : ∀ p, parent = some p → g.path = join (h.group p).path g.name) :
    (h.addGroup parent g).Linked := by
  refine ⟨fun i p hp => ?_, fun i => ?_⟩
  · rw [groups_addGroup hparent hself, Forest.parent?_add hparent] at hp
    rw [group_addGroup hparent hself, group_addGroup hparent hself]
    -- the new group, or one that was there
    split at hp
    · next hi =>
      have hi : i = h.size := hi
      have hlt := hparent p hp
      rw [if_pos hi, if_neg (Nat.ne_of_lt hlt)]
      exact hpath p hp
    · next hi =>
      have hlt := Forest.parent?_lt hp
      have hsize : i < h.size := Forest.lt_size_of_parent? hp
      rw [if_neg (Nat.ne_of_lt hsize), if_neg (by omega)]
      exact hh.path_eq i p hp
  · rw [group_addGroup hparent hself]
    split
    · exact hself
    · exact hh.enclosesItself i

end AddGroup

/-! ## Surveys -/

/-- What a survey has added to a tree: the groups surveyed, in the order of the walk. -/
structure Extends (d : Dataset) (ids : List Nat) (h h' : Hierarchy) : Prop where
  added : ∃ added, h'.groups.labels = h.groups.labels ++ added ∧
    List.Forall₂ (fun id entry => Surveyed d id entry.2 entry.1) ids (added.zipIdx h.size)
  linked : h.Linked → h'.Linked

namespace Extends

variable {ids ids' : List Nat} {h h' h'' : Hierarchy}

theorem refl (d : Dataset) (h : Hierarchy) : Extends d [] h h :=
  ⟨⟨[], by simp, List.Forall₂.nil⟩, id⟩

theorem trans (first : Extends d ids h h') (second : Extends d ids' h' h'') :
    Extends d (ids ++ ids') h h'' := by
  obtain ⟨added, hlabels, hadded⟩ := first.added
  obtain ⟨added', hlabels', hadded'⟩ := second.added
  refine ⟨⟨added ++ added', ?_, ?_⟩, second.linked ∘ first.linked⟩
  · rw [hlabels', hlabels, List.append_assoc]
  · have hsize : h'.size = h.size + added.length := by
      have hlength := congrArg List.length hlabels
      rw [List.length_append, Forest.length_labels, Forest.length_labels] at hlength
      exact hlength
    rw [List.zipIdx_append, ← hsize]
    exact Forall₂.append hadded hadded'

theorem size_le (hext : Extends d ids h h') : h.size ≤ h'.size := by
  obtain ⟨added, hlabels, -⟩ := hext.added
  have hlength := congrArg List.length hlabels
  rw [List.length_append, Forest.length_labels, Forest.length_labels] at hlength
  exact Nat.le.intro hlength.symm

/-- What was there before a survey stays as it is. -/
theorem group_eq (hext : Extends d ids h h') {i : Nat} (hi : i < h.size) :
    h'.group i = h.group i := by
  obtain ⟨added, hlabels, -⟩ := hext.added
  rw [group, group, ← Forest.getElem?_labels, hlabels, List.getElem?_append_left,
    Forest.getElem?_labels]
  rw [Forest.length_labels]
  exact hi

end Extends

theorem groupNames_eq_ok_iff {path : String} {names : List String} :
    d.groupNames path = .ok names ↔ ∃ id, d.groupId path = .ok id ∧
      (d.groups.children id).map (fun c => (d.group c).name) = names := by
  simp only [Dataset.groupNames, Except.bind_eq_ok_iff, Except.pure_eq_ok_iff]

/-- A successful survey of a group has surveyed the group itself and then the groups inside it, one
after the other. -/
theorem survey_eq_ok (hd : d.WellFormed) (hnames : d.HasProperGroupNames) {limit : Nat}
    {h h' : Hierarchy} {parent : Option Nat} {depth id : Nat} (hid : id < d.groups.size)
    (hrun : survey d limit h parent depth (d.group id).path = .ok h') :
    depth ≤ limit ∧ ∃ g, Surveyed d id h.size g ∧
      (d.groups.children id).foldlM (fun grown c =>
        survey d limit grown (some h.size) (depth + 1) (join (d.group id).path (d.group c).name))
          (h.addGroup parent g) = .ok h' := by
  rw [survey] at hrun
  split at hrun
  · cases hrun
  · next hdepth =>
    refine ⟨Nat.le_of_not_lt hdepth, ?_⟩
    -- within the limit: the group is surveyed, then its groups in the order of their listing
    obtain ⟨g, hg, hrun⟩ := Except.bind_eq_ok_iff.mp hrun
    obtain ⟨names, hgroupNames, hrun⟩ := Except.bind_eq_ok_iff.mp hrun
    have hpath := hd.groupId_path hnames hid
    refine ⟨g, surveyed_of_surveyGroup hpath (hd.path_ne_empty hid) hg, ?_⟩
    obtain ⟨i, hi, rfl⟩ := groupNames_eq_ok_iff.mp (Except.mapError_eq_ok_iff.mp hgroupNames)
    obtain rfl := Except.ok.inj (hpath.symm.trans hi)
    rw [List.foldlM_map] at hrun
    exact hrun

theorem extends_survey (hd : d.WellFormed) (hnames : d.HasProperGroupNames) {limit : Nat}
    (left : Nat) {h h' : Hierarchy} {parent : Option Nat} {depth id : Nat}
    (hleft : limit + 1 - depth = left) (hid : id < d.groups.size)
    (hparent : ∀ p, parent = some p → p < h.size ∧
      (d.group id).path = join (h.group p).path (split (d.group id).path).2)
    (hrun : survey d limit h parent depth (d.group id).path = .ok h') :
    Extends d (d.groups.subtree id) h h' := by
  -- on how many levels the limit leaves below this group
  induction left generalizing h h' parent depth id with
  -- the depth is used up, so the survey failed
  | zero =>
    obtain ⟨hdepth, -⟩ := survey_eq_ok hd hnames hid hrun
    omega
  | succ left ih =>
    obtain ⟨-, g, hsurveyed, hrun⟩ := survey_eq_ok hd hnames hid hrun
    have hself := hsurveyed.enclosesItself
    have hbelow : ∀ p, parent = some p → p < h.size := fun p hp => (hparent p hp).1
    -- the group itself
    have hhere : Extends d [id] h (h.addGroup parent g) := by
      refine ⟨⟨[g], labels_addGroup hbelow hself, ?_⟩, fun hh => ?_⟩
      · exact List.Forall₂.cons hsurveyed .nil
      · refine hh.addGroup hbelow hself fun p hp => ?_
        rw [hsurveyed.path, hsurveyed.name]
        exact (hparent p hp).2
    -- the groups inside it, one after the other
    have hinside := Except.foldlM_induction
      (I := fun done grown =>
        Extends d (done.flatMap d.groups.subtree) (h.addGroup parent g) grown)
      (fun done c rest b b' hsplit hb hstep => ?_) (Extends.refl d _) hrun
    · rw [Forest.subtree_eq]
      exact hhere.trans hinside
    · have hc : d.groups.parent? c = some id := Forest.mem_children_iff.mp (by simp [hsplit])
      have hcpath := hd.path_eq c id hc
      have hsplitc : split (d.group c).path = ((d.group id).path, (d.group c).name) := by
        rw [hcpath]
        exact ObjectPath.split_join (hd.path_ne_empty hid) (hnames.of_parent? hc).2
      have hgrown : (h.addGroup parent g).size = h.size + 1 := size_addGroup hbelow hself
      rw [List.flatMap_append, List.flatMap_singleton]
      rw [← hcpath] at hstep
      -- the group around the next one is the one just added
      refine hb.trans (ih (by omega) (Forest.lt_size_of_parent? hc) (fun p hp => ?_) hstep)
      obtain rfl := Option.some.inj hp
      have hlt : h.size < (h.addGroup parent g).size := by omega
      refine ⟨Nat.lt_of_lt_of_le hlt hb.size_le, ?_⟩
      rw [hb.group_eq hlt, group_addGroup hbelow hself, if_pos rfl, hsurveyed.path, hsplitc]
      exact hcpath

/-- The groups of a snapshot are the groups of the dataset, in the order of the tree. -/
theorem forall₂_surveyed (hd : d.WellFormed) (hnames : d.HasProperGroupNames) {limit : Nat}
    {h : Hierarchy} (hrun : ofDataset d limit = .ok h) :
    List.Forall₂ (fun id entry => Surveyed d id entry.2 entry.1) d.groupIds
      h.groups.labels.zipIdx ∧ h.Linked := by
  have hroot := hd.path_root
  rw [ofDataset, ← hroot] at hrun
  have hext := extends_survey hd hnames (limit + 1) rfl hd.root_lt (by simp) hrun
  obtain ⟨added, hlabels, hadded⟩ := hext.added
  refine ⟨?_, hext.linked linked_empty⟩
  rw [hlabels]
  exact hadded

/-- The group with a number is what was surveyed of a group of the dataset. -/
theorem exists_surveyed {ids : List Nat} {h : Hierarchy}
    (hsurveyed : List.Forall₂ (fun id entry => Surveyed d id entry.2 entry.1) ids
      h.groups.labels.zipIdx) {n : Nat} {g : Group} (hg : h.groups.label? n = some g) :
    ∃ id ∈ ids, Surveyed d id n g := by
  have hmem : (g, n) ∈ h.groups.labels.zipIdx := by
    rw [List.mem_zipIdx_iff_getElem?, Forest.getElem?_labels]
    exact hg
  exact Forall₂.exists_left hsurveyed hmem

/-- What is listed along the groups of a snapshot is listed along the groups of the dataset. -/
theorem map_labels {α : Type} {ids : List Nat} {h : Hierarchy}
    (hsurveyed : List.Forall₂ (fun id entry => Surveyed d id entry.2 entry.1) ids
      h.groups.labels.zipIdx) {f : Group → α} {item : Nat → α}
    (hitem : ∀ id n g, Surveyed d id n g → item id = f g) :
    h.groups.labels.map f = ids.map item := by
  have hmap := Forall₂.map_eq hsurveyed (f := item) (g := f ∘ Prod.fst)
    fun id entry hentry => hitem id entry.2 entry.1 hentry
  rw [hmap, ← List.map_map, List.zipIdx_map_fst]

theorem path_root (hd : d.WellFormed) {h : Hierarchy}
    (hsurveyed : List.Forall₂ (fun id entry => Surveyed d id entry.2 entry.1) d.groupIds
      h.groups.labels.zipIdx) : (h.group rootId).path = ObjectPath.root := by
  rw [Dataset.groupIds, Forest.subtree_eq, List.forall₂_cons_left_iff] at hsurveyed
  obtain ⟨⟨g, n⟩, rest, hroot, -, heq⟩ := hsurveyed
  have hfirst : (g, n) ∈ h.groups.labels.zipIdx := by
    rw [heq]
    exact List.mem_cons_self
  -- the first group on the walk is the root
  cases hlabels : h.groups.labels with
  | nil => simp [hlabels] at heq
  | cons g' rest =>
    rw [hlabels, List.zipIdx_cons] at heq
    obtain ⟨rfl, rfl⟩ := Prod.mk.inj (List.cons.inj heq).1
    have hlabel : h.groups.label? rootId = some g' := by
      rw [← Forest.getElem?_labels, hlabels]
      rfl
    rw [group, hlabel, ← hd.path_root]
    exact hroot.path

/-! ## Looking up by path -/

theorem child?_eq_some {h : Hierarchy} (hh : h.Linked) {i c : Nat} {name : String}
    (hc : h.child? i name = some c) : (h.group c).path = join (h.group i).path name := by
  have hmem := List.mem_of_find?_eq_some hc
  have hname := List.find?_some hc
  rw [hh.children_eq] at hmem
  rw [hh.path_eq c i (Forest.mem_children_iff.mp hmem), beq_iff_eq.mp hname]

theorem path_of_findGroup? {h : Hierarchy} (hh : h.Linked) {path : String} {n : Nat}
    (hn : h.findGroup? path = some n) :
    (h.group n).path =
      (ObjectPath.components path).foldl join (h.group rootId).path := by
  rw [findGroup?] at hn
  split at hn
  · cases hn
  · generalize ObjectPath.components path = names, rootId = start at hn ⊢
    -- every step of the search goes to a child and joins one name
    induction names generalizing start with
    -- no name left, so the search is where it started
    | nil =>
      obtain rfl := Option.some.inj hn
      rfl
    | cons name rest ih =>
      rw [List.foldlM_cons] at hn
      obtain ⟨c, hc, hrest⟩ := Option.bind_eq_some_iff.mp hn
      rw [ih c hrest, List.foldl_cons, child?_eq_some hh hc]

/-- The path of a variable leads, in a snapshot, to what was surveyed of the variable. -/
theorem surveyedVariable_of_findVariable? (hd : d.WellFormed) (hnames : d.HasProperNames)
    {limit : Nat} {h : Hierarchy} (hrun : ofDataset d limit = .ok h) {id : Nat}
    (hid : id < d.groups.size) {v : Dataset.Variable} (hv : v ∈ (d.group id).vars) {w : Variable}
    (hw : h.findVariable? (join (d.group id).path v.name) = some w) :
    SurveyedVariable d (d.group id).path w.group v w := by
  obtain ⟨hsurveyed, hh⟩ := forall₂_surveyed hd hnames.groups hrun
  rw [findVariable?, ObjectPath.split_join (hd.path_ne_empty hid) (hnames.vars id hid v hv).2] at hw
  obtain ⟨n, hn, hfind⟩ := Option.bind_eq_some_iff.mp hw
  have hwmem := List.mem_of_find?_eq_some hfind
  have hwname : w.name = v.name := by simpa using List.find?_some hfind
  -- the group found is one that was surveyed, since it holds a variable
  obtain ⟨g, hg⟩ : ∃ g, h.groups.label? n = some g := by
    cases hlabel : h.groups.label? n with
    | some g => exact ⟨g, rfl⟩
    | none =>
      have hnil : (default : Group).vars = [] := rfl
      simp [group, hlabel, hnil] at hwmem
  have hgroup : h.group n = g := by rw [group, hg]; rfl
  obtain ⟨i, hi, hsg⟩ := exists_surveyed hsurveyed hg
  -- its path is that of the variable's group, so it is that group
  have hpath := path_of_findGroup? hh hn
  rw [hgroup, hsg.path, path_root hd hsurveyed, hd.foldl_join_components hnames.groups hid] at hpath
  obtain rfl := hd.path_inj hnames.groups (hd.mem_groupIds_iff.mp hi) hid hpath
  rw [hgroup] at hwmem
  obtain ⟨v', hv', hwv'⟩ := Forall₂.exists_left hsg.vars hwmem
  have hname : v'.name = v.name := hwv'.name.symm.trans hwname
  obtain rfl := List.inj_on_of_nodup_map (hd.groups i).vars hv' hv hname
  rw [hwv'.group]
  exact hwv'

end GroupFlattening.Hierarchy
