import GroupFlattening.Proofs.Dataset.Missing
import GroupFlattening.Proofs.Dataset.Reachable
import GroupFlattening.Proofs.Forest.Preorder
import GroupFlattening.Proofs.Hierarchy.Complete

/-!
# Snapshots Agree with Their Datasets

The survey of a dataset whose names are proper and whose coordinates are texts has one way to fail:
it ends at the first group, in preorder, that is nested deeper than the limit (`SurveyEnds`). Where
it succeeds, the snapshot is the tree of the dataset again (`Mirrors`): the same groups in the same
order, each inside the group that its path names, with the same dimensions and variables, and every
path in it leads back to what has the path.

The survey goes down the tree as the dataset holds it, so how it ends is found by induction on the
children of a group. That lookups return the very group they should rests on the paths of the
groups being distinct (`eq_of_path_eq`), since no two groups inside one group share a name.
-/

namespace GroupFlattening

open ObjectPath (join split)

/-- Whether a value is a text or a list of texts. -/
def AttributeValue.isTextual : AttributeValue → Bool
  | .text _ => true
  | .texts _ => true
  | _ => false

theorem AttributeValue.exists_referenceText {value : AttributeValue} (h : value.isTextual = true)
    (name : String) : ∃ text, value.referenceText name = .ok text := by
  cases value with
  | text value => exact ⟨value, rfl⟩
  | texts values => exact ⟨_, rfl⟩
  | _ => cases h

/-- Whether every attribute that lists coordinates is a text or a list of texts. -/
def Dataset.HasTextualCoordinates (d : Dataset) : Prop :=
  ∀ id < d.groups.size, ∀ v ∈ (d.group id).vars,
    (Attributes.find? v.attributes Hierarchy.coordinatesName).all (·.isTextual) = true

instance (d : Dataset) : Decidable d.HasTextualCoordinates :=
  inferInstanceAs (Decidable (∀ id < d.groups.size, ∀ v ∈ (d.group id).vars,
    (Attributes.find? v.attributes Hierarchy.coordinatesName).all (·.isTextual) = true))

/-- The paths of the groups are those that a walk with a stack meets. -/
theorem Dataset.groupPaths_eq_walk (d : Dataset) :
    d.groupPaths = (d.groups.walk [rootId]).map fun id => (d.group id).path := by
  rw [Forest.walk_singleton]
  rfl

namespace Hierarchy

variable {d : Dataset}

/-! ## How a survey ends -/

/-- The first of the groups that is nested deeper than the limit. -/
def firstTooDeep? (d : Dataset) (limit : Nat) (ids : List Nat) : Option Nat :=
  ids.find? fun id => limit < d.groups.depth id

theorem firstTooDeep?_cons (limit id : Nat) (ids : List Nat) :
    firstTooDeep? d limit (id :: ids) =
      if limit < d.groups.depth id then some id else firstTooDeep? d limit ids := by
  simp [firstTooDeep?, List.find?_cons]
  split <;> simp_all

theorem firstTooDeep?_append (limit : Nat) (ids ids' : List Nat) :
    firstTooDeep? d limit (ids ++ ids') =
      (firstTooDeep? d limit ids).or (firstTooDeep? d limit ids') := List.find?_append

theorem firstTooDeep?_eq_none_iff {limit : Nat} {ids : List Nat} :
    firstTooDeep? d limit ids = none ↔ ∀ id ∈ ids, d.groups.depth id ≤ limit := by
  simp [firstTooDeep?]

/-- How a survey of groups ends: with a hierarchy, or at the first group that is too deep. -/
inductive SurveyEnds (d : Dataset) (limit : Nat) (ids : List Nat) :
    Except Fault Hierarchy → Prop where
  | complete (hdeep : firstTooDeep? d limit ids = none) (h : Hierarchy) :
      SurveyEnds d limit ids (.ok h)
  | tooDeep (id : Nat) (hdeep : firstTooDeep? d limit ids = some id) :
      SurveyEnds d limit ids (.error (.groupDepthExceeded (d.group id).path limit))

/-- A group that is not too deep leaves it to the groups after it. -/
theorem SurveyEnds.cons {limit id : Nat} {ids : List Nat} {result : Except Fault Hierarchy}
    (hid : ¬ limit < d.groups.depth id) (hresult : SurveyEnds d limit ids result) :
    SurveyEnds d limit (id :: ids) result := by
  cases hresult with
  | complete hdeep h => exact .complete (by rw [firstTooDeep?_cons, if_neg hid, hdeep]) h
  | tooDeep id' hdeep => exact .tooDeep id' (by rw [firstTooDeep?_cons, if_neg hid, hdeep])

/-- Groups surveyed after others are only reached where the others were not too deep. -/
theorem SurveyEnds.bind {limit : Nat} {ids ids' : List Nat} {result : Except Fault Hierarchy}
    {next : Hierarchy → Except Fault Hierarchy} (hresult : SurveyEnds d limit ids result)
    (hnext : ∀ h, SurveyEnds d limit ids' (next h)) :
    SurveyEnds d limit (ids ++ ids') (result >>= next) := by
  -- once a group is too deep, the survey does not go on
  cases hresult with
  | tooDeep id hdeep => exact .tooDeep id (by simp [firstTooDeep?_append, hdeep])
  | complete hdeep h =>
    show SurveyEnds d limit (ids ++ ids') (next h)
    have hh := hnext h
    generalize next h = result at hh
    cases hh with
    | complete hdeep' h' => exact .complete (by simp [firstTooDeep?_append, hdeep, hdeep']) h'
    | tooDeep id hdeep' => exact .tooDeep id (by simp [firstTooDeep?_append, hdeep, hdeep'])

theorem SurveyEnds.foldlM {limit : Nat} {cs : List Nat}
    {step : Hierarchy → Nat → Except Fault Hierarchy}
    (hstep : ∀ c ∈ cs, ∀ h, SurveyEnds d limit (d.groups.subtree c) (step h c)) (h : Hierarchy) :
    SurveyEnds d limit (cs.flatMap d.groups.subtree) (cs.foldlM step h) := by
  induction cs generalizing h with
  | nil => exact .complete rfl h
  | cons c rest ih =>
    rw [List.flatMap_cons, List.foldlM_cons]
    apply SurveyEnds.bind
    · exact hstep c List.mem_cons_self h
    · exact ih fun c' hc' => hstep c' (List.mem_cons_of_mem _ hc')

section Survey

variable (hd : d.WellFormed) (hnames : d.HasProperNames) (htextual : d.HasTextualCoordinates)

include hd hnames htextual

theorem exists_surveyCoordinates {id : Nat} (hid : id < d.groups.size) {v : Dataset.Variable}
    (hv : v ∈ (d.group id).vars) :
    ∃ coordinates, surveyCoordinates d (join (d.group id).path v.name) = .ok coordinates := by
  have hattributes : Readable.variableAttributes d (join (d.group id).path v.name) =
      .ok v.attributes := Dataset.variableAttributes_eq (hd.findVariable_join hnames hid hv)
  have hvalue := htextual id hid v hv
  simp only [surveyCoordinates, hattributes, fromStore]
  cases hfind : Attributes.find? v.attributes coordinatesName with
  -- without the attribute there are no coordinates, and with it they are a text
  | none => exact ⟨none, by simp [hfind, Except.mapError, pure, Except.pure, bind, Except.bind]⟩
  | some value =>
    obtain ⟨text, htext⟩ := AttributeValue.exists_referenceText
      (by simpa [hfind] using hvalue) coordinatesName
    exact ⟨some text, by
      simp [hfind, htext, Except.mapError, bind, Except.bind, Functor.map, Except.map]⟩

/-- Every group can be surveyed by its path. -/
theorem exists_surveyGroup {id : Nat} (hid : id < d.groups.size) (number : Nat) :
    ∃ g, surveyGroup d (d.group id).path number = .ok g := by
  have hpath := hd.groupId_path hnames.groups hid
  obtain ⟨infos, hinfos⟩ := hd.exists_variableInfos hpath
  have hdims : d.dimensions (d.group id).path = .ok (d.group id).dimensions :=
    dimensions_eq_ok_iff.mpr ⟨id, hpath, rfl⟩
  simp only [surveyGroup, Except.bind_eq_ok_iff, fromStore, Except.mapError_eq_ok_iff]
  -- what is listed is there, so its coordinates can be surveyed
  have hstep : ∀ info ∈ infos, ∀ group : Group, ∃ group', (do
      let coordinates ← surveyCoordinates d (join (d.group id).path info.name)
      pure (group.addVariable number info.name info.dimensions coordinates) :
        Except Fault Group) = .ok group' := by
    intro info hinfo group
    obtain ⟨i, hi, hall⟩ := variableInfos_eq_ok_iff.mp hinfos
    obtain rfl := Except.ok.inj (hpath.symm.trans hi)
    obtain ⟨v, hv, hok⟩ := Forall₂.exists_left hall hinfo
    obtain ⟨shape, -, rfl⟩ := infoOf_eq_ok_iff.mp hok
    obtain ⟨coordinates, hcoordinates⟩ := exists_surveyCoordinates hd hnames htextual hid hv
    exact ⟨_, Except.bind_eq_ok_iff.mpr ⟨coordinates, hcoordinates, rfl⟩⟩
  obtain ⟨g, hg⟩ := Except.exists_foldlM_eq_ok hstep
    ((d.group id).dimensions.foldl (fun group dim => group.addDimension dim.name)
      (Group.atPath (d.group id).path))
  exact ⟨g, _, hdims, infos, hinfos, hg⟩

/-- The survey of a group ends at the first group of its subtree that is too deep. -/
theorem surveyEnds_survey (limit : Nat) {id : Nat} (hid : id < d.groups.size) (h : Hierarchy)
    (parent : Option Nat) : SurveyEnds d limit (d.groups.subtree id)
      (survey d limit h parent (d.groups.depth id) (d.group id).path) := by
  induction id using Forest.induction_on_children (f := d.groups) generalizing h parent with
  | step id ih =>
    rw [Forest.subtree_eq]
    by_cases hdeep : limit < d.groups.depth id
    · rw [survey, dif_pos hdeep]
      exact .tooDeep id (by rw [firstTooDeep?_cons, if_pos hdeep])
    -- a group that is not too deep can be surveyed
    · obtain ⟨g, hg⟩ := exists_surveyGroup hd hnames htextual hid h.size
      have hlisted : Readable.groupNames d (d.group id).path =
          .ok ((d.groups.children id).map fun c => (d.group c).name) :=
        groupNames_eq_ok_iff.mpr ⟨id, hd.groupId_path hnames.groups hid, rfl⟩
      have hrun : survey d limit h parent (d.groups.depth id) (d.group id).path =
          (d.groups.children id).foldlM (fun grown c => survey d limit grown (some h.size)
            (d.groups.depth id + 1) (join (d.group id).path (d.group c).name))
            (h.addGroup parent g) := by
        rw [survey, dif_neg hdeep, hg, hlisted]
        exact List.foldlM_map
      rw [hrun]
      -- the group itself is not too deep, so the groups inside it decide
      apply SurveyEnds.cons hdeep
      apply SurveyEnds.foldlM
      intro c hc grown
      have hparent := Forest.mem_children_iff.mp hc
      have hchild := ih c hc (Forest.lt_size_of_mem_children hc) grown (some h.size)
      rwa [Forest.depth_of_parent? hparent, hd.path_eq c id hparent] at hchild

end Survey

/-! ## The tree of the dataset again -/

/-- The snapshot shows the tree of the dataset, and each of its paths leads back. -/
structure Mirrors (d : Dataset) (h : Hierarchy) : Prop where
  /-- The groups are numbered in the order in which the dataset lists their paths. -/
  paths : h.groups.labels.map (·.path) = d.groupPaths
  parent?_root : h.parent? rootId = none
  /-- Every other group is inside the one that the first part of its path names. -/
  parent : ∀ n < h.size, n ≠ rootId → ∃ p < n, h.parent? n = some p ∧
    (h.group p).path = (split (h.group n).path).1
  findGroup? : ∀ n < h.size, h.findGroup? (h.group n).path = some n
  dimensions : ∀ n < h.size, ∃ dims, d.dimensions (h.group n).path = .ok dims ∧
    (h.group n).dimensions = dims.map (·.name)
  vars : ∀ n < h.size, ∃ infos, d.variableInfos (h.group n).path = .ok infos ∧
    (h.group n).vars.map (·.name) = infos.map (·.name)
  findVariable? : ∀ v ∈ h.allVars, h.findVariable? v.path = some v

/-- A number in range has its group as label. -/
theorem label?_eq {h : Hierarchy} {n : Nat} (hn : n < h.size) :
    h.groups.label? n = some (h.group n) := by
  obtain ⟨g, hg⟩ := Forest.exists_label? hn
  rw [group, hg]
  rfl

theorem mem_labels_iff {h : Hierarchy} {g : Group} :
    g ∈ h.groups.labels ↔ ∃ n < h.size, h.group n = g := by
  rw [List.mem_iff_getElem?]
  simp only [Forest.getElem?_labels]
  constructor
  · rintro ⟨n, hn⟩
    have hlt : n < h.size := Nat.lt_of_not_le fun hle => by
      rw [Forest.label?_eq_none_iff.mpr hle] at hn
      cases hn
    exact ⟨n, hlt, Option.some.inj ((label?_eq hlt).symm.trans hn)⟩
  · rintro ⟨n, hn, rfl⟩
    exact ⟨n, label?_eq hn⟩

theorem mem_allVars_iff {h : Hierarchy} {v : Variable} :
    v ∈ h.allVars ↔ ∃ n < h.size, v ∈ (h.group n).vars := by
  simp only [allVars, List.mem_flatMap, mem_labels_iff]
  constructor
  · rintro ⟨_, ⟨n, hn, rfl⟩, hv⟩
    exact ⟨n, hn, hv⟩
  · rintro ⟨n, hn, hv⟩
    exact ⟨_, ⟨n, hn, rfl⟩, hv⟩

section Snapshot

variable (hd : d.WellFormed) (hnames : d.HasProperNames) {limit : Nat} {h : Hierarchy}
  (hrun : ofDataset d limit = .ok h)

include hd hnames hrun

/-- The paths of the surveyed groups are those of the dataset, in pre-order. -/
theorem map_path_labels : h.groups.labels.map (·.path) = d.groupPaths :=
  map_labels (forall₂_surveyed hd hnames.groups hrun).1
    fun _ _ _ hg => hg.path.symm

/-- Every group of a snapshot was surveyed of a group of the dataset. -/
theorem exists_surveyed_of_lt {n : Nat} (hn : n < h.size) :
    ∃ id < d.groups.size, Surveyed d id n (h.group n) := by
  obtain ⟨id, hid, hg⟩ :=
    exists_surveyed (forall₂_surveyed hd hnames.groups hrun).1 (label?_eq hn)
  exact ⟨id, hd.mem_groupIds_iff.mp hid, hg⟩

/-- No two groups of a snapshot have the same path. -/
theorem eq_of_path_eq {m n : Nat} (hm : m < h.size) (hn : n < h.size)
    (hpath : (h.group m).path = (h.group n).path) : m = n := by
  have hnodup : (h.groups.labels.map (·.path)).Nodup := by
    rw [map_path_labels hd hnames hrun]
    refine (Forest.nodup_subtree _ _).map_on fun id hid id' hid' heq => ?_
    exact hd.path_inj hnames.groups (hd.mem_groupIds_iff.mp hid) (hd.mem_groupIds_iff.mp hid') heq
  -- the number of a group is its place in a list of distinct paths
  have hentry : ∀ i, i < h.size → (h.groups.labels.map (·.path))[i]? = some (h.group i).path := by
    intro i hi
    rw [List.getElem?_map, Forest.getElem?_labels, label?_eq hi]
    rfl
  have hlength : m < (h.groups.labels.map (·.path)).length := by
    rw [List.length_map, Forest.length_labels]
    exact hm
  exact (List.getElem?_inj hlength hnodup).mp (by rw [hentry m hm, hentry n hn, hpath])

theorem findGroup?_path {n : Nat} (hn : n < h.size) :
    h.findGroup? (h.group n).path = some n := by
  obtain ⟨id, hid, hg⟩ := exists_surveyed_of_lt hd hnames hrun hn
  obtain ⟨m, hfind, hm, hpath⟩ := exists_findGroup? hd hnames.groups hrun hid
  rw [← hg.path] at hfind hpath
  rw [hfind, eq_of_path_eq hd hnames hrun hm hn hpath]

/-- Only the first group of a snapshot was surveyed of the root. -/
theorem exists_surveyed_of_ne_rootId {n : Nat} (hn : n < h.size) (hne : n ≠ rootId) :
    ∃ id < d.groups.size, id ≠ Dataset.rootId ∧ Surveyed d id n (h.group n) := by
  have hroot := path_root hd (forall₂_surveyed hd hnames.groups hrun).1
  obtain ⟨id, hid, hg⟩ := exists_surveyed_of_lt hd hnames hrun hn
  refine ⟨id, hid, ?_, hg⟩
  rintro rfl
  exact hne (eq_of_path_eq hd hnames hrun hn (Nat.lt_of_le_of_lt (Nat.zero_le n) hn)
    (by rw [hg.path, hd.path_root, hroot]))

/-- The group around a group of the dataset is around it in the snapshot, too. -/
theorem exists_parent? {n : Nat} (hn : n < h.size) (hne : n ≠ rootId) :
    ∃ p < n, h.parent? n = some p ∧ (h.group p).path = (split (h.group n).path).1 := by
  have hlinked := (forall₂_surveyed hd hnames.groups hrun).2
  have hcomplete := complete_survey hd hnames.groups (limit + 1) rfl hd.root_lt (by simp)
    (hd.path_root ▸ hrun : survey d limit empty none 0 (d.group Dataset.rootId).path = .ok h)
  obtain ⟨id, hid, hidne, hg⟩ := exists_surveyed_of_ne_rootId hd hnames hrun hn hne
  obtain ⟨q, hq⟩ := hd.rooted id hid hidne
  have hqlt : q < d.groups.size := Nat.lt_trans (Forest.parent?_lt hq) hid
  -- the group around it was surveyed before, and covers the groups inside
  obtain ⟨p, -, hp, hppath⟩ := exists_findGroup? hd hnames.groups hrun hqlt
  obtain ⟨m, hm, hmpath⟩ := hcomplete.covers p (Nat.zero_le p) hp q hqlt hppath.symm id
    (Forest.mem_children_iff.mpr hq)
  obtain rfl := eq_of_path_eq hd hnames hrun (Forest.lt_size_of_parent? hm) hn
    (hmpath.trans hg.path.symm)
  refine ⟨p, Forest.parent?_lt hm, ?_, ?_⟩
  · rw [hlinked.parent?_eq, hm]
  · rw [hg.path, hd.path_eq id q hq,
      ObjectPath.split_join (hd.path_ne_empty hqlt) (hnames.groups.of_parent? hq).2, hppath]

theorem nodup_vars {n : Nat} (hn : n < h.size) : ((h.group n).vars.map (·.name)).Nodup := by
  obtain ⟨id, -, hg⟩ := exists_surveyed_of_lt hd hnames hrun hn
  rw [← Forall₂.map_eq hg.vars (f := (·.name)) fun v w hw => hw.name.symm]
  exact (hd.groups id).vars

/-- The path of a variable of a snapshot leads back to it. -/
theorem findVariable?_path {v : Variable} (hv : v ∈ h.allVars) :
    h.findVariable? v.path = some v := by
  obtain ⟨n, hn, hvn⟩ := mem_allVars_iff.mp hv
  obtain ⟨id, hid, hsurveyed⟩ := exists_surveyed_of_lt hd hnames hrun hn
  obtain ⟨w, hw, hvw⟩ := Forall₂.exists_left hsurveyed.vars hvn
  have hsplit : split v.path = ((h.group n).path, v.name) := by
    rw [hvw.path, hvw.name, hsurveyed.path]
    exact ObjectPath.split_join (hd.path_ne_empty hid) (hnames.vars id hid w hw).2
  rw [findVariable?, hsplit]
  simp only [findGroup?_path hd hnames hrun hn, Option.bind_eq_bind, Option.bind_some]
  exact Dataset.find?_eq_some_of_nodup (nodup_vars hd hnames hrun hn) hvn

/-- A snapshot shows the tree of its dataset. -/
theorem mirrors_of_ofDataset : Mirrors d h where
  paths := map_path_labels hd hnames hrun
  parent?_root := by
    have hlinked := (forall₂_surveyed hd hnames.groups hrun).2
    rw [hlinked.parent?_eq]
    -- no group has a smaller number
    cases hp : h.groups.parent? rootId with
    | none => rfl
    | some p => exact absurd (Forest.parent?_lt hp) (Nat.not_lt_zero p)
  parent := fun n hn hne => exists_parent? hd hnames hrun hn hne
  findGroup? := fun n hn => findGroup?_path hd hnames hrun hn
  dimensions := by
    intro n hn
    obtain ⟨id, hid, hg⟩ := exists_surveyed_of_lt hd hnames hrun hn
    have hpath := hd.groupId_path hnames.groups hid
    exact ⟨_, hg.path ▸ dimensions_eq_ok_iff.mpr ⟨id, hpath, rfl⟩, hg.dimensions⟩
  vars := by
    intro n hn
    obtain ⟨id, hid, hg⟩ := exists_surveyed_of_lt hd hnames hrun hn
    have hpath := hd.groupId_path hnames.groups hid
    obtain ⟨infos, hinfos⟩ := hd.exists_variableInfos hpath
    refine ⟨infos, hg.path ▸ hinfos, ?_⟩
    obtain ⟨i, hi, hall⟩ := variableInfos_eq_ok_iff.mp hinfos
    obtain rfl := Except.ok.inj (hpath.symm.trans hi)
    -- the infos are listed in the order of the variables
    have hlisted : ((d.group id).vars.map (·.name)) = infos.map (·.name) :=
      Forall₂.map_eq hall fun v info hok => by
        obtain ⟨shape, -, rfl⟩ := infoOf_eq_ok_iff.mp hok
        rfl
    rw [← hlisted]
    exact (Forall₂.map_eq hg.vars fun v w hw => hw.name.symm).symm
  findVariable? := fun v hv => findVariable?_path hd hnames hrun hv

end Snapshot

/-- The snapshot of a dataset is taken unless a group is nested deeper than the limit, and then it
shows the tree of the dataset; otherwise the first such group is named. -/
theorem ofDataset_agrees (hd : d.Reachable) (hnames : d.HasProperNames)
    (htextual : d.HasTextualCoordinates) (limit : Nat) :
    ((∃ h, ofDataset d limit = .ok h) ↔ ∀ id ∈ d.groupIds, d.groups.depth id ≤ limit) ∧
    (∀ id, firstTooDeep? d limit d.groupIds = some id →
      ofDataset d limit = .error (.groupDepthExceeded (d.group id).path limit)) ∧
    ∀ h, ofDataset d limit = .ok h → Mirrors d h := by
  -- the survey starts at the root, at depth zero
  have hends : SurveyEnds d limit d.groupIds (ofDataset d limit) := by
    have hroot := surveyEnds_survey hd.wellFormed hnames htextual limit hd.wellFormed.root_lt
      empty none
    rwa [hd.wellFormed.path_root,
      Forest.depth_of_parent?_eq_none hd.wellFormed.parent?_root] at hroot
  refine ⟨?_, ?_, fun h hrun => mirrors_of_ofDataset hd.wellFormed hnames hrun⟩
  · rw [← firstTooDeep?_eq_none_iff]
    generalize ofDataset d limit = result at hends
    cases hends with
    | complete hdeep h => simp [hdeep]
    | tooDeep id hdeep => simp [hdeep]
  · intro id hid
    generalize ofDataset d limit = result at hends
    cases hends with
    | complete hdeep h => simp [hid] at hdeep
    | tooDeep id' hdeep =>
      obtain rfl := Option.some.inj (hid.symm.trans hdeep)
      rfl

/-- A valley with a river that has a gauge, and with a hill. -/
def valley : Dataset :=
  (Dataset.create "valley" true).applyAll
    [.group "/" "river", .group "/" "hill", .group "/river" "gauge",
      .dimension "/river" "reach" (some 2),
      .variable "/river/gauge" ⟨"depth", .double, ["/river/reach"], none⟩,
      .variable "/river/gauge" ⟨"flow", .double, ["/river/reach"], none⟩,
      .variableAttribute "/river/gauge/flow" "coordinates" (.texts ["depth"])]

/-- The whole valley is seen with a limit of two, and only part of it with a smaller one. -/
theorem valley_agrees : valley.Reachable ∧ valley.HasProperNames ∧ valley.HasTextualCoordinates ∧
    (∃ h, ofDataset valley 2 = .ok h ∧ Mirrors valley h) ∧
    ofDataset valley 1 = .error (.groupDepthExceeded "/river/gauge" 1) ∧
    ofDataset valley 0 = .error (.groupDepthExceeded "/river" 0) := by
  have hreachable : valley.Reachable := (Dataset.Reachable.create "valley" true).applyAll _
  have hnames : valley.HasProperNames := by decide +kernel
  have htextual : valley.HasTextualCoordinates := by decide +kernel
  have hagrees := ofDataset_agrees hreachable hnames htextual
  obtain ⟨h, hh⟩ := (hagrees 2).1.mpr (by decide +kernel)
  exact ⟨hreachable, hnames, htextual, ⟨h, hh, (hagrees 2).2.2 h hh⟩,
    (hagrees 1).2.1 3 (by decide +kernel), (hagrees 0).2.1 1 (by decide +kernel)⟩

end Hierarchy

end GroupFlattening
