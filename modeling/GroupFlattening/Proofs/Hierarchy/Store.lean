import GroupFlattening.Proofs.Hierarchy.Snapshot

/-!
# Snapshots of Any Store

What is known of a snapshot without any assumption on the dataset or its names: every group of it is
what was surveyed of the group with its path, and its variables are those that the dataset lists
there, with their paths, their dimensions and their coordinates (`surveyedFrom_of_ofDataset`).
-/

namespace GroupFlattening.Hierarchy

open ObjectPath (join)

/-- What a survey of any store knows of a variable of a group, which is listed by the store. -/
structure ListedVariable {σ : Type} [Readable σ] (dataset : σ) (place : String)
    (info : VariableInfo) (w : Variable) : Prop where
  name : w.name = info.name
  path : w.path = join place info.name
  dimensions : w.dimensions = info.dimensions
  coordinates : surveyCoordinates dataset w.path = .ok w.coordinates

/-- What a survey of any store knows of a group. -/
structure SurveyedFrom {σ : Type} [Readable σ] (dataset : σ) (g : Group) : Prop where
  enclosesItself : g.enclosesItself = false
  vars : ∃ infos, Readable.variableInfos dataset g.path = .ok infos ∧
    List.Forall₂ (ListedVariable dataset g.path) infos g.vars

section Survey

variable {σ : Type} [Readable σ] {dataset : σ}

theorem surveyedFrom_of_surveyGroup {path : String} {number : Nat} {g : Group} (hpath : path ≠ "")
    (h : surveyGroup dataset path number = .ok g) : SurveyedFrom dataset g := by
  simp only [surveyGroup, Except.bind_eq_ok_iff, fromStore, Except.mapError_eq_ok_iff] at h
  obtain ⟨dims, -, infos, hinfos, hfold⟩ := h
  rw [foldl_addDimension] at hfold
  have hroot : (if ObjectPath.isRoot path then ObjectPath.root else path) = path := by
    split
    · next h => exact ((ObjectPath.isRoot_iff.mp h).resolve_right hpath).symm
    · rfl
  -- along the variables: each adds what is surveyed of it
  have hI := Except.foldlM_induction
    (I := fun done (g : Group) => g.path = path ∧ g.enclosesItself = false ∧
      List.Forall₂ (ListedVariable dataset path) done g.vars)
    (fun done info rest g g' _ hg hstep => ?_) ⟨hroot, rfl, .nil⟩ hfold
  · obtain ⟨hgpath, hself, hvars⟩ := hI
    exact ⟨hself, infos, hgpath ▸ hinfos, hgpath ▸ hvars⟩
  · obtain ⟨hgpath, hself, hvars⟩ := hg
    obtain ⟨coordinates, hcoordinates, hadd⟩ := Except.bind_eq_ok_iff.mp hstep
    obtain rfl := Except.pure_eq_ok_iff.mp hadd
    refine ⟨hgpath, hself, Forall₂.append hvars (.cons ?_ .nil)⟩
    exact ⟨rfl, by rw [hgpath], rfl, by rw [hgpath]; exact hcoordinates⟩

/-- A survey only adds groups that were surveyed. -/
theorem surveyedFrom_of_survey {limit : Nat} (left : Nat) {h h' : Hierarchy} {parent : Option Nat}
    {depth : Nat} {path : String} (hleft : limit + 1 - depth = left) (hpath : path ≠ "")
    (hparent : ∀ p, parent = some p → p < h.size)
    (hh : ∀ g ∈ h.groups.labels, SurveyedFrom dataset g)
    (hrun : survey dataset limit h parent depth path = .ok h') :
    h.size ≤ h'.size ∧ ∀ g ∈ h'.groups.labels, SurveyedFrom dataset g := by
  -- on how many levels the limit leaves below this group
  induction left generalizing h h' parent depth path with
  | zero =>
    rw [survey, dif_pos (by omega)] at hrun
    cases hrun
  | succ left ih =>
    rw [survey, dif_neg (by omega)] at hrun
    obtain ⟨g, hg, hrun⟩ := Except.bind_eq_ok_iff.mp hrun
    obtain ⟨names, -, hrun⟩ := Except.bind_eq_ok_iff.mp hrun
    have hsurveyed := surveyedFrom_of_surveyGroup hpath hg
    have hself := hsurveyed.enclosesItself
    have hsize : (h.addGroup parent g).size = h.size + 1 := size_addGroup hparent hself
    -- along the groups inside: the group itself stays, and so does its number
    have hI := Except.foldlM_induction
      (I := fun _ grown => h.size + 1 ≤ grown.size ∧
        ∀ g ∈ grown.groups.labels, SurveyedFrom dataset g)
      (fun done name rest grown grown' _ hgrown hstep => ?_) ⟨Nat.le_of_eq hsize.symm, ?_⟩ hrun
    · obtain ⟨hle, hall⟩ := hI
      exact ⟨by omega, hall⟩
    · obtain ⟨hle, hall⟩ := hgrown
      -- one more group inside, whose parent is in the hierarchy by now
      obtain ⟨hle', hall'⟩ := ih (by omega) (ObjectPath.join_ne_empty _ _)
        (fun p hp => by obtain rfl := Option.some.inj hp; omega) hall hstep
      exact ⟨Nat.le_trans hle hle', hall'⟩
    · rw [labels_addGroup hparent hself]
      intro g' hg'
      rcases List.mem_append.mp hg' with hg' | hg'
      · exact hh g' hg'
      · obtain rfl := List.mem_singleton.mp hg'
        exact hsurveyed

/-- Every group of a snapshot is what was surveyed of a group of the store. -/
theorem surveyedFrom_of_ofDataset {limit : Nat} {h : Hierarchy}
    (hrun : ofDataset dataset limit = .ok h) : ∀ g ∈ h.groups.labels, SurveyedFrom dataset g :=
  (surveyedFrom_of_survey (limit + 1) rfl (by decide) (by simp) (by simp [empty, Forest.empty,
    Forest.labels]) hrun).2

/-- What a path leads to in a snapshot was surveyed of a variable that the store lists. -/
theorem listed_of_findVariable? {limit : Nat} {h : Hierarchy}
    (hrun : ofDataset dataset limit = .ok h) {path : String} {w : Variable}
    (hw : h.findVariable? path = some w) :
    ∃ place infos info, Readable.variableInfos dataset place = .ok infos ∧ info ∈ infos ∧
      ListedVariable dataset place info w := by
  rw [findVariable?] at hw
  obtain ⟨n, -, hfind⟩ := Option.bind_eq_some_iff.mp hw
  have hmem := List.mem_of_find?_eq_some hfind
  -- the group found is one that was surveyed, since it holds a variable
  cases hlabel : h.groups.label? n with
  | none =>
    have hnil : (default : Group).vars = [] := rfl
    simp [group, hlabel, hnil] at hmem
  | some g =>
    have hgroup : h.group n = g := by rw [group, hlabel]; rfl
    rw [← Forest.getElem?_labels] at hlabel
    obtain ⟨infos, hinfos, hvars⟩ :=
      (surveyedFrom_of_ofDataset hrun g (List.mem_of_getElem? hlabel)).vars
    obtain ⟨info, hinfo, hlisted⟩ := Forall₂.exists_left hvars (hgroup ▸ hmem)
    exact ⟨g.path, infos, info, hinfos, hinfo, hlisted⟩

end Survey

end GroupFlattening.Hierarchy
