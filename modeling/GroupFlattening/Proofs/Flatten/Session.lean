import GroupFlattening.Proofs.Flatten.Steps
import GroupFlattening.Proofs.NameTable

/-!
# Runs That Succeed, Taken Apart

A successful run between datasets in memory writes to a flat output, and is a walk over the groups
of the input in the order of the tree (`transferAll_ok`), followed by the provenance. The walk is
stated over the numbers of the groups, so that what holds of a whole run follows by induction along
`groupIds`.
-/

namespace GroupFlattening.Flatten

open Dataset (IsFlat)

/-! ## Before anything is written -/

theorem groupNames_of_checkDatasets {input output : Dataset} {settings : Settings}
    (h : checkDatasets input output settings = .ok ()) :
    output.groupNames ObjectPath.root = .ok [] := by
  simp only [checkDatasets] at h
  split at h
  · cases h
  · split at h
    · cases h
    · obtain ⟨names, hnames, h⟩ := Except.bind_eq_ok_iff.mp h
      have hnames : output.groupNames ObjectPath.root = .ok names :=
        Except.mapError_eq_ok_iff.mp hnames
      cases names with
      | nil => exact hnames
      -- an output with groups is refused
      | cons name rest => cases h

/-- A successful run has surveyed the input, found the output flat, and carried everything over. -/
theorem flatten_ok {input output output' : Dataset} {settings : Settings} {report : Report}
    (houtput : output.WellFormed) (hrun : flatten input settings output = .ok report output') :
    ∃ h t', Hierarchy.ofDataset input settings.depthLimit = .ok h ∧ output.IsFlat ∧
      transferAll input settings h ⟨output.withRoot output.root, {}⟩ = .ok report t' ∧
      t'.output = output' := by
  simp only [flatten] at hrun
  cases hsurvey : survey input output settings with
  | error fault => simp [hsurvey] at hrun
  | ok h =>
    obtain ⟨⟨⟩, hcheck, hsnapshot⟩ := Except.bind_eq_ok_iff.mp hsurvey
    -- an output that holds groups is refused, so the root is the only group
    have hnames := groupNames_of_checkDatasets hcheck
    rw [Dataset.groupNames_root] at hnames
    have hflat : output.IsFlat := houtput.isFlat (List.map_eq_nil_iff.mp (Except.ok.inj hnames))
    rw [hsurvey] at hrun
    rw [hflat.withRoot_root]
    cases hall : transferAll input settings h { output := output } with
    | error fault t' => simp [hall] at hrun
    | ok report' t' =>
      simp only [hall, EStateM.Result.ok.injEq] at hrun
      obtain ⟨rfl, rfl⟩ := hrun
      exact ⟨h, t', hsnapshot, hflat, hall, rfl⟩

/-! ## The walk over the groups -/

/-- Carries over the group at a path with its variables. -/
def placeStep (input : Dataset) (h : Hierarchy) (names : NameTable) (settings : Settings)
    (path : String) : TransferM Dataset Tally := do
  let infos ← Transfer.group input path
  let tallies ← infos.mapM (variableStep input h names settings path)
  pure (Tally.total tallies)

/-- The walk over a snapshot is one over the groups of the dataset. -/
theorem mapM_groupStep {input : Dataset} {settings : Settings} {h : Hierarchy}
    (names : NameTable) (hsurveyed : List.Forall₂
      (fun id entry => Hierarchy.Surveyed input id entry.2 entry.1) input.groupIds
      h.groups.labels.zipIdx) :
    (h.groups.labels.mapM (groupStep input h names settings) : TransferM Dataset _) =
      input.groupIds.mapM fun id => placeStep input h names settings (input.group id).path := by
  have hpaths : h.groups.labels.map (fun g => g.path) =
      input.groupIds.map fun id => (input.group id).path :=
    Hierarchy.map_labels hsurveyed fun id n g hsg => hsg.path.symm
  -- a step depends on the path of its group only
  let step : String → TransferM Dataset Tally := placeStep input h names settings
  -- so a walk along the groups is a walk along their paths, which are those of the dataset
  calc h.groups.labels.mapM (step ∘ fun g => g.path)
      = (h.groups.labels.map fun g => g.path).mapM step := List.mapM_map.symm
    _ = input.groupIds.mapM (step ∘ fun id => (input.group id).path) := by
      rw [hpaths, List.mapM_map]

/-- The attributes of the root that hold the provenance. -/
def provenanceEntries (p : ProvenanceMaps) : List (String × AttributeValue) :=
  [(ProvenanceMaps.attributesName, p.attributes.toAttribute),
    (ProvenanceMaps.dimensionsName, p.dimensions.toAttribute),
    (ProvenanceMaps.variablesName, p.vars.toAttribute)]

theorem finish_ok {base : Dataset} (hb : base.IsFlat) {g : Dataset.Group} {p p' : ProvenanceMaps}
    {t' : Transfer Dataset} (hrun : Transfer.finish ⟨base.withRoot g, p⟩ = .ok p' t') :
    p' = p ∧ t' = ⟨base.withRoot { g with
      attributes := Attributes.setAll g.attributes (provenanceEntries p) }, p⟩ := by
  obtain ⟨t, t₀, hget, hrun⟩ := EStateM.bind_eq_ok_iff.mp hrun
  cases hget
  obtain ⟨⟨⟩, t₁, hwrite, hpure⟩ := EStateM.bind_eq_ok_iff.mp hrun
  obtain ⟨rfl, rfl⟩ := EStateM.pure_eq_ok_iff.mp hpure
  obtain ⟨output, hall, rfl⟩ := Transfer.onOutput_eq_ok_iff.mp hwrite
  -- three attributes of the root, one after the other
  rw [ProvenanceMaps.write] at hall
  obtain ⟨⟨⟩, d₁, h₁, hrest⟩ := EStateM.bind_eq_ok_iff.mp hall
  obtain rfl := hb.setGroupAttribute h₁
  obtain ⟨⟨⟩, d₂, h₂, h₃⟩ := EStateM.bind_eq_ok_iff.mp hrest
  obtain rfl := hb.setGroupAttribute h₂
  obtain rfl := hb.setGroupAttribute h₃
  exact ⟨rfl, rfl⟩

/-- A successful run is a walk over the groups of the input, and the provenance after it. -/
theorem transferAll_ok {input : Dataset} {settings : Settings} {h : Hierarchy}
    (hsurveyed : List.Forall₂ (fun id entry => Hierarchy.Surveyed input id entry.2 entry.1)
      input.groupIds h.groups.labels.zipIdx)
    {t t' : Transfer Dataset} {report : Report}
    (hrun : transferAll input settings h t = .ok report t') :
    ∃ tallies t₁, input.groupIds.mapM (fun id =>
        placeStep input h (NameTable.ofHierarchy h) settings (input.group id).path) t =
          .ok tallies t₁ ∧
      Transfer.finish t₁ = .ok report.provenance t' := by
  obtain ⟨tallies, t₁, hwalk, hrun⟩ := EStateM.bind_eq_ok_iff.mp hrun
  obtain ⟨p, t₂, hfinish, hpure⟩ := EStateM.bind_eq_ok_iff.mp hrun
  obtain ⟨rfl, rfl⟩ := EStateM.pure_eq_ok_iff.mp hpure
  rw [mapM_groupStep (NameTable.ofHierarchy h) hsurveyed] at hwalk
  exact ⟨tallies, t₁, hwalk, hfinish⟩

end GroupFlattening.Flatten
