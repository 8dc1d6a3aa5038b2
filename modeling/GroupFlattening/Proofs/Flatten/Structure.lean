import GroupFlattening.Proofs.Flatten.Progress
import GroupFlattening.Proofs.Provenance

/-!
# The Structure of a Flat Output

A run that succeeds loses no dimension and no variable, duplicates none and merges none, although
flat names of different objects can coincide: the output has one copy of each in the order of the
tree, behind everything that was there before, which is unchanged (`flattened_of_flatten`). The
provenance lists exactly these copies and is a bijection, since the names that the output refused
to take twice are distinct and so are the paths they stand for.
-/

namespace GroupFlattening.Flatten

open ObjectPath (join)
open Transfer (recordOf)

/-- What a variable of the group at `place` looks like in a flat dataset: its dimensions are the
copies of its dimensions, and its attributes are those it has, the fill value in front, with the
same values where no rule governs them. -/
structure IsFlatCopy (input : Dataset) (place : String) (v copy : Dataset.Variable) : Prop where
  name : copy.name = flatName place v.name
  type : copy.type = v.type
  dimensions : List.Forall₂ (fun path flatPath => ∃ e ∈ groupDimensions input,
      path = join e.1 e.2.name ∧ input.dimension path = .ok e.2 ∧
      flatPath = join ObjectPath.root (dimensionName e)) v.dimensions copy.dimensions
  attributes : List.Forall₂ (fun entry copied => copied.1 = entry.1 ∧
      (ReferenceRule.forAttribute? entry.1 = none → copied.2 = entry.2))
    (fillFirst v.attributes) copy.attributes

/-- The output holds what it held before and the copies of all dimensions and variables. -/
structure Flattened (input before after : Dataset) (report : Report) : Prop where
  isFlat : after.IsFlat
  dimensions : ∃ copies, after.root.dimensions = before.root.dimensions ++ copies ∧
    copies.map (·.name) = (groupDimensions input).map dimensionName
  vars : ∃ copies, after.root.vars = before.root.vars ++ copies ∧
    List.Forall₂ (fun entry copy => IsFlatCopy input entry.1 entry.2 copy)
      (groupVariables input) copies
  data : ∀ path selection data, before.readData path selection = .ok data →
    after.readData path selection = .ok data
  dimensionRecords : report.provenance.dimensions.records =
    (groupDimensions input).map fun e => (dimensionName e, join e.1 e.2.name)
  variableRecords : report.provenance.vars.records =
    (groupVariables input).map fun e => (variableName e, join e.1 e.2.name)
  dimensionsBijective : report.provenance.dimensions.isBijective = true
  varsBijective : report.provenance.vars.isBijective = true

/-! ## Distinct names and distinct paths -/

/-- The path of a variable is that of no other one. -/
theorem variable_eq_of_join_eq {input : Dataset} (hinput : input.WellFormed)
    (hproper : input.HasProperNames) {e e' : String × Dataset.Variable}
    (he : e ∈ groupVariables input) (he' : e' ∈ groupVariables input)
    (heq : join e.1 e.2.name = join e'.1 e'.2.name) : e = e' := by
  obtain ⟨id, hid, hpath, hv⟩ := Dataset.mem_located.mp he
  obtain ⟨id', hid', hpath', hv'⟩ := Dataset.mem_located.mp he'
  have hfind := hinput.findVariable_join hproper (hinput.mem_groupIds_iff.mp hid) hv
  have hfind' := hinput.findVariable_join hproper (hinput.mem_groupIds_iff.mp hid') hv'
  -- both are found by the same path
  rw [hpath, heq, ← hpath', hfind'] at hfind
  obtain ⟨rfl, hveq⟩ := Prod.mk.inj (Except.ok.inj hfind)
  exact Prod.ext (hpath.symm.trans hpath') hveq.symm

section Progress

variable {input base : Dataset} {h : Hierarchy} {settings : Settings} {g : Dataset.Group}
  {p : ProvenanceMaps}
  (hp : Progress input base h settings (groupDimensions input) (groupVariables input) g p)

include hp

/-- In the end no flat name of a dimension occurs twice, and none was there before. -/
theorem Progress.distinct :
    (base.root.dimensions.map (·.name) ++ (groupDimensions input).map dimensionName).Nodup :=
  hp.dimensionNames ▸ hp.nodupDimensions

theorem Progress.nodup_variableNames : ((groupVariables input).map variableName).Nodup := by
  obtain ⟨copies, hcopies, hall⟩ := hp.copies
  have hnames := Forall₂.map_eq hall (f := variableName)
    (g := fun copy : Dataset.Variable => copy.name) fun e copy hcopy => hcopy.name.symm
  have hnodup := hp.nodupVars
  rw [hcopies, List.map_append] at hnodup
  rw [hnames]
  exact (List.nodup_append.mp hnodup).2.1

variable (hb : base.IsFlat) (attributes : Attributes)

include hb

/-- The copy of a dimension is found in the end. -/
theorem Progress.dimension (hinput : input.WellFormed) (hproper : input.HasProperNames)
    {e : String × Dimension} (he : e ∈ groupDimensions input) :
    (base.withRoot { g with attributes := attributes }).dimension
        (join ObjectPath.root (dimensionName e)) =
      .ok (flatDimension input settings (groupVariables input) e) := by
  have hname := separator_not_mem_dimensionName hinput hproper he
  have hmem : flatDimension input settings (groupVariables input) e ∈ g.dimensions := by
    rw [hp.sizes hp.distinct]
    exact List.mem_append_right _ (List.mem_map_of_mem he)
  exact (hb.dimension_join hname).mpr (Dataset.find?_eq_some_of_nodup hp.nodupDimensions hmem)

/-- The copy of a variable is found in the end. -/
theorem Progress.exists_copy (hinput : input.WellFormed) (hproper : input.HasProperNames)
    {e : String × Dataset.Variable} (he : e ∈ groupVariables input) :
    ∃ copy, (base.withRoot { g with attributes := attributes }).findVariable
        (join ObjectPath.root (variableName e)) = .ok (Dataset.rootId, copy) ∧
      FlatCopy input h (NameTable.ofHierarchy h) settings e.1 e.2 copy := by
  have hname := separator_not_mem_variableName hinput hproper he
  obtain ⟨copies, hcopies, hall⟩ := hp.copies
  -- its copy is one of the variables, and its flat name is used only once
  obtain ⟨copy, hmem, hcopy⟩ := Forall₂.exists_right hall he
  have hmem : copy ∈ g.vars := by
    rw [hcopies]
    exact List.mem_append_right _ hmem
  refine ⟨copy, (hb.findVariable_join hname).mpr ?_, hcopy⟩
  rw [variableName, ← hcopy.name]
  exact Dataset.find?_eq_some_of_nodup hp.nodupVars hmem

/-- Data that was there before is read unchanged in the end. -/
theorem Progress.readData {path : String} {selection : Selection} {data : Buffer}
    (hread : base.readData path selection = .ok data) :
    (base.withRoot { g with attributes := attributes }).readData path selection = .ok data := by
  obtain ⟨copies, hvars, -⟩ := hp.copies
  refine hb.readData_append ?_ ?_ hread
  · exact ⟨_, (hp.sizes hp.distinct).symm⟩
  · exact ⟨_, hvars.symm⟩

end Progress

/-! ## The result of a run -/

theorem isFlatCopy_of_flatCopy {input : Dataset} (hinput : input.WellFormed)
    (hproper : input.HasProperNames) {h : Hierarchy} {limit : Nat}
    (hsnapshot : Hierarchy.ofDataset input limit = .ok h) {settings : Settings} {place : String}
    {v copy : Dataset.Variable}
    (hcopy : FlatCopy input h (NameTable.ofHierarchy h) settings place v copy) :
    IsFlatCopy input place v copy := by
  refine ⟨hcopy.name, hcopy.type, hcopy.dimensions.imp fun path flatPath hpath => ?_,
    hcopy.attributes.imp fun entry copied hcopied => ?_⟩
  · obtain ⟨flat, hfind, rfl⟩ := hpath
    obtain ⟨e, he, rfl, rfl⟩ := exists_dimension_of_find? hinput hproper hsnapshot hfind
    exact ⟨e, he, rfl, dimension_of_mem hinput hproper he, rfl⟩
  -- an attribute without a rule has the value that it had
  · cases hcopied with
    | same => exact ⟨rfl, fun _ => rfl⟩
    | replaced hrule =>
      refine ⟨rfl, fun hnone => ?_⟩
      rw [hnone] at hrule
      cases hrule

/-- A run that succeeds appends one copy of each dimension and each variable to the output, in the
order of the tree, and changes no dimension, variable, attribute of a variable or data that the
output had. -/
theorem flattened_of_flatten {input output output' : Dataset} {settings : Settings}
    {report : Report} (hinput : input.Reachable) (hproper : input.HasProperNames)
    (houtput : output.Reachable) (hrun : flatten input settings output = .ok report output') :
    Flattened input output output' report := by
  obtain ⟨h, g, hsnapshot, hb, hp, rfl⟩ :=
    progress_of_flatten hinput.wellFormed hproper houtput.wellFormed hrun
  obtain ⟨copies, hvars, hcopies⟩ := hp.copies
  -- the output refused to take a name twice, so the names are distinct
  have hdims := hp.sizes hp.distinct
  have hdimensionRecords : report.provenance.dimensions.records =
      (groupDimensions input).map fun e => (dimensionName e, join e.1 e.2.name) :=
    hp.dimensionRecords
  have hvariableRecords : report.provenance.vars.records =
      (groupVariables input).map fun e => (variableName e, join e.1 e.2.name) :=
    hp.variableRecords
  refine
    { isFlat := hb.withRoot
      dimensions := ⟨_, by rw [hb.root_withRoot]; exact hdims, ?_⟩
      vars := ⟨copies, by rw [hb.root_withRoot]; exact hvars, hcopies.imp fun e copy hcopy =>
        isFlatCopy_of_flatCopy hinput.wellFormed hproper hsnapshot hcopy⟩
      data := fun path selection data hread =>
        hp.readData hb _ hread
      dimensionRecords := hdimensionRecords
      variableRecords := hvariableRecords
      dimensionsBijective := ?_
      varsBijective := ?_ }
  · rw [List.map_map]
    rfl
  -- distinct flat names lead to distinct paths, and back
  · exact Provenance.isBijective_of_nodup hdimensionRecords
      (List.nodup_append.mp hp.distinct).2.1
      fun e he e' he' heq => eq_of_join_eq hinput.wellFormed hproper he he' heq
  · exact Provenance.isBijective_of_nodup hvariableRecords hp.nodup_variableNames
      fun e he e' he' heq => variable_eq_of_join_eq hinput.wellFormed hproper he he' heq

/-- A station with times of its own and a site whose variables refer to them. -/
def station : Dataset :=
  (Dataset.create "station" true).applyAll
    [.sizedDimension "/" ⟨"time", 3, true⟩,
      .variable "/" ⟨"time", .int, ["/time"], none⟩,
      .group "/" "site",
      .dimension "/site" "level" (some 2),
      .variable "/site" ⟨"height", .float, ["/site/level"], none⟩,
      .variable "/site" ⟨"wind", .float, ["/time", "/site/level"], some (.integer (-1))⟩,
      .variableAttribute "/site/wind" "coordinates" (.text "height time"),
      .variableAttribute "/site/wind" "units" (.text "m s-1")]

/-- A flat dataset that already has a dimension and a variable. -/
def archive : Dataset :=
  (Dataset.create "archive" false).applyAll
    [.dimension "/" "x" (some 1), .variable "/" ⟨"x", .int, ["/x"], none⟩]

theorem station_reachable : station.Reachable :=
  (Dataset.Reachable.create "station" true).applyAll _

theorem station_hasProperNames : station.HasProperNames := by decide +kernel

theorem archive_reachable : archive.Reachable :=
  (Dataset.Reachable.create "archive" false).applyAll _

/-- The station is appended to the archive. -/
theorem station_flattened : station.Reachable ∧ station.HasProperNames ∧ archive.Reachable ∧
    ∃ report output, flatten station {} archive = .ok report output ∧
      Flattened station archive output report := by
  have hsucceeds : EStateM.succeedsWith (fun (_ : Report) (_ : Dataset) => true)
      (flatten station {} archive) = true := by decide +kernel
  obtain ⟨report, output, hrun, -⟩ := EStateM.exists_of_succeedsWith _ hsucceeds
  exact ⟨station_reachable, station_hasProperNames, archive_reachable, report, output, hrun,
    flattened_of_flatten station_reachable station_hasProperNames archive_reachable hrun⟩

end GroupFlattening.Flatten
