import GroupFlattening.Proofs.Dataset.Reachable
import GroupFlattening.Proofs.Flatten.Session
import GroupFlattening.Proofs.Provenance

/-!
# The Attributes of Groups

All attributes of groups go to the root of the output, under their flat names, in the order of the
tree, and the provenance comes last. Nothing refuses a name that was already used: an attribute
with the flat name of an earlier one, or with one of the names of the provenance, replaces the
value or is replaced. A run that succeeds therefore keeps all of them just when no two flat names
coincide and those that are names of the provenance hold the provenance itself
(`groupAttributes_kept_iff`).
-/

namespace GroupFlattening.Flatten

open Dataset (IsFlat)
open ObjectPath (join)
open Transfer (Spares recordOf appendRecords)

/-! ## Steps that do not touch them -/

section Sparing

variable {base : Dataset} (hb : base.IsFlat) (input : Dataset)

include hb

theorem spares_dimension (place : String) (dim : Dimension) :
    Spares base (Transfer.dimension place dim) := by
  refine Spares.bind (Spares.onOutput fun g a output h => ?_) fun _ => Spares.record fun p => rfl
  exact ⟨_, g.vars, (hb.createDimension h).2⟩

theorem spares_setAttribute (flatPath name : String) (value : AttributeValue) :
    Spares base (Transfer.setAttribute flatPath name value) := by
  refine Spares.onOutput fun g a output h => ?_
  obtain ⟨v, -, houtput⟩ := hb.setVariableAttribute h
  exact ⟨g.dimensions, _, houtput⟩

theorem spares_createVariable (names : NameTable) (place : String) (info : VariableInfo) :
    Spares base (Transfer.createVariable input names place info) := by
  refine Spares.bind Spares.of_result fun dims => Spares.bind Spares.of_read fun attributes =>
    Spares.bind (Spares.onOutput fun g a output h => ?_) fun _ =>
    Spares.bind (Spares.record fun p => rfl) fun _ =>
    Spares.bind (Spares.mapM (fun entry => ?_) _) fun pending => Spares.pure _
  · obtain ⟨-, shape, -, houtput⟩ := hb.createVariable h
    exact ⟨g.dimensions, _, houtput⟩
  · exact Spares.bind Spares.of_result fun pending =>
      Spares.bind (spares_setAttribute hb _ _ _) fun _ => Spares.pure pending

theorem spares_references (h : Hierarchy) (names : NameTable) (settings : Settings)
    (created : Transfer.Created) : Spares base (references h names settings created) := by
  rw [references]
  split
  · exact Spares.pure _
  · refine Spares.bind Spares.of_result fun v => Spares.bind Spares.of_result fun settled =>
      Spares.bind (Spares.mapM (fun entry => ?_) _) fun unnamed => Spares.pure _
    exact Spares.bind Spares.of_result fun text =>
      Spares.bind (spares_setAttribute hb _ _ _) fun _ => Spares.pure _

theorem spares_dataPart (path flatPath : String) (part place : Selection) :
    Spares base (Transfer.dataPart input path flatPath part place) :=
  Spares.bind Spares.of_read fun _ => Spares.onOutput fun _ _ _ h => hb.writeData h

theorem spares_data (settings : Settings) (path flatPath : String) (info : VariableInfo) :
    Spares base (Transfer.data input settings path flatPath info) := by
  rw [Transfer.data]
  split
  · exact Spares.pure ()
  · split
    · exact spares_dataPart hb input _ _ _ _
    · split
      · exact Spares.throw _
      -- slice by slice, and no slice touches an attribute
      · rw [SliceGrid.forSlices_eq]
        exact Spares.forM (fun box => spares_dataPart hb input _ _ _ _) _

theorem spares_variableStep (h : Hierarchy) (names : NameTable) (settings : Settings)
    (place : String) (info : VariableInfo) :
    Spares base (variableStep input h names settings place info) :=
  Spares.bind (spares_createVariable hb input names place info) fun created =>
    Spares.bind (spares_references hb h names settings created) fun tally =>
    Spares.bind (spares_data hb input settings _ _ info) fun _ => Spares.pure tally

end Sparing

/-! ## Along a run -/

/-- The attributes of the groups of a dataset, in the order of the tree. -/
def groupAttributes (d : Dataset) : List (String × String × AttributeValue) :=
  d.located (·.attributes)

/-- An attribute of a group under its flat name. -/
def flatAttribute (entry : String × String × AttributeValue) : String × AttributeValue :=
  (flatName entry.1 entry.2.1, entry.2.2)

theorem groupAttributes_eq_ok_iff {d : Dataset} {path : String} {attributes : Attributes} :
    d.groupAttributes path = .ok attributes ↔
      ∃ id, d.groupId path = .ok id ∧ (d.group id).attributes = attributes := by
  simp only [Dataset.groupAttributes, Except.bind_eq_ok_iff, Except.pure_eq_ok_iff]

/-- Carrying over a group sets its attributes and leaves those of the root otherwise alone. -/
theorem attributes_of_placeStep {base input : Dataset} (hb : base.IsFlat) {h : Hierarchy}
    {names : NameTable} {settings : Settings} {id : Nat}
    (hid : input.groupId (input.group id).path = .ok id) {g : Dataset.Group} {p : ProvenanceMaps}
    {tally : Tally} {t' : Transfer Dataset}
    (hrun : placeStep input h names settings (input.group id).path ⟨base.withRoot g, p⟩ =
      .ok tally t') :
    ∃ dims vars p', t' = ⟨base.withRoot { g with
        attributes := Attributes.setAll g.attributes ((input.group id).attributes.map fun entry =>
          (flatName (input.group id).path entry.1, entry.2))
        dimensions := dims
        vars := vars }, p'⟩ ∧
      p'.attributes = appendRecords p.attributes
        ((input.group id).attributes.map fun entry => recordOf (input.group id).path entry.1) := by
  obtain ⟨infos, t₁, hgroup, hrest⟩ := EStateM.bind_eq_ok_iff.mp hrun
  obtain ⟨attributes, t₂, hread, hgroup⟩ := EStateM.bind_eq_ok_iff.mp hgroup
  obtain ⟨hattributes, rfl⟩ := Transfer.fromInput_eq_ok_iff.mp hread
  -- the attributes that were read are those of the group
  obtain ⟨i, hi, rfl⟩ := groupAttributes_eq_ok_iff.mp hattributes
  obtain rfl := Except.ok.inj (hid.symm.trans hi)
  obtain ⟨⟨⟩, t₃, hset, hdims⟩ := EStateM.bind_eq_ok_iff.mp hgroup
  obtain rfl := Transfer.groupAttributes_ok hb hset
  -- everything behind the attributes spares them
  have hspared : Spares base (do
      let dims ← Transfer.fromInput (Readable.dimensions input (input.group id).path)
      dims.forM (Transfer.dimension (input.group id).path)
      Transfer.fromInput (Readable.variableInfos input (input.group id).path)) :=
    Spares.bind Spares.of_read fun dims =>
      Spares.bind (Spares.forM (spares_dimension hb _) dims) fun _ => Spares.of_read
  obtain ⟨dims, vars, p₁, hp₁, rfl⟩ := hspared _ _ _ _ hdims
  have hspared : Spares base (do
      let tallies ← infos.mapM (variableStep input h names settings (input.group id).path)
      pure (Tally.total tallies)) :=
    Spares.bind (Spares.mapM (spares_variableStep hb input h names settings _) infos) fun _ =>
      Spares.pure _
  obtain ⟨dims', vars', p', hp', rfl⟩ := hspared _ _ _ _ hrest
  exact ⟨dims', vars', p', rfl, hp'.trans hp₁⟩

/-- What the root's attributes and their provenance are at the end of a run. -/
theorem attributes_of_flatten {input output output' : Dataset} {settings : Settings}
    {report : Report} (hinput : input.WellFormed) (hnames : input.HasProperGroupNames)
    (houtput : output.WellFormed) (hrun : flatten input settings output = .ok report output') :
    output'.root.attributes =
        Attributes.setAll
          (Attributes.setAll output.root.attributes ((groupAttributes input).map flatAttribute))
          (provenanceEntries report.provenance) ∧
      report.provenance.attributes.records =
        (groupAttributes input).map fun entry => recordOf entry.1 entry.2.1 := by
  obtain ⟨h, t', hsnapshot, hb, hall, rfl⟩ := flatten_ok houtput hrun
  obtain ⟨hsurveyed, -⟩ := Hierarchy.forall₂_surveyed hinput hnames hsnapshot
  -- the groups one after another, then the provenance
  obtain ⟨tallies, t₁, hwalk, hfinish⟩ := transferAll_ok hsurveyed hall
  -- along the groups: the root holds the attributes of those done, later ones over earlier ones
  have hI := EStateM.mapM_induction
    (I := fun done _ t => ∃ dims vars p', t = ⟨output.withRoot { output.root with
        attributes := Attributes.setAll output.root.attributes
          ((done.flatMap fun id => (input.group id).attributes.map fun entry =>
            ((input.group id).path, entry)).map flatAttribute)
        dimensions := dims
        vars := vars }, p'⟩ ∧
      p'.attributes.records = (done.flatMap fun id => (input.group id).attributes.map fun entry =>
        ((input.group id).path, entry)).map fun entry => recordOf entry.1 entry.2.1)
    (fun done _ id rest t _ t' hsplit ht hstep => ?_) ?_ hwalk
  · obtain ⟨dims, vars, p, rfl, hp⟩ := hI
    -- the provenance is set last, over everything else
    obtain ⟨hreport, rfl⟩ := finish_ok hb hfinish
    rw [hb.root_withRoot, hreport]
    exact ⟨rfl, hp⟩
  · obtain ⟨dims, vars, p, rfl, hp⟩ := ht
    have hid : id < input.groups.size := hinput.mem_groupIds_iff.mp (by simp [hsplit])
    obtain ⟨dims', vars', p', rfl, hp'⟩ :=
      attributes_of_placeStep hb (hinput.groupId_path hnames hid) hstep
    refine ⟨dims', vars', p', ?_, ?_⟩
    -- what one more group sets is set behind the others
    · simp [Attributes.setAll_append, flatAttribute, Function.comp_def]
    · rw [hp']
      simp [appendRecords, hp, Function.comp_def]
  · exact ⟨output.root.dimensions, output.root.vars, {}, rfl, rfl⟩

/-! ## What is kept -/

/-- An attribute of the root group is looked up in its list. -/
theorem groupAttribute?_root (d : Dataset) (name : String) :
    d.groupAttribute? ObjectPath.root name = Attributes.find? d.root.attributes name := by
  rw [Dataset.groupAttribute?, Dataset.groupAttributes, Dataset.groupId_root]
  rfl

/-- Whether every attribute of a group is found in the root under its flat name, unchanged. -/
def KeepsGroupAttributes (input output : Dataset) : Prop :=
  ∀ entry ∈ groupAttributes input,
    output.groupAttribute? ObjectPath.root (flatName entry.1 entry.2.1) = some entry.2.2

/-- The three provenance attributes have different names. -/
theorem nodup_names_provenanceEntries (maps : ProvenanceMaps) :
    ((provenanceEntries maps).map (·.1)).Nodup := by
  show [ProvenanceMaps.attributesName, ProvenanceMaps.dimensionsName,
    ProvenanceMaps.variablesName].Nodup
  decide

section Run

variable {input output' : Dataset} {location : String} {isNested : Bool} {settings : Settings}
  {report : Report} (hinput : input.WellFormed) (hnames : input.HasProperGroupNames)
  (hrun : flatten input settings (Dataset.create location isNested) = .ok report output')

include hinput hnames hrun

/-- Under a name of the root is found what the provenance has under it, or else the last attribute
of a group with this flat name. -/
theorem groupAttribute?_of_flatten (name : String) :
    output'.groupAttribute? ObjectPath.root name =
      (Attributes.find? (provenanceEntries report.provenance).reverse name).or
        (Attributes.find? ((groupAttributes input).map flatAttribute).reverse name) := by
  obtain ⟨hattributes, -⟩ := attributes_of_flatten hinput hnames
    (Dataset.WellFormed.create location isNested) hrun
  have hempty : (Dataset.create location isNested).root.attributes = [] := rfl
  rw [groupAttribute?_root, hattributes, Attributes.find?_setAll, Attributes.find?_setAll, hempty,
    Attributes.find?_nil, Option.or_none]

/-- The attribute map is a bijection exactly if no flat name and no path occurs twice. -/
theorem isBijective_attributes_iff : report.provenance.attributes.isBijective = true ↔
    ((groupAttributes input).map fun entry => flatName entry.1 entry.2.1).Nodup ∧
      ((groupAttributes input).map fun entry => join entry.1 entry.2.1).Nodup := by
  obtain ⟨-, hrecords⟩ := attributes_of_flatten hinput hnames
    (Dataset.WellFormed.create location isNested) hrun
  rw [Provenance.isBijective_iff, hrecords, List.map_map, List.map_map]
  rfl

end Run

/-- A run into an empty output keeps all attributes of groups, with a provenance that is a
bijection, just when their flat names are distinct, their paths are distinct, and each of them that
has a name of the provenance for its flat name holds the very value that the provenance has. -/
theorem groupAttributes_kept_iff {input output' : Dataset} {location : String} {isNested : Bool}
    {settings : Settings} {report : Report} (hinput : input.Reachable)
    (hnames : input.HasProperGroupNames)
    (hrun : flatten input settings (Dataset.create location isNested) = .ok report output') :
    (KeepsGroupAttributes input output' ∧ report.provenance.attributes.isBijective = true) ↔
      ((groupAttributes input).map fun entry => flatName entry.1 entry.2.1).Nodup ∧
        ((groupAttributes input).map fun entry => join entry.1 entry.2.1).Nodup ∧
        ∀ entry ∈ groupAttributes input, ∀ value,
          (flatName entry.1 entry.2.1, value) ∈ provenanceEntries report.provenance →
            value = entry.2.2 := by
  have hfound := groupAttribute?_of_flatten hinput.wellFormed hnames hrun
  have hprovenance := nodup_names_provenanceEntries report.provenance
  rw [isBijective_attributes_iff hinput.wellFormed hnames hrun]
  constructor
  -- where all is kept, a flat name that the provenance has too reads as the provenance
  · rintro ⟨hkept, hflat, hpath⟩
    refine ⟨hflat, hpath, fun entry hentry value hvalue => ?_⟩
    have h := hkept entry hentry
    rw [hfound, Attributes.find?_reverse_of_mem hprovenance hvalue] at h
    exact Option.some.inj h
  · rintro ⟨hflat, hpath, hmeets⟩
    refine ⟨fun entry hentry => ?_, hflat, hpath⟩
    -- an attribute with a flat name of its own is the last one of this name
    have hlast : Attributes.find? ((groupAttributes input).map flatAttribute).reverse
        (flatName entry.1 entry.2.1) = some entry.2.2 := by
      have hmem : flatAttribute entry ∈ (groupAttributes input).map flatAttribute :=
        List.mem_map_of_mem hentry
      refine Attributes.find?_reverse_of_mem ?_ hmem
      simpa only [List.map_map, Function.comp_def, flatAttribute] using hflat
    rw [hfound, hlast]
    cases hvalue : Attributes.find? (provenanceEntries report.provenance).reverse
        (flatName entry.1 entry.2.1) with
    | none => rfl
    | some value =>
      have hmem := List.mem_reverse.mp (Attributes.mem_of_find? hvalue)
      rw [hmeets entry hentry value hmem]
      rfl

/-- Titles at different levels of the tree. -/
def chapters : Dataset :=
  (Dataset.create "chapters" true).applyAll
    [.groupAttribute "/" "title" (.text "outer"),
      .group "/" "g",
      .groupAttribute "/g" "title" (.text "inner")]

/-- Titles with distinct flat names are all kept. -/
theorem chapters_kept : chapters.Reachable ∧ chapters.HasProperGroupNames ∧
    ∃ report output, flatten chapters {} (Dataset.create "flat" false) = .ok report output ∧
      KeepsGroupAttributes chapters output ∧
      report.provenance.attributes.isBijective = true := by
  have hreachable : chapters.Reachable := (Dataset.Reachable.create "chapters" true).applyAll _
  have hnames : chapters.HasProperGroupNames := by decide +kernel
  have hsucceeds : EStateM.succeedsWith (fun (_ : Report) (_ : Dataset) => true)
      (flatten chapters {} (Dataset.create "flat" false)) = true := by decide +kernel
  obtain ⟨report, output, hrun, -⟩ := EStateM.exists_of_succeedsWith _ hsucceeds
  refine ⟨hreachable, hnames, report, output, hrun,
    (groupAttributes_kept_iff hreachable hnames hrun).mpr
      ⟨by decide +kernel, by decide +kernel, fun entry hentry value hvalue => ?_⟩⟩
  -- no title has a name of the provenance
  have hfree : ∀ entry ∈ groupAttributes chapters, flatName entry.1 entry.2.1 ∉
      [ProvenanceMaps.attributesName, ProvenanceMaps.dimensionsName,
        ProvenanceMaps.variablesName] := by decide +kernel
  exact absurd (List.mem_map_of_mem (f := Prod.fst) hvalue) (hfree entry hentry)

/-- A title at the root whose name is the flat name of another title. -/
def titles : Dataset :=
  (Dataset.create "titles" true).applyAll
    [.groupAttribute "/" "g__title" (.text "outer"),
      .group "/" "g",
      .groupAttribute "/g" "title" (.text "inner")]

/-- Two attributes of one flat name do not stop a run: the later one replaces the earlier one, and
the provenance knows two paths for one name. -/
theorem titles_merged : titles.Reachable ∧ titles.HasProperGroupNames ∧
    ∃ report output, flatten titles {} (Dataset.create "flat" false) = .ok report output ∧
      output.groupAttribute? ObjectPath.root (flatName "/" "g__title") = some (.text "inner") ∧
      report.provenance.attributes.isBijective = false := by
  refine ⟨(Dataset.Reachable.create "titles" true).applyAll _, by decide +kernel, ?_⟩
  have hsucceeds : EStateM.succeedsWith (fun (report : Report) (output : Dataset) =>
      decide (output.groupAttribute? ObjectPath.root (flatName "/" "g__title") =
        some (.text "inner")) && !report.provenance.attributes.isBijective)
      (flatten titles {} (Dataset.create "flat" false)) = true := by decide +kernel
  obtain ⟨report, output, hrun, hcheck⟩ := EStateM.exists_of_succeedsWith _ hsucceeds
  simp only [Bool.and_eq_true, decide_eq_true_eq, Bool.not_eq_true'] at hcheck
  exact ⟨report, output, hrun, hcheck⟩

end GroupFlattening.Flatten
