import GroupFlattening.Proofs.Dataset.Reachable
import GroupFlattening.Proofs.Flatten.Data
import GroupFlattening.Proofs.Flatten.Session
import Mathlib.Data.List.Nodup

/-!
# Progress of a Run

`Progress` says what the root of the output looks like after some dimensions and some variables
have been carried over: behind what was there before come their flat copies, in their order and
under distinct names, and the provenance has one record for each. Every step adds to it
(`Progress.group`, `Progress.variable`), so a run that succeeds has carried over everything
(`progress_of_flatten`).

The sizes of dimensions need more: as long as a run may still fail, a dimension of the output could
be mistaken for another one of the same flat name. `Progress` therefore gives sizes under the
condition that no flat name occurs twice in the end, which is what success shows.
-/

namespace GroupFlattening

namespace Dataset

/-- A variable as it is listed, where its dimensions can be found. -/
def listed (d : Dataset) (v : Variable) : VariableInfo :=
  ⟨v.name, v.type, v.dimensions, v.dimensions.map d.sizeOf⟩

/-- Whether data that fills a variable reaches the end of the dimension at a path: the variable has
the dimension, and none of its axes is empty. -/
def reaches (d : Dataset) (v : Variable) (path : String) : Bool :=
  v.dimensions.contains path && v.dimensions.all fun q => d.sizeOf q != 0

/-- A group lists its variables with their current shapes, in the order of their creation. -/
theorem variableInfos_eq_map {d : Dataset} {id : Nat} {infos : List VariableInfo}
    (hid : d.groupId (d.group id).path = .ok id)
    (h : d.variableInfos (d.group id).path = .ok infos) :
    infos = (d.group id).vars.map d.listed := by
  obtain ⟨i, hi, hinfos⟩ := Hierarchy.variableInfos_eq_ok_iff.mp h
  obtain rfl := Except.ok.inj (hid.symm.trans hi)
  have hmap := Forall₂.map_eq hinfos (f := d.listed) (g := fun info => info) fun v info hinfo => by
    obtain ⟨shape, hshape, rfl⟩ := Hierarchy.infoOf_eq_ok_iff.mp hinfo
    rw [listed, ← shape_eq_of_shapeOf hshape]
  rw [hmap, List.map_id']

end Dataset

namespace Flatten

open Dataset (IsFlat)
open ObjectPath (join separator)
open Transfer (recordOf appendRecords createdDimension)

/-! ## What has been carried over -/

/-- The dimensions of a dataset, in the order of the tree. -/
def groupDimensions (d : Dataset) : List (String × Dimension) := d.located (·.dimensions)

/-- The variables of a dataset, in the order of the tree. -/
def groupVariables (d : Dataset) : List (String × Dataset.Variable) := d.located (·.vars)

/-- The flat name of a dimension. -/
def dimensionName (entry : String × Dimension) : String := flatName entry.1 entry.2.name

/-- The flat name of a variable. -/
def variableName (entry : String × Dataset.Variable) : String := flatName entry.1 entry.2.name

/-- Whether the data of one of the variables was copied up to the end of a dimension. -/
def isReached (input : Dataset) (settings : Settings) (vars : List (String × Dataset.Variable))
    (entry : String × Dimension) : Bool :=
  settings.copyData && vars.any fun u => input.reaches u.2 (join entry.1 entry.2.name)

/-- The flat copy of a dimension after some variables have been carried over. An unlimited one is
empty until data reaches its end. -/
def flatDimension (input : Dataset) (settings : Settings)
    (vars : List (String × Dataset.Variable)) (entry : String × Dimension) : Dimension :=
  { name := dimensionName entry
    size := if entry.2.isUnlimited && !isReached input settings vars entry then 0
      else entry.2.size
    isUnlimited := entry.2.isUnlimited }

/-! ## Sizes of the copies -/

section Copies

variable {input : Dataset} {settings : Settings} {vars : List (String × Dataset.Variable)}
  {e : String × Dimension} {place : String} {v : Dataset.Variable}

/-- The copy of a dimension has its size unless the dimension is unlimited, not empty and was not
reached. -/
theorem flatDimension_eq_iff :
    flatDimension input settings vars e = ⟨dimensionName e, e.2.size, e.2.isUnlimited⟩ ↔
      (e.2.isUnlimited = true → e.2.size ≠ 0 → isReached input settings vars e = true) := by
  simp only [flatDimension, Dimension.mk.injEq, true_and, and_true]
  cases e.2.isUnlimited <;> cases isReached input settings vars e <;> simp [eq_comm]

/-- The copy of a dimension is never longer than the dimension. -/
theorem size_flatDimension_le : (flatDimension input settings vars e).size ≤ e.2.size := by
  simp only [flatDimension]
  split
  · exact Nat.zero_le _
  · exact Nat.le_refl _

/-- A variable whose data was copied reaches its dimensions. -/
theorem isReached_append_of_copied
    (hcopied : settings.copyData = true ∧ 0 ∉ v.dimensions.map input.sizeOf) :
    isReached input settings (vars ++ [(place, v)]) e =
      (isReached input settings vars e || v.dimensions.contains (join e.1 e.2.name)) := by
  -- no axis is empty, so the data of the variable ends where its dimensions do
  have hall : (v.dimensions.all fun q => input.sizeOf q != 0) = true := by
    rw [List.all_eq_true]
    intro q hq
    have hne : input.sizeOf q ≠ 0 := fun h0 => hcopied.2 (h0 ▸ List.mem_map_of_mem hq)
    simpa using hne
  simp [isReached, hcopied.1, Dataset.reaches, hall]

/-- A variable whose data was not copied reaches nothing. -/
theorem isReached_append_of_not_copied
    (hcopied : ¬ (settings.copyData = true ∧ 0 ∉ v.dimensions.map input.sizeOf)) :
    isReached input settings (vars ++ [(place, v)]) e = isReached input settings vars e := by
  cases hcopy : settings.copyData with
  | false => simp [isReached, hcopy]
  | true =>
    -- an axis is empty, so there is no data
    have hzero : 0 ∈ v.dimensions.map input.sizeOf := by
      simpa [hcopy] using hcopied
    obtain ⟨q, hq, hsize⟩ := List.mem_map.mp hzero
    have hempty : (v.dimensions.all fun q => input.sizeOf q != 0) = false := by
      rw [List.all_eq_false]
      exact ⟨q, hq, by simp [hsize]⟩
    simp [isReached, Dataset.reaches, hempty]

end Copies

/-! ## The invariant -/

/-- What the root of the output and the provenance are once some dimensions and variables of the
input have been carried over. -/
structure Progress (input base : Dataset) (h : Hierarchy) (settings : Settings)
    (doneDims : List (String × Dimension)) (doneVars : List (String × Dataset.Variable))
    (g : Dataset.Group) (p : ProvenanceMaps) : Prop where
  known : ∀ entry ∈ doneDims, entry ∈ groupDimensions input
  /-- The copies of dimensions come behind the dimensions that were there. -/
  dimensionNames : g.dimensions.map (·.name) =
    base.root.dimensions.map (·.name) ++ doneDims.map dimensionName
  nodupDimensions : (g.dimensions.map (·.name)).Nodup
  /-- The copies of variables come behind the variables that were there. -/
  copies : ∃ copies, g.vars = base.root.vars ++ copies ∧
    List.Forall₂ (fun entry copy =>
      FlatCopy input h (NameTable.ofHierarchy h) settings entry.1 entry.2 copy) doneVars copies
  nodupVars : (g.vars.map (·.name)).Nodup
  dimensionRecords : p.dimensions.records = doneDims.map fun e => recordOf e.1 e.2.name
  variableRecords : p.vars.records = doneVars.map fun e => recordOf e.1 e.2.name
  /-- A variable was created when its dimensions were there. -/
  used : ∀ entry ∈ doneVars, ∀ path ∈ entry.2.dimensions, ∃ flat,
    (NameTable.ofHierarchy h).dimensions.find? path = some flat ∧
      flat ∈ g.dimensions.map (·.name)
  sizes : (base.root.dimensions.map (·.name) ++ (groupDimensions input).map dimensionName).Nodup →
    g.dimensions = base.root.dimensions ++ doneDims.map (flatDimension input settings doneVars)

section Steps

variable {input base : Dataset} (hinput : input.WellFormed) (hproper : input.HasProperNames)
  (hb : base.IsFlat) {h : Hierarchy} {limit : Nat}
  (hsnapshot : Hierarchy.ofDataset input limit = .ok h)

include hinput hproper hsnapshot

/-- A flat name for the path of a dimension is the flat name of that dimension. -/
theorem exists_dimension_of_find? {path flat : String}
    (hfind : (NameTable.ofHierarchy h).dimensions.find? path = some flat) :
    ∃ e ∈ groupDimensions input, path = join e.1 e.2.name ∧ flat = dimensionName e := by
  obtain ⟨o, ho, rfl, rfl⟩ := NameTable.exists_object_of_ofKind hinput hproper.groups
    hsnapshot .dim hfind
  obtain ⟨id, hid, hpath, hname⟩ := Dataset.mem_located.mp ho
  obtain ⟨dim, hdim, hdimname⟩ := List.mem_map.mp hname
  refine ⟨(o.1, dim), Dataset.mem_located.mpr ⟨id, hid, hpath, hdim⟩, ?_, ?_⟩
  · rw [hdimname]
  · rw [dimensionName, hdimname]

omit hsnapshot in
/-- A dimension of the input is found by its path. -/
theorem dimension_of_mem {e : String × Dimension} (he : e ∈ groupDimensions input) :
    input.dimension (join e.1 e.2.name) = .ok e.2 := by
  obtain ⟨id, hid, hpath, hdim⟩ := Dataset.mem_located.mp he
  rw [← hpath]
  exact hinput.dimension_join hproper (hinput.mem_groupIds_iff.mp hid) hdim

omit hsnapshot in
/-- The path of a dimension is that of no other one. -/
theorem eq_of_join_eq {e e' : String × Dimension} (he : e ∈ groupDimensions input)
    (he' : e' ∈ groupDimensions input) (heq : join e.1 e.2.name = join e'.1 e'.2.name) :
    e = e' := by
  obtain ⟨id, hid, hpath, hdim⟩ := Dataset.mem_located.mp he
  obtain ⟨id', hid', hpath', hdim'⟩ := Dataset.mem_located.mp he'
  have hlt := hinput.mem_groupIds_iff.mp hid
  have hlt' := hinput.mem_groupIds_iff.mp hid'
  obtain ⟨hplace, hname⟩ := ObjectPath.join_inj (hpath ▸ hinput.path_ne_empty hlt)
    (hpath' ▸ hinput.path_ne_empty hlt') (hproper.dimensions id hlt e.2 hdim).2
    (hproper.dimensions id' hlt' e'.2 hdim').2 heq
  -- the places are the same, and what is found by the path is one dimension
  have hdimeq := dimension_of_mem hinput hproper he
  rw [heq, dimension_of_mem hinput hproper he'] at hdimeq
  exact Prod.ext hplace (Except.ok.inj hdimeq).symm

omit hsnapshot in
/-- The flat name of a dimension has no slash. -/
theorem separator_not_mem_dimensionName {e : String × Dimension}
    (he : e ∈ groupDimensions input) : separator ∉ (dimensionName e).toList := by
  obtain ⟨id, hid, -, hdim⟩ := Dataset.mem_located.mp he
  have hname := (hproper.dimensions id (hinput.mem_groupIds_iff.mp hid) e.2 hdim).2
  exact separator_not_mem_flatName hname

omit hsnapshot in
/-- The flat name of a variable has no slash. -/
theorem separator_not_mem_variableName {e : String × Dataset.Variable}
    (he : e ∈ groupVariables input) : separator ∉ (variableName e).toList := by
  obtain ⟨id, hid, -, hv⟩ := Dataset.mem_located.mp he
  have hname := (hproper.vars id (hinput.mem_groupIds_iff.mp hid) e.2 hv).2
  exact separator_not_mem_flatName hname

/-- The flat names of the name table have no slashes. -/
theorem separator_not_mem_of_find? {path flat : String}
    (hfind : (NameTable.ofHierarchy h).dimensions.find? path = some flat) :
    separator ∉ flat.toList := by
  obtain ⟨e, he, -, rfl⟩ := exists_dimension_of_find? hinput hproper hsnapshot hfind
  exact separator_not_mem_dimensionName hinput hproper he

/-! ## One step after the other -/

/-- The axes of a variable, by the flat names of its dimensions. -/
theorem forall₂_axes {paths flats : List String}
    (hflats : List.Forall₂ (fun path flat =>
      (NameTable.ofHierarchy h).dimensions.find? path = some flat) paths flats) :
    List.Forall₂ (fun path axis => (∃ e ∈ groupDimensions input, path = join e.1 e.2.name ∧
        axis.1 = dimensionName e ∧ axis.2 = e.2.size) ∧
      (NameTable.ofHierarchy h).dimensions.find? path = some axis.1)
      paths (flats.zip (paths.map input.sizeOf)) := by
  induction hflats with
  -- along the dimensions of the variable and their flat names
  | nil => exact .nil
  | cons hflat _ ih =>
    refine .cons ⟨?_, hflat⟩ ih
    obtain ⟨e, he, rfl, rfl⟩ := exists_dimension_of_find? hinput hproper hsnapshot hflat
    refine ⟨e, he, rfl, rfl, ?_⟩
    rw [Dataset.sizeOf_of_dimension (dimension_of_mem hinput hproper he)]

section Grown

variable {settings : Settings} {done : List (String × Dataset.Variable)} {place : String}
  {v : Dataset.Variable} {flats : List String}
  (hnodup : ((groupDimensions input).map dimensionName).Nodup)
  (hflats : List.Forall₂ (fun path flat =>
    (NameTable.ofHierarchy h).dimensions.find? path = some flat) v.dimensions flats)

include hnodup hflats

/-- Where flat names are distinct, an axis of the name of a copy is one along the dimension
itself. -/
theorem axis_of_name {e : String × Dimension} (he : e ∈ groupDimensions input)
    {axis : String × Nat} (haxis : axis ∈ flats.zip (v.dimensions.map input.sizeOf))
    (hname : axis.1 = dimensionName e) :
    join e.1 e.2.name ∈ v.dimensions ∧ axis.2 = e.2.size := by
  obtain ⟨path, hpath, ⟨e', he', rfl, hname', hsize⟩, -⟩ :=
    Forall₂.exists_left (forall₂_axes hinput hproper hsnapshot hflats) haxis
  obtain rfl := List.inj_on_of_nodup_map hnodup he' he (hname'.symm.trans hname)
  exact ⟨hpath, hsize⟩

/-- The data of a variable takes the copies of its dimensions to their ends. -/
theorem size_grown_flatDimension {e : String × Dimension} (he : e ∈ groupDimensions input)
    (hmem : join e.1 e.2.name ∈ v.dimensions) :
    (Dimension.grown (flats.zip (v.dimensions.map input.sizeOf))
      (flatDimension input settings done e)).size = e.2.size := by
  apply Nat.le_antisymm
  -- no axis ends behind the dimension, and one ends where it does
  · refine Dimension.size_grown_le size_flatDimension_le fun axis haxis hname => ?_
    exact Nat.le_of_eq (axis_of_name hinput hproper hsnapshot hnodup hflats he haxis hname).2
  · obtain ⟨axis, haxis, ⟨e', he', heq, hname, hsize⟩, -⟩ :=
      Forall₂.exists_right (forall₂_axes hinput hproper hsnapshot hflats) hmem
    obtain rfl := eq_of_join_eq hinput hproper he he' heq
    rw [← hsize]
    exact Dimension.le_size_grown haxis hname

/-- The data of a variable takes the copy of a dimension to where it should be once the variable
has been carried over. -/
theorem grown_flatDimension
    (hcopied : settings.copyData = true ∧ 0 ∉ v.dimensions.map input.sizeOf)
    {e : String × Dimension} (he : e ∈ groupDimensions input) :
    Dimension.grown (flats.zip (v.dimensions.map input.sizeOf))
        (flatDimension input settings done e) =
      flatDimension input settings (done ++ [(place, v)]) e := by
  by_cases hmem : join e.1 e.2.name ∈ v.dimensions
  -- an axis of the variable reaches the end of the dimension, so the copy is complete
  · have hreached : isReached input settings (done ++ [(place, v)]) e = true := by
      rw [isReached_append_of_copied hcopied]
      simp [hmem]
    rw [flatDimension_eq_iff.mpr fun _ _ => hreached]
    refine Dimension.ext ?_ ?_ ?_
    · rw [Dimension.name_grown, flatDimension]
    · exact size_grown_flatDimension hinput hproper hsnapshot hnodup hflats he hmem
    · rw [Dimension.isUnlimited_grown, flatDimension]
  -- the variable has no such dimension, so its data leaves the copy as it is
  · have hfree : (flatDimension input settings done e).name ∉
        (flats.zip (v.dimensions.map input.sizeOf)).map (·.1) := by
      intro hin
      obtain ⟨axis, haxis, hname⟩ := List.mem_map.mp hin
      exact hmem (axis_of_name hinput hproper hsnapshot hnodup hflats he haxis hname).1
    rw [Dimension.grown_of_not_mem hfree, flatDimension, flatDimension,
      isReached_append_of_copied hcopied]
    simp [hmem]

end Grown

variable {settings : Settings} {doneDims : List (String × Dimension)}
  {doneVars : List (String × Dataset.Variable)} {g : Dataset.Group} {p : ProvenanceMaps}
  {t' : Transfer Dataset} {id : Nat}

include hb

omit hb in
/-- No variable that was carried over has a dimension whose copy is not there yet. -/
theorem Progress.isReached_eq_false (hp : Progress input base h settings doneDims doneVars g p)
    {e : String × Dimension} (he : e ∈ groupDimensions input)
    (hnew : dimensionName e ∉ g.dimensions.map (·.name)) :
    isReached input settings doneVars e = false := by
  rw [Bool.eq_false_iff]
  intro hreached
  simp only [isReached, Bool.and_eq_true, List.any_eq_true, Dataset.reaches,
    List.contains_iff_mem] at hreached
  obtain ⟨-, u, hu, hpath, -⟩ := hreached
  -- the variable that reaches it uses its copy, which would have to exist
  obtain ⟨flat, hfind, hflat⟩ := hp.used u hu _ hpath
  obtain ⟨e', he', heq, rfl⟩ := exists_dimension_of_find? hinput hproper hsnapshot hfind
  obtain rfl := eq_of_join_eq hinput hproper he he' heq
  exact hnew hflat

omit hinput hproper hsnapshot in
/-- Carrying over a group sets its attributes and appends its dimensions, under names that were not
there. -/
theorem group_ok (hpath : input.groupId (input.group id).path = .ok id)
    (hnodup : (g.dimensions.map (·.name)).Nodup) {infos : List VariableInfo}
    (hrun : Transfer.group input (input.group id).path ⟨base.withRoot g, p⟩ = .ok infos t') :
    infos = (input.group id).vars.map input.listed ∧
      ((g.dimensions ++ (input.group id).dimensions.map
        (createdDimension (input.group id).path)).map (·.name)).Nodup ∧
      t' = ⟨base.withRoot { g with
          attributes := Attributes.setAll g.attributes ((input.group id).attributes.map fun e =>
            (flatName (input.group id).path e.1, e.2))
          dimensions := g.dimensions ++ (input.group id).dimensions.map
            (createdDimension (input.group id).path) },
        { p with
          attributes := appendRecords p.attributes ((input.group id).attributes.map fun e =>
            recordOf (input.group id).path e.1)
          dimensions := appendRecords p.dimensions ((input.group id).dimensions.map fun dim =>
            recordOf (input.group id).path dim.name) }⟩ := by
  obtain ⟨attributes, t₁, hread, hrest⟩ := EStateM.bind_eq_ok_iff.mp hrun
  obtain ⟨hattributes, rfl⟩ := Transfer.fromInput_eq_ok_iff.mp hread
  obtain ⟨i, hi, hpure⟩ := Except.bind_eq_ok_iff.mp hattributes
  obtain rfl := Except.ok.inj (hpath.symm.trans hi)
  obtain rfl := Except.pure_eq_ok_iff.mp hpure
  -- the attributes first
  obtain ⟨⟨⟩, t₂, hset, hrest⟩ := EStateM.bind_eq_ok_iff.mp hrest
  obtain rfl := Transfer.groupAttributes_ok hb hset
  -- then the dimensions, whose names have to be new
  obtain ⟨dims, t₃, hinputDims, hrest⟩ := EStateM.bind_eq_ok_iff.mp hrest
  obtain ⟨hdims, rfl⟩ := Transfer.fromInput_eq_ok_iff.mp hinputDims
  obtain ⟨i, hi, rfl⟩ := Hierarchy.dimensions_eq_ok_iff.mp hdims
  obtain rfl := Except.ok.inj (hpath.symm.trans hi)
  obtain ⟨⟨⟩, t₄, hcreate, hlist⟩ := EStateM.bind_eq_ok_iff.mp hrest
  obtain ⟨hnew, rfl⟩ := Transfer.dimensions_ok hb hcreate hnodup
  -- and last the variables, which are listed only
  obtain ⟨hinfos, rfl⟩ := Transfer.fromInput_eq_ok_iff.mp hlist
  exact ⟨Dataset.variableInfos_eq_map hpath hinfos, hnew, rfl⟩

/-- Carrying over a group adds its dimensions. -/
theorem Progress.group (hid : id < input.groups.size) {infos : List VariableInfo}
    (hp : Progress input base h settings doneDims doneVars g p)
    (hrun : Transfer.group input (input.group id).path ⟨base.withRoot g, p⟩ = .ok infos t') :
    infos = (input.group id).vars.map input.listed ∧
      ∃ g' p', t' = ⟨base.withRoot g', p'⟩ ∧ Progress input base h settings
        (doneDims ++ (input.group id).dimensions.map fun dim => ((input.group id).path, dim))
        doneVars g' p' := by
  obtain ⟨hinfos, hnodup, rfl⟩ := group_ok hb
    (hinput.groupId_path hproper.groups hid) hp.nodupDimensions hrun
  refine ⟨hinfos, _, _, rfl, ?_⟩
  -- the group is one of the input, and its attributes do not matter here
  have hmem : ∀ dim ∈ (input.group id).dimensions,
      ((input.group id).path, dim) ∈ groupDimensions input := fun dim hdim =>
    Dataset.mem_located.mpr ⟨id, hinput.mem_groupIds_iff.mpr hid, rfl, hdim⟩
  refine
    { known := fun e he => ?_
      dimensionNames := ?_
      nodupDimensions := hnodup
      copies := hp.copies
      nodupVars := hp.nodupVars
      dimensionRecords := ?_
      variableRecords := hp.variableRecords
      used := fun e he path hpath => ?_
      sizes := fun hall => ?_ }
  -- dimensions carried over before, and those of the group
  · rcases List.mem_append.mp he with he | he
    · exact hp.known e he
    · obtain ⟨dim, hdim, rfl⟩ := List.mem_map.mp he
      exact hmem dim hdim
  · rw [List.map_append, hp.dimensionNames, List.map_append, List.append_assoc, List.map_map,
      List.map_map]
    rfl
  · simp [appendRecords, hp.dimensionRecords, Function.comp_def]
  -- the copies that variables use are still there
  · obtain ⟨flat, hfind, hflat⟩ := hp.used e he path hpath
    exact ⟨flat, hfind, by rw [List.map_append]; exact List.mem_append_left _ hflat⟩
  · rw [List.map_append, ← List.append_assoc, ← hp.sizes hall, List.map_map]
    refine congrArg (g.dimensions ++ ·) (List.map_congr_left fun dim hdim => ?_)
    rw [List.map_append] at hnodup
    -- the name is new, so no variable can have reached the dimension
    have hnew : flatName (input.group id).path dim.name ∉ g.dimensions.map (·.name) := by
      intro hmem'
      refine (List.nodup_append.mp hnodup).2.2 _ hmem' _ ?_ rfl
      exact List.mem_map.mpr
        ⟨createdDimension (input.group id).path dim, List.mem_map_of_mem hdim, rfl⟩
    have hfree := hp.isReached_eq_false hinput hproper hsnapshot (hmem dim hdim) hnew
    simp [flatDimension, hfree, createdDimension, dimensionName]

omit hb in
/-- Data that is copied takes the dimensions of the output to where they should be. -/
theorem Progress.grown_dimensions {place : String} {v : Dataset.Variable} {flats : List String}
    (hp : Progress input base h settings doneDims doneVars g p)
    (hflats : List.Forall₂ (fun path flat =>
      (NameTable.ofHierarchy h).dimensions.find? path = some flat) v.dimensions flats)
    (hdistinct : (base.root.dimensions.map (·.name) ++
      (groupDimensions input).map dimensionName).Nodup) :
    (if settings.copyData = true ∧ 0 ∉ v.dimensions.map input.sizeOf then
      g.dimensions.map (Dimension.grown (flats.zip (v.dimensions.map input.sizeOf)))
      else g.dimensions) =
      base.root.dimensions ++
        doneDims.map (flatDimension input settings (doneVars ++ [(place, v)])) := by
  -- whether there was data to copy
  have hsizes := hp.sizes hdistinct
  split
  · next hcopied =>
    -- the dimensions that were there have other names than all copies
    have hbase : base.root.dimensions.map
        (Dimension.grown (flats.zip (v.dimensions.map input.sizeOf))) =
          base.root.dimensions := by
      refine (List.map_congr_left fun dim hdim => ?_).trans (List.map_id _)
      apply Dimension.grown_of_not_mem
      intro hin
      obtain ⟨axis, haxis, hname⟩ := List.mem_map.mp hin
      obtain ⟨path, -, ⟨e, he, -, hname', -⟩, -⟩ := Forall₂.exists_left
        (forall₂_axes hinput hproper hsnapshot hflats) haxis
      exact (List.nodup_append.mp hdistinct).2.2 _ (List.mem_map_of_mem hdim) _
        (List.mem_map_of_mem he) (hname.symm.trans hname')
    rw [hsizes, List.map_append, hbase, List.map_map]
    refine congrArg _ (List.map_congr_left fun e he => ?_)
    exact grown_flatDimension hinput hproper hsnapshot (List.nodup_append.mp hdistinct).2.1 hflats
      hcopied (hp.known e he)
  · next hcopied =>
    -- without data nothing grows and nothing is reached
    rw [hsizes]
    refine congrArg _ (List.map_congr_left fun e _ => ?_)
    rw [flatDimension, flatDimension, isReached_append_of_not_copied hcopied]

/-- Carrying over a variable adds its copy, and takes dimensions to where its data ends. -/
theorem Progress.variable (hid : id < input.groups.size) {v : Dataset.Variable} {tally : Tally}
    (hv : v ∈ (input.group id).vars) (hp : Progress input base h settings doneDims doneVars g p)
    (hrun : variableStep input h (NameTable.ofHierarchy h) settings (input.group id).path
      (input.listed v) ⟨base.withRoot g, p⟩ = .ok tally t') :
    ∃ g' p', t' = ⟨base.withRoot g', p'⟩ ∧ Progress input base h settings doneDims
      (doneVars ++ [((input.group id).path, v)]) g' p' := by
  -- the copy has the attributes and dimensions that the listing gave, under a new name
  obtain ⟨flats, copy, hflats, hthere, hcopy, hnew, rfl⟩ := variableStep_ok hb
    (separator_not_mem_flatName (hproper.vars id hid v hv).2)
    (fun path flat hfind => separator_not_mem_of_find? hinput hproper hsnapshot hfind)
    (hinput.findVariable_join hproper hid hv) ((hinput.groups id).variableAttributes v hv)
    hp.nodupDimensions hrun
  refine ⟨_, _, rfl, ?_⟩
  -- data makes dimensions grow and renames none
  have hnames : (if settings.copyData = true ∧ 0 ∉ input.currentShape v then
      g.dimensions.map (Dimension.grown (flats.zip (input.currentShape v)))
      else g.dimensions).map (·.name) = g.dimensions.map (·.name) := by
    split
    · simp [Function.comp_def]
    · rfl
  obtain ⟨copies, hcopies, hall⟩ := hp.copies
  refine
    { known := hp.known
      dimensionNames := hnames.trans hp.dimensionNames
      nodupDimensions := hnames ▸ hp.nodupDimensions
      copies := ⟨copies ++ [copy], by rw [hcopies, List.append_assoc],
        Forall₂.append hall (.cons hcopy .nil)⟩
      nodupVars := ?_
      dimensionRecords := hp.dimensionRecords
      variableRecords := ?_
      used := fun e he path hpath => ?_
      sizes := fun hdistinct => ?_ }
  -- creating the copy has checked that its name is new
  · rw [List.map_append]
    refine List.nodup_append.mpr ⟨hp.nodupVars, by simp, fun a ha b hb heq => hnew ?_⟩
    obtain rfl : b = copy.name := by simpa using hb
    rw [← hcopy.name]
    exact heq ▸ ha
  · simp [appendRecords, hp.variableRecords]
  · rw [hnames]
    -- the dimensions of earlier variables, and those of this one
    rcases List.mem_append.mp he with he | he
    · exact hp.used e he path hpath
    · obtain rfl := List.mem_singleton.mp he
      obtain ⟨flat, hflat, hfind⟩ := Forall₂.exists_right hflats hpath
      exact ⟨flat, hfind, hthere flat hflat⟩
  · exact hp.grown_dimensions hinput hproper hsnapshot hflats hdistinct

/-- Carrying over a group with its variables adds its dimensions and then its variables. -/
theorem Progress.place (hid : id < input.groups.size) {tally : Tally}
    (hp : Progress input base h settings doneDims doneVars g p)
    (hrun : placeStep input h (NameTable.ofHierarchy h) settings (input.group id).path
      ⟨base.withRoot g, p⟩ = .ok tally t') :
    ∃ g' p', t' = ⟨base.withRoot g', p'⟩ ∧ Progress input base h settings
      (doneDims ++ (input.group id).dimensions.map fun dim => ((input.group id).path, dim))
      (doneVars ++ (input.group id).vars.map fun v => ((input.group id).path, v)) g' p' := by
  -- the step for the group, then one for each of its variables
  obtain ⟨infos, t₁, hgroup, hrest⟩ := EStateM.bind_eq_ok_iff.mp hrun
  obtain ⟨rfl, g₁, p₁, rfl, hp₁⟩ := hp.group hinput hproper hb hsnapshot hid hgroup
  obtain ⟨tallies, t₂, hvars, hpure⟩ := EStateM.bind_eq_ok_iff.mp hrest
  obtain ⟨-, rfl⟩ := EStateM.pure_eq_ok_iff.mp hpure
  rw [List.mapM_map] at hvars
  -- along the variables of the group, when all its dimensions are there
  refine EStateM.mapM_induction
    (I := fun done _ t => ∃ g' p', t = ⟨base.withRoot g', p'⟩ ∧ Progress input base h settings
      (doneDims ++ (input.group id).dimensions.map fun dim => ((input.group id).path, dim))
      (doneVars ++ done.map fun v => ((input.group id).path, v)) g' p')
    (fun done _ v rest t _ t' hsplit ht hstep => ?_)
    ⟨g₁, p₁, rfl, by simpa using hp₁⟩ hvars
  obtain ⟨g₂, p₂, rfl, hp₂⟩ := ht
  have hv : v ∈ (input.group id).vars := by simp [hsplit]
  rw [List.map_append, List.map_singleton, ← List.append_assoc]
  exact hp₂.variable hinput hproper hb hsnapshot hid hv hstep

end Steps

/-- In the beginning nothing has been carried over. -/
theorem Progress.start {input base : Dataset} (hbase : base.WellFormed) (h : Hierarchy)
    (settings : Settings) : Progress input base h settings [] [] base.root {} :=
  { known := by simp
    dimensionNames := by simp
    nodupDimensions := (hbase.groups Dataset.rootId).dimensions
    copies := ⟨[], by simp, .nil⟩
    nodupVars := (hbase.groups Dataset.rootId).vars
    dimensionRecords := rfl
    variableRecords := rfl
    used := by simp
    sizes := by simp }

/-! ## Whole runs -/

/-- A run that succeeds has carried over all dimensions and all variables. -/
theorem progress_of_flatten {input output output' : Dataset} {settings : Settings}
    {report : Report} (hinput : input.WellFormed) (hproper : input.HasProperNames)
    (houtput : output.WellFormed) (hrun : flatten input settings output = .ok report output') :
    ∃ h g, Hierarchy.ofDataset input settings.depthLimit = .ok h ∧ output.IsFlat ∧
      Progress input output h settings (groupDimensions input) (groupVariables input) g
        report.provenance ∧
      output' = output.withRoot { g with
        attributes := Attributes.setAll g.attributes (provenanceEntries report.provenance) } := by
  obtain ⟨h, t', hsnapshot, hb, hall, rfl⟩ := flatten_ok houtput hrun
  obtain ⟨hsurveyed, -⟩ := Hierarchy.forall₂_surveyed hinput hproper.groups hsnapshot
  obtain ⟨tallies, t₁, hwalk, hfinish⟩ := transferAll_ok hsurveyed hall
  -- along the groups: those done have been carried over, with their variables
  have hI := EStateM.mapM_induction
    (I := fun done _ t => ∃ g p, t = ⟨output.withRoot g, p⟩ ∧ Progress input output h settings
      (done.flatMap fun id =>
        (input.group id).dimensions.map fun dim => ((input.group id).path, dim))
      (done.flatMap fun id => (input.group id).vars.map fun v => ((input.group id).path, v)) g p)
    (fun done _ id rest t _ t' hsplit ht hstep => ?_) ⟨_, _, rfl, .start houtput h settings⟩ hwalk
  · obtain ⟨g, p, rfl, hp⟩ := hI
    -- after the last group only the provenance is written
    obtain ⟨hreport, rfl⟩ := finish_ok hb hfinish
    rw [← hreport] at hp
    exact ⟨h, g, hsnapshot, hb, hp, by rw [hreport]⟩
  · obtain ⟨g, p, rfl, hp⟩ := ht
    have hid : id < input.groups.size := hinput.mem_groupIds_iff.mp (by simp [hsplit])
    simp only [List.flatMap_append, List.flatMap_singleton]
    exact hp.place hinput hproper hb hsnapshot hid hstep

end Flatten

end GroupFlattening
