import GroupFlattening.Proofs.Flatten.GroupAttributes
import GroupFlattening.Proofs.Flatten.Position
import GroupFlattening.Proofs.Flatten.Progress

/-!
# What Has Been Carried Over

`Progress` counts dimensions and variables. `Carried` says exactly what the root of the output is
once some groups and some variables have been carried over: which attributes it has, and how far
each dimension has grown, also where the flat names of dimensions that are still to come coincide
with some that are there. It holds wherever a run is about to carry over a variable
(`Reaches.carried`), so it describes what a run leaves behind that fails there.
-/

namespace GroupFlattening.Flatten

open Dataset (IsFlat Position)
open ObjectPath (join separator)
open Transfer (createdDimension)

/-- The axes along which the data of a variable is copied: the flat names of its dimensions, and
where the data ends. There are none if no data is copied. -/
def copiedAxes (input : Dataset) (names : NameTable) (settings : Settings) (v : Dataset.Variable) :
    List (String × Nat) :=
  if settings.copyData = true ∧ 0 ∉ input.currentShape v then
    (v.dimensions.filterMap names.dimensions.find?).zip (input.currentShape v)
  else []

/-- The copies of the dimensions of some groups, as they are created. -/
def createdDimensions (input : Dataset) (ids : List Nat) : List Dimension :=
  (input.locatedIn ids (·.dimensions)).map fun e => createdDimension e.1 e.2

/-- What the root of the output and the provenance are once some groups and some variables of the
input have been carried over. -/
structure Carried (input base : Dataset) (h : Hierarchy) (settings : Settings) (ids : List Nat)
    (vars : List (String × Dataset.Variable)) (g : Dataset.Group) (p : ProvenanceMaps) : Prop where
  progress : Progress input base h settings (input.locatedIn ids (·.dimensions)) vars g p
  /-- The attributes of the groups are set one after the other. -/
  attributes : g.attributes = Attributes.setAll base.root.attributes
    ((input.locatedIn ids (·.attributes)).map flatAttribute)
  /-- Dimensions have grown to the ends of the data that was copied along their names. -/
  dimensions : g.dimensions = (base.root.dimensions ++ createdDimensions input ids).map
    (Dimension.grown (vars.flatMap fun u => copiedAxes input (.ofHierarchy h) settings u.2))
  /-- Fixed dimensions have not grown at all. -/
  fixed : ∀ dim ∈ base.root.dimensions ++ createdDimensions input ids, dim.isUnlimited = false →
    dim.grown (vars.flatMap fun u => copiedAxes input (.ofHierarchy h) settings u.2) = dim
  written : Written base (base.withRoot g)

/-- One more group creates its dimensions behind those of the groups before it. -/
theorem createdDimensions_append (input : Dataset) (ids : List Nat) (id : Nat) :
    createdDimensions input (ids ++ [id]) = createdDimensions input ids ++
      (input.group id).dimensions.map (createdDimension (input.group id).path) := by
  rw [createdDimensions, Dataset.locatedIn_append, Dataset.locatedIn_singleton, List.map_append,
    List.map_map]
  rfl

/-- The axes of a variable are its flat dimensions with their lengths, if it has data that is
copied. -/
theorem copiedAxes_eq {input : Dataset} {names : NameTable} {settings : Settings}
    {v : Dataset.Variable} {flats : List String}
    (hflats : List.Forall₂ (fun path flat => names.dimensions.find? path = some flat) v.dimensions
      flats) :
    copiedAxes input names settings v =
      if settings.copyData = true ∧ 0 ∉ input.currentShape v then
        flats.zip (input.currentShape v) else [] := by
  -- every dimension has a flat name, so none is left out
  have hfound : v.dimensions.filterMap names.dimensions.find? = flats := by
    generalize v.dimensions = paths at hflats
    induction hflats with
    | nil => rfl
    | cons hflat _ ih => rw [List.filterMap_cons, hflat, ih]
  rw [copiedAxes, hfound]

/-- Data is copied along dimensions of the variable. -/
theorem exists_path_of_mem_copiedAxes {input : Dataset} {names : NameTable} {settings : Settings}
    {v : Dataset.Variable} {axis : String × Nat} (h : axis ∈ copiedAxes input names settings v) :
    ∃ path ∈ v.dimensions, names.dimensions.find? path = some axis.1 := by
  unfold copiedAxes at h
  split at h
  · exact List.mem_filterMap.mp (List.of_mem_zip h).1
  · cases h

section Steps

variable {input base : Dataset} (hinput : input.WellFormed) (hproper : input.HasProperNames)
  (hb : base.IsFlat) (hbase : base.Reachable) {h : Hierarchy} {limit : Nat}
  (hsnapshot : Hierarchy.ofDataset input limit = .ok h) {settings : Settings} {ids : List Nat}
  {vars : List (String × Dataset.Variable)} {g : Dataset.Group} {p : ProvenanceMaps}
  {t' : Transfer Dataset} {id : Nat}

/-- Nothing has been carried over at the start. -/
theorem Carried.start (hbase : base.Reachable) (hb : base.IsFlat) (h : Hierarchy)
    (settings : Settings) : Carried input base h settings [] [] base.root {} :=
  { progress := .start hbase.wellFormed h settings
    attributes := rfl
    dimensions := by simp [createdDimensions, Dataset.locatedIn]
    fixed := fun dim _ _ => rfl
    written := by rw [hb.withRoot_root] }

include hb in
/-- The root of a flat dataset is known from the dataset. -/
theorem withRoot_inj {g g' : Dataset.Group} {p p' : ProvenanceMaps}
    (heq : (⟨base.withRoot g, p⟩ : Transfer Dataset) = ⟨base.withRoot g', p'⟩) :
    g = g' ∧ p = p' := by
  obtain ⟨houtput, rfl⟩ := Transfer.mk.inj heq
  refine ⟨?_, rfl⟩
  rw [← hb.root_withRoot (g := g), houtput, hb.root_withRoot]

/-- No data was copied along a dimension that is not there. -/
theorem Carried.not_mem_copiedAxes (hc : Carried input base h settings ids vars g p) {name : String}
    (hname : name ∉ g.dimensions.map (·.name)) :
    name ∉ (vars.flatMap fun u => copiedAxes input (.ofHierarchy h) settings u.2).map (·.1) := by
  intro hmem
  obtain ⟨axis, haxis, rfl⟩ := List.mem_map.mp hmem
  obtain ⟨u, hu, haxis⟩ := List.mem_flatMap.mp haxis
  obtain ⟨path, hpath, hfind⟩ := exists_path_of_mem_copiedAxes haxis
  obtain ⟨flat, hflat, hthere⟩ := hc.progress.used u hu path hpath
  obtain rfl := Option.some.inj (hfind.symm.trans hflat)
  exact hname hthere

include hinput hproper hb hsnapshot

/-- Carrying over a group adds what it holds itself. -/
theorem Carried.group (hid : id ∈ input.groupIds) {infos : List VariableInfo}
    (hc : Carried input base h settings ids vars g p)
    (hrun : Transfer.group input (input.group id).path ⟨base.withRoot g, p⟩ = .ok infos t') :
    ∃ g' p', t' = ⟨base.withRoot g', p'⟩ ∧
      Carried input base h settings (ids ++ [id]) vars g' p' := by
  have hlt := hinput.mem_groupIds_iff.mp hid
  obtain ⟨-, hnodup, rfl⟩ := group_ok hb (hinput.groupId_path hproper.groups hlt)
    hc.progress.nodupDimensions hrun
  obtain ⟨-, g', p', heq, hprogress⟩ :=
    hc.progress.group hinput hproper hb hsnapshot hlt hrun
  obtain ⟨rfl, rfl⟩ := withRoot_inj hb heq
  -- no data was copied along the new names, so far
  have hgrown : ∀ dim ∈ (input.group id).dimensions.map
      (createdDimension (input.group id).path), dim.grown (vars.flatMap fun u =>
        copiedAxes input (.ofHierarchy h) settings u.2) = dim := by
    intro dim hdim
    apply Dimension.grown_of_not_mem
    apply hc.not_mem_copiedAxes
    rw [List.map_append] at hnodup
    exact fun hmem => (List.nodup_append.mp hnodup).2.2 _ hmem _ (List.mem_map_of_mem hdim) rfl
  refine ⟨_, _, rfl, ?_, ?_, ?_, ?_, ?_⟩
  · rw [Dataset.locatedIn_append, Dataset.locatedIn_singleton]
    exact hprogress
  -- the attributes of the group come behind those of the groups before it
  · show Attributes.setAll g.attributes _ = _
    rw [hc.attributes, Dataset.locatedIn_append, Dataset.locatedIn_singleton, List.map_append,
      Attributes.setAll_append, List.map_map]
    rfl
  · show g.dimensions ++ _ = _
    rw [createdDimensions_append, ← List.append_assoc, List.map_append, ← hc.dimensions,
      List.map_congr_left hgrown, List.map_id']
  -- an old dimension, or one that has not grown at all
  · intro dim hdim hfixed
    rw [createdDimensions_append, ← List.append_assoc] at hdim
    rcases List.mem_append.mp hdim with hdim | hdim
    · exact hc.fixed dim hdim hfixed
    · exact hgrown dim hdim
  · have hwrites := (refuses_group (absorbs_caused fun _ => False) input
      (input.group id).path).written _ _ _ hrun
    exact hc.written.trans hwrites

include hbase

/-- Carrying over a variable adds its copy. -/
theorem Carried.variable (hid : id ∈ input.groupIds) {v : Dataset.Variable} {tally : Tally}
    (hv : v ∈ (input.group id).vars) (hc : Carried input base h settings ids vars g p)
    (hrun : variableOf input h settings (input.group id).path v ⟨base.withRoot g, p⟩ =
      .ok tally t') :
    ∃ copy g' p', t' = ⟨base.withRoot g', p'⟩ ∧ g'.vars = g.vars ++ [copy] ∧
      Carried input base h settings ids (vars ++ [((input.group id).path, v)]) g' p' := by
  have hlt := hinput.mem_groupIds_iff.mp hid
  obtain ⟨flats, copy, hflats, hthere, hcopy, hnew, rfl⟩ := variableStep_ok hb
    (separator_not_mem_flatName (hproper.vars id hlt v hv).2)
    (fun path flat hfind => separator_not_mem_of_find? hinput hproper hsnapshot hfind)
    (hinput.findVariable_join hproper hlt hv) ((hinput.groups id).variableAttributes v hv)
    hc.progress.nodupDimensions hrun
  obtain ⟨g', p', heq, hprogress⟩ :=
    hc.progress.variable hinput hproper hb hsnapshot hlt hv hrun
  obtain ⟨rfl, rfl⟩ := withRoot_inj hb heq
  have hwrites := written_variableStep hrun
  -- the data takes dimensions on along the axes of the variable
  have hdims : (if settings.copyData = true ∧ 0 ∉ input.currentShape v then
      g.dimensions.map (Dimension.grown (flats.zip (input.currentShape v))) else g.dimensions) =
      (base.root.dimensions ++ createdDimensions input ids).map (Dimension.grown
        ((vars ++ [((input.group id).path, v)]).flatMap fun u =>
          copiedAxes input (.ofHierarchy h) settings u.2)) := by
    rw [List.flatMap_append, List.flatMap_singleton, copiedAxes_eq hflats, hc.dimensions]
    split
    · rw [List.map_map]
      exact List.map_congr_left fun dim _ => (Dimension.grown_append ..).symm
    · rw [List.append_nil]
  refine ⟨copy, _, _, rfl, rfl, hprogress, hc.attributes, hdims, ?_, hc.written.trans hwrites⟩
  -- a fixed dimension is as it was before, when it had not grown
  intro dim hdim hfixed
  -- it stands in the same place before and after, and a write does not change a fixed one
  obtain ⟨k, hk⟩ := List.getElem?_of_mem hdim
  obtain ⟨changes, hchanges⟩ := exists_applyAll_of_written hwrites
  have hreachable : (base.withRoot g).Reachable := (written_reachable hbase hc.written).1
  have hkept := hreachable.wellFormed.fixed_applyAll changes Dataset.rootId
  rw [hchanges] at hkept
  have hroot : (base.withRoot g).group Dataset.rootId = g := hb.root_withRoot
  have hbefore : ((base.withRoot g).group Dataset.rootId).dimensions[k]? = some dim := by
    rw [hroot, hc.dimensions, List.getElem?_map, hk, Option.map_some, hc.fixed dim hdim hfixed]
  obtain ⟨dim', hafter, hsame⟩ := hkept k dim hbefore
  rw [hsame hfixed, ← Dataset.root, hb.root_withRoot, hdims, List.getElem?_map, hk] at hafter
  exact Option.some.inj hafter

/-- Carrying over variables of a group adds their copies. -/
theorem Carried.variables (hid : id ∈ input.groupIds) {done later : List Dataset.Variable}
    {tallies : List Tally} (hsplit : (input.group id).vars = done ++ later)
    (hc : Carried input base h settings ids vars g p)
    (hrun : done.mapM (variableOf input h settings (input.group id).path) ⟨base.withRoot g, p⟩ =
      .ok tallies t') :
    ∃ g' p', t' = ⟨base.withRoot g', p'⟩ ∧ Carried input base h settings ids
      (vars ++ done.map fun v => ((input.group id).path, v)) g' p' := by
  -- along the variables that are done
  refine EStateM.mapM_induction
    (I := fun done _ t => ∃ g' p', t = ⟨base.withRoot g', p'⟩ ∧ Carried input base h settings ids
      (vars ++ done.map fun v => ((input.group id).path, v)) g' p')
    (fun first _ v rest t _ t' hdone ht hstep => ?_) ⟨g, p, rfl, by simpa using hc⟩ hrun
  obtain ⟨g₁, p₁, rfl, hc₁⟩ := ht
  have hv : v ∈ (input.group id).vars := by simp [hsplit, hdone]
  obtain ⟨-, g₂, p₂, rfl, -, hc₂⟩ :=
    hc₁.variable hinput hproper hb hbase hsnapshot hid hv hstep
  rw [List.map_append, List.map_singleton, ← List.append_assoc]
  exact ⟨g₂, p₂, rfl, hc₂⟩

/-- Where a run is about to carry over a variable, the groups up to its group and the variables
before it have been carried over. -/
theorem Reaches.carried {pos : Position input} {t : Transfer Dataset}
    (hreach : Reaches input h settings ⟨base, {}⟩ pos t) :
    ∃ g p, t = ⟨base.withRoot g, p⟩ ∧
      Carried input base h settings pos.begun pos.before g p := by
  obtain ⟨tallies, t₁, infos, t₂, tallies', hgroups, hgroup, hvars⟩ := hreach
  -- along the groups before that of the variable
  have hI := EStateM.mapM_induction
    (I := fun done _ t => ∃ g p, t = ⟨base.withRoot g, p⟩ ∧
      Carried input base h settings done (input.locatedIn done (·.vars)) g p)
    (fun done _ id rest t _ t' hdone ht hstep => ?_)
    ⟨base.root, {}, by rw [hb.withRoot_root], .start hbase hb h settings⟩ hgroups
  · obtain ⟨g₁, p₁, rfl, hc₁⟩ := hI
    -- the group of the variable itself, and its variables in front of this one
    obtain ⟨g₂, p₂, rfl, hc₂⟩ := hc₁.group hinput hproper hb hsnapshot pos.id_mem hgroup
    exact hc₂.variables hinput hproper hb hbase hsnapshot pos.id_mem pos.vars_eq hvars
  · obtain ⟨g₁, p₁, rfl, hc₁⟩ := ht
    have hid : id ∈ input.groupIds := by simp [pos.groupIds_eq, hdone]
    rw [placeOf_eq hinput hproper hid] at hstep
    obtain ⟨infos', t₃, hgroup', hstep⟩ := EStateM.bind_eq_ok_iff.mp hstep
    obtain ⟨g₂, p₂, rfl, hc₂⟩ := hc₁.group hinput hproper hb hsnapshot hid hgroup'
    obtain ⟨tallies'', t₄, hvars', hpure⟩ := EStateM.bind_eq_ok_iff.mp hstep
    obtain ⟨-, rfl⟩ := EStateM.pure_eq_ok_iff.mp hpure
    rw [Dataset.locatedIn_append, Dataset.locatedIn_singleton]
    exact hc₂.variables hinput hproper hb hbase hsnapshot hid (List.append_nil _).symm hvars'

end Steps

end GroupFlattening.Flatten
