import GroupFlattening.Proofs.Dataset.Missing
import GroupFlattening.Proofs.Flatten.Structure

/-!
# Flattening Again

A dataset is flattened once more into an output that already holds its flat copy. Whatever the first
run created is there, so the second run ends at the first object that it would create, a dimension
or a variable, whatever group that is in (`firstName?`); before that it only sets attributes of the
root, to values that are the input's own. Without such an object it succeeds.

`Repeats` says this of a single step: from every root that differs from a fixed one in its
attributes only, the step leads to such a root, and fails just when it would create something. It is
closed under the ways in which steps are put together, which carries it from the writes to the whole
run.
-/

namespace GroupFlattening

open ObjectPath (join separator)

/-! ## Datasets with the same objects -/

/-- Whether two datasets list the same dimensions and the same variables, the latter with the same
attributes and the same data, or fail to with the same fault. -/
structure Dataset.SameObjects (d d' : Dataset) : Prop where
  dimensions : ∀ path, d.dimensions path = d'.dimensions path
  variableInfos : ∀ path, d.variableInfos path = d'.variableInfos path
  variableAttributes : ∀ path, d.variableAttributes path = d'.variableAttributes path
  readData : ∀ path selection, d.readData path selection = d'.readData path selection

/-- The attributes of the root play no part in what the objects of a flat dataset are. -/
theorem Dataset.IsFlat.sameObjects_withRoot {base : Dataset} (hb : base.IsFlat) {g g' : Group}
    (hdims : g.dimensions = g'.dimensions) (hvars : g.vars = g'.vars) :
    (base.withRoot g).SameObjects (base.withRoot g') := by
  have hroot : (base.withRoot g).group rootId = g := hb.root_withRoot
  have hroot' : (base.withRoot g').group rootId = g' := hb.root_withRoot
  have hshapeOf : (base.withRoot g).shapeOf = (base.withRoot g').shapeOf := by
    funext paths
    unfold shapeOf
    rw [hb.dimension_congr hdims]
  have hinfoOf : (base.withRoot g).infoOf = (base.withRoot g').infoOf := by
    funext v
    unfold infoOf
    rw [hshapeOf]
  refine ⟨fun path => ?_, fun path => ?_, fun path => ?_, fun path selection => ?_⟩
  -- a path leads to the root in both, or nowhere
  · unfold Dataset.dimensions
    rw [hb.groupId_withRoot, hb.groupId_withRoot]
    cases hid : base.groupId path with
    | error fault => rfl
    | ok id =>
      obtain rfl := hb.groupId_eq hid
      simp [bind, Except.bind, hroot, hroot', hdims]
  · unfold Dataset.variableInfos
    rw [hb.groupId_withRoot, hb.groupId_withRoot]
    cases hid : base.groupId path with
    | error fault => simp only [bind, Except.bind]
    | ok id =>
      obtain rfl := hb.groupId_eq hid
      simp [bind, Except.bind, hroot, hroot', hvars, hinfoOf]
  · unfold Dataset.variableAttributes Dataset.findVariable
    simp only [hb.groupId_withRoot]
    cases hid : base.groupId (ObjectPath.split path).1 with
    | error fault => rfl
    | ok id =>
      obtain rfl := hb.groupId_eq hid
      simp only [bind, Except.bind, hroot, hroot', hvars]
  -- the same variables with the same shapes give the same data
  · apply hb.readData_congr hdims
    rw [hvars]
    exact List.forall₂_same.mpr fun v _ => .refl v

/-! ## Writes to the root -/

namespace Dataset

theorem setGroupAttribute_withRoot (base : Dataset) (g : Group) (name : String)
    (value : AttributeValue) :
    setGroupAttribute ObjectPath.root name value (base.withRoot g) =
      .ok () (base.withRoot { g with attributes := g.attributes.set name value }) := by
  rw [setGroupAttribute, checked_eq_ok_iff]
  exact ⟨rootId, groupId_root _, by rw [changeGroup_withRoot]⟩

namespace IsFlat

variable {base : Dataset} (hb : base.IsFlat) {g : Group}

include hb

/-- A dimension under a name that is taken is refused, and nothing changes. -/
theorem createDimension_taken {name : String} (htaken : name ∈ g.dimensions.map (·.name))
    (size : Option Nat) : Dataset.createDimension ObjectPath.root name size (base.withRoot g) =
      .error (.alreadyExists (join ObjectPath.root name)) (base.withRoot g) := by
  have hroot : (base.withRoot g).group rootId = g := hb.root_withRoot
  have hany : (g.dimensions.any fun dim => dim.name == name) = true := by simpa using htaken
  rw [Dataset.createDimension, checked_eq_error_iff]
  simp [checkDimension, bind, Except.bind, hroot, hany, throw, throwThe, MonadExceptOf.throw]

/-- A variable under a name that is taken is refused, and nothing changes. -/
theorem createVariable_taken {definition : VariableDefinition}
    (htaken : definition.name ∈ g.vars.map (·.name)) :
    Dataset.createVariable ObjectPath.root definition (base.withRoot g) =
      .error (.alreadyExists (join ObjectPath.root definition.name)) (base.withRoot g) := by
  have hroot : (base.withRoot g).group rootId = g := hb.root_withRoot
  have hany : (g.vars.any fun v => v.name == definition.name) = true := by simpa using htaken
  rw [Dataset.createVariable, checked_eq_error_iff]
  simp [checkVariable, isNameTaken, bind, Except.bind, hroot, hany, throw, throwThe,
    MonadExceptOf.throw]

end IsFlat

end Dataset

theorem Dataset.withRoot_withRoot (d : Dataset) (g g' : Group) :
    (d.withRoot g).withRoot g' = d.withRoot g' := changeGroup_withRoot d g fun _ => g'

/-- Whether two datasets differ at most in the attributes of their roots. -/
structure Dataset.SameUpToRootAttributes (d d' : Dataset) : Prop extends SameObjects d d' where
  root : ∃ attributes, d = d'.withRoot { d'.root with attributes := attributes }

theorem Dataset.IsFlat.sameUpToRootAttributes {base : Dataset} (hb : base.IsFlat) (g : Group)
    (attributes attributes' : Attributes) :
    (base.withRoot { g with attributes := attributes }).SameUpToRootAttributes
      (base.withRoot { g with attributes := attributes' }) := by
  refine ⟨hb.sameObjects_withRoot rfl rfl, attributes, ?_⟩
  rw [hb.root_withRoot, withRoot_withRoot]

namespace Flatten

open Dataset (IsFlat)

/-! ## The first object that is created -/

/-- The flat name of the first object that carrying over a group creates. -/
def firstNameIn? (d : Dataset) (id : Nat) : Option String :=
  ((d.group id).dimensions.map (·.name) ++ (d.group id).vars.map (·.name)).head?.map
    (flatName (d.group id).path)

/-- The flat name of the first object that flattening a dataset creates. -/
def firstName? (d : Dataset) : Option String := d.groupIds.findSome? (firstNameIn? d)

/-- The first name of a group is that of its first dimension, or else of its first variable. -/
theorem firstNameIn?_eq (d : Dataset) (id : Nat) :
    firstNameIn? d id =
      ((d.group id).dimensions.findSome? fun dim => some (flatName (d.group id).path dim.name)).or
        ((d.group id).vars.findSome? fun v => some (flatName (d.group id).path v.name)) := by
  unfold firstNameIn?
  cases (d.group id).dimensions with
  | cons dim rest => simp
  | nil => cases (d.group id).vars <;> simp

/-- Nothing is created just when the dataset has neither dimensions nor variables. -/
theorem firstName?_eq_none_iff {d : Dataset} :
    firstName? d = none ↔ groupDimensions d = [] ∧ groupVariables d = [] := by
  simp only [firstName?, firstNameIn?, groupDimensions, groupVariables, Dataset.located,
    List.findSome?_eq_none_iff, Option.map_eq_none_iff, List.head?_eq_none_iff,
    List.append_eq_nil_iff, List.map_eq_nil_iff, List.flatMap_eq_nil_iff]
  exact forall₂_and

/-! ## Steps that are repeated -/

/-- How a repeated step ends: without a fault if it creates nothing, and otherwise with the refusal
of the first name. What is left differs from the fixed root in its attributes at most. -/
inductive EndsAt {α : Type} (base : Dataset) (g : Dataset.Group) :
    Option String → EStateM.Result Fault (Transfer Dataset) α → Prop
  | nothing (a : α) (attributes : Attributes) (p : ProvenanceMaps) :
      EndsAt base g none (.ok a ⟨base.withRoot { g with attributes := attributes }, p⟩)
  | taken (name : String) (attributes : Attributes) (p : ProvenanceMaps) :
      EndsAt base g (some name) (.error (.store (.alreadyExists (join ObjectPath.root name)))
        ⟨base.withRoot { g with attributes := attributes }, p⟩)

/-- From every root that differs from the fixed one in its attributes at most, the step ends at the
first name. -/
def Repeats {α : Type} (base : Dataset) (g : Dataset.Group) (first? : Option String)
    (step : TransferM Dataset α) : Prop :=
  ∀ attributes p, EndsAt base g first? (step ⟨base.withRoot { g with attributes := attributes }, p⟩)

namespace Repeats

variable {α β : Type} {base : Dataset} {g : Dataset.Group} {first? next? : Option String}

theorem pure (a : α) : Repeats base g none (Pure.pure a) :=
  fun attributes p => .nothing a attributes p

/-- A sequence repeats up to the first name that either part finds taken. -/
theorem bind {step : TransferM Dataset α} {next : α → TransferM Dataset β}
    (hstep : Repeats base g first? step) (hnext : ∀ a, Repeats base g next? (next a)) :
    Repeats base g (first?.or next?) (step >>= next) := by
  intro attributes p
  have h := hstep attributes p
  generalize hrun : step ⟨base.withRoot { g with attributes := attributes }, p⟩ = result at h
  cases h with
  -- the first part has only set attributes, so the second one begins with the same objects
  | nothing a attributes' p' =>
    rw [EStateM.bind_of_ok hrun, Option.none_or]
    exact hnext a attributes' p'
  | taken name attributes' p' =>
    rw [EStateM.bind_of_error hrun, Option.some_or]
    exact .taken name attributes' p'

theorem bind_of_none {step : TransferM Dataset α} {next : α → TransferM Dataset β}
    (hstep : Repeats base g none step) (hnext : ∀ a, Repeats base g first? (next a)) :
    Repeats base g first? (step >>= next) := by
  have h := bind hstep hnext
  rwa [Option.none_or] at h

/-- What follows a step that creates something is not reached. -/
theorem bind_of_some {name : String} {step : TransferM Dataset α}
    {next : α → TransferM Dataset β} (hstep : Repeats base g (some name) step) :
    Repeats base g (some name) (step >>= next) := by
  intro attributes p
  have h := hstep attributes p
  generalize hrun : step ⟨base.withRoot { g with attributes := attributes }, p⟩ = result at h
  cases h with
  | taken name attributes' p' =>
    rw [EStateM.bind_of_error hrun]
    exact .taken name attributes' p'

theorem read_bind {read : Except StoreFault α} {a : α} (hread : read = .ok a)
    {next : α → TransferM Dataset β} (hnext : Repeats base g first? (next a)) :
    Repeats base g first? (Transfer.fromInput read >>= next) := by
  subst hread
  exact hnext

theorem compute_bind {result : Except Fault α} {a : α} (hresult : result = .ok a)
    {next : α → TransferM Dataset β} (hnext : Repeats base g first? (next a)) :
    Repeats base g first? (Transfer.compute result >>= next) := by
  subst hresult
  exact hnext

/-- Steps one after the other end at the first of their names. -/
theorem mapM {f : α → TransferM Dataset β} {name? : α → Option String} {as : List α}
    (hf : ∀ a ∈ as, Repeats base g (name? a) (f a)) :
    Repeats base g (as.findSome? name?) (as.mapM f) := by
  induction as with
  -- by the items: the first one that finds its name taken ends the walk
  | nil => exact pure []
  | cons a rest ih =>
    rw [List.forall_mem_cons] at hf
    rw [List.mapM_cons, List.findSome?_cons]
    have hrest : Repeats base g ((name? a).or ((rest.findSome? name?).or none))
        (f a >>= fun b => rest.mapM f >>= fun bs => Pure.pure (b :: bs)) :=
      bind hf.1 fun b => bind (ih hf.2) fun bs => pure (b :: bs)
    cases hname : name? a <;> simpa [hname] using hrest

theorem forM {f : α → TransferM Dataset Unit} {name? : α → Option String} {as : List α}
    (hf : ∀ a ∈ as, Repeats base g (name? a) (f a)) :
    Repeats base g (as.findSome? name?) (as.forM f) := by
  induction as with
  | nil => exact pure ()
  | cons a rest ih =>
    rw [List.forall_mem_cons] at hf
    rw [List.findSome?_cons]
    have hrest : Repeats base g ((name? a).or (rest.findSome? name?))
        (f a >>= fun _ => rest.forM f) := bind hf.1 fun _ => ih hf.2
    cases hname : name? a <;> simpa [hname] using hrest

theorem record (change : ProvenanceMaps → ProvenanceMaps) :
    Repeats base g none (Transfer.record change) :=
  fun attributes p => .nothing () attributes (change p)

/-- A write that only changes attributes of the root creates nothing. -/
theorem onOutput_nothing {write : EStateM StoreFault Dataset α}
    (hwrite : ∀ attributes, ∃ a attributes',
      write (base.withRoot { g with attributes := attributes }) =
        .ok a (base.withRoot { g with attributes := attributes' })) :
    Repeats base g none (Transfer.onOutput write) := by
  intro attributes p
  obtain ⟨a, attributes', h⟩ := hwrite attributes
  simp only [Transfer.onOutput, h]
  exact .nothing a attributes' p

/-- A write that is refused since the name is taken leaves the output as it is. -/
theorem onOutput_taken {write : EStateM StoreFault Dataset α} {name : String}
    (hwrite : ∀ attributes, write (base.withRoot { g with attributes := attributes }) =
      .error (.alreadyExists (join ObjectPath.root name))
        (base.withRoot { g with attributes := attributes })) :
    Repeats base g (some name) (Transfer.onOutput write) := by
  intro attributes p
  simp only [Transfer.onOutput, hwrite attributes]
  exact .taken name attributes p

theorem groupAttribute (place : String) (entry : String × AttributeValue) :
    Repeats base g none (Transfer.groupAttribute place entry) := by
  refine bind_of_none (onOutput_nothing fun attributes => ?_) fun _ => record _
  exact ⟨(), _, Dataset.setGroupAttribute_withRoot base _ _ _⟩

/-- The provenance is set as attributes of the root. -/
theorem finish : Repeats base g none (Transfer.finish : TransferM Dataset ProvenanceMaps) := by
  intro attributes p
  have hwrite : Repeats base g none (Transfer.onOutput p.write) := by
    apply onOutput_nothing
    intro attributes
    -- three attributes, one after the other
    have hset := Dataset.setGroupAttribute_withRoot base
    exact ⟨(), _, (EStateM.bind_of_ok (hset { g with attributes := attributes } _ _)).trans
      ((EStateM.bind_of_ok (hset _ _ _)).trans (hset _ _ _))⟩
  exact (hwrite.bind_of_none fun _ => pure p) attributes p

/-- A dimension whose copy is there is refused. -/
theorem dimension (hb : base.IsFlat) {place : String} {dim : Dimension}
    (htaken : flatName place dim.name ∈ g.dimensions.map (·.name)) :
    Repeats base g (some (flatName place dim.name)) (Transfer.dimension place dim) := by
  refine bind_of_some (onOutput_taken fun attributes => ?_)
  exact hb.createDimension_taken (g := { g with attributes := attributes }) htaken _

end Repeats

/-! ## The second run -/

section Run

variable {input base : Dataset} (hinput : input.WellFormed) (hproper : input.HasProperNames)
  (hb : base.IsFlat) {h : Hierarchy} {settings : Settings} {g : Dataset.Group}
  {p : ProvenanceMaps}
  (hp : Progress input base h settings (groupDimensions input) (groupVariables input) g p)

include hinput hproper hb hp

/-- A variable whose copy is there is refused. -/
theorem repeats_variableStep {id : Nat} (hid : id < input.groups.size) {v : Dataset.Variable}
    (hv : v ∈ (input.group id).vars) :
    Repeats base g (some (flatName (input.group id).path v.name))
      (variableStep input h (NameTable.ofHierarchy h) settings (input.group id).path
        (input.listed v)) := by
  obtain ⟨copies, hvars, hcopies⟩ := hp.copies
  have hmem : ((input.group id).path, v) ∈ groupVariables input :=
    Dataset.mem_located.mpr ⟨id, hinput.mem_groupIds_iff.mpr hid, rfl, hv⟩
  obtain ⟨copy, hcopy, hflat⟩ := Forall₂.exists_right hcopies hmem
  -- the dimensions of the copy are those that the second run looks up
  have hdims : (input.listed v).dimensions.mapM (Transfer.flatDimension (NameTable.ofHierarchy h)
      (join (input.group id).path v.name)) = .ok copy.dimensions :=
    Except.mapM_eq_ok_iff.mpr (hflat.dimensions.imp fun path flatPath hpath =>
      Transfer.flatDimension_eq_ok_iff.mpr (hpath.imp fun _ hflat => ⟨hflat.1, hflat.2.symm⟩))
  have hattributes : Readable.variableAttributes input (join (input.group id).path v.name) =
      .ok v.attributes :=
    Dataset.variableAttributes_eq (hinput.findVariable_join hproper hid hv)
  -- the copy of the first run has the name already
  have htaken : flatName (input.group id).path v.name ∈ g.vars.map (·.name) := by
    rw [hvars, List.map_append, ← hflat.name]
    exact List.mem_append_right _ (List.mem_map_of_mem hcopy)
  refine Repeats.bind_of_some ?_
  refine Repeats.compute_bind hdims (Repeats.read_bind hattributes ?_)
  refine Repeats.bind_of_some (Repeats.onOutput_taken fun attributes => ?_)
  exact hb.createVariable_taken (g := { g with attributes := attributes }) htaken

/-- A group ends at the first object that it would create. -/
theorem repeats_placeStep {id : Nat} (hid : id < input.groups.size) :
    Repeats base g (firstNameIn? input id)
      (placeStep input h (NameTable.ofHierarchy h) settings (input.group id).path) := by
  have hpath := hinput.groupId_path hproper.groups hid
  -- what the second run reads of the input
  have hattributes : Readable.groupAttributes input (input.group id).path =
      .ok (input.group id).attributes :=
    Except.bind_eq_ok_iff.mpr ⟨id, hpath, rfl⟩
  have hdims : Readable.dimensions input (input.group id).path =
      .ok (input.group id).dimensions := Hierarchy.dimensions_eq_ok_iff.mpr ⟨id, hpath, rfl⟩
  have hinfos : Readable.variableInfos input (input.group id).path =
      .ok ((input.group id).vars.map input.listed) := by
    obtain ⟨infos, hinfos⟩ := hinput.exists_variableInfos hpath
    exact hinfos.trans (congrArg _ (Dataset.variableInfos_eq_map hpath hinfos))
  -- the copies of all dimensions of the group are there
  have htaken : ∀ dim ∈ (input.group id).dimensions,
      flatName (input.group id).path dim.name ∈ g.dimensions.map (·.name) := by
    intro dim hdim
    rw [hp.dimensionNames]
    exact List.mem_append_right _ (List.mem_map.mpr ⟨((input.group id).path, dim),
      Dataset.mem_located.mpr ⟨id, hinput.mem_groupIds_iff.mpr hid, rfl, hdim⟩, rfl⟩)
  have hset : Repeats base g none
      ((input.group id).attributes.forM (Transfer.groupAttribute (input.group id).path)) := by
    rw [← List.findSome?_eq_none_iff (p := fun _ => none).mpr fun _ _ => rfl]
    exact Repeats.forM fun entry _ => Repeats.groupAttribute _ entry
  have hcreate := Repeats.forM fun dim hdim => Repeats.dimension hb (htaken dim hdim)
  have hvars := Repeats.mapM fun v hv =>
    repeats_variableStep hinput hproper hb hp hid (v := v) hv
  -- attributes first, then dimensions, then variables
  rw [firstNameIn?_eq]
  simp only [placeStep, Transfer.group, bind_assoc]
  apply Repeats.read_bind hattributes
  apply hset.bind_of_none
  intro _
  apply Repeats.read_bind hdims
  apply hcreate.bind
  intro _
  apply Repeats.read_bind hinfos
  rw [List.mapM_map]
  have hend := hvars.bind fun tallies => Repeats.pure (Tally.total tallies)
  rwa [Option.or_none] at hend

/-- The second run ends at the first object of the input. -/
theorem repeats_transferAll {limit : Nat} (hsnapshot : Hierarchy.ofDataset input limit = .ok h) :
    Repeats base g (firstName? input) (transferAll input settings h) := by
  obtain ⟨hsurveyed, -⟩ := Hierarchy.forall₂_surveyed hinput hproper.groups hsnapshot
  have hwalk : Repeats base g (firstName? input)
      (h.groups.labels.mapM (groupStep input h (NameTable.ofHierarchy h) settings)) := by
    rw [mapM_groupStep (NameTable.ofHierarchy h) hsurveyed]
    exact Repeats.mapM fun id hid =>
      repeats_placeStep hinput hproper hb hp (hinput.mem_groupIds_iff.mp hid)
  have hend := hwalk.bind fun tallies => Repeats.finish.bind fun provenance => Repeats.pure
    (⟨provenance, (Tally.total tallies).unresolved ++ (Tally.total tallies).unnamed, h.size,
      (Tally.total tallies).replaced⟩ : Report)
  rwa [Option.or_none, Option.or_none] at hend

end Run

/-- What an output holds below its root plays no part in whether it can be written to. -/
theorem survey_withRoot {input output : Dataset} (hb : output.IsFlat) (g : Dataset.Group)
    (settings : Settings) :
    survey input (output.withRoot g) settings = survey input output settings := by
  -- a flat dataset has no groups whatever its root holds
  have hchildren : output.groups.children Dataset.rootId = [] := by
    refine List.eq_nil_iff_forall_not_mem.mpr fun c hc => ?_
    have hpos := Forest.lt_of_mem_children hc
    have hlt := Forest.lt_size_of_mem_children hc
    rw [hb] at hlt
    omega
  have hnames : Readable.groupNames (output.withRoot g) ObjectPath.root =
      Readable.groupNames output ObjectPath.root := by
    show (output.withRoot g).groupNames ObjectPath.root = output.groupNames ObjectPath.root
    rw [Dataset.groupNames_root, Dataset.groupNames_root, hchildren, Dataset.withRoot,
      Dataset.children_changeGroup, hchildren]
    rfl
  unfold survey checkDatasets
  rw [hnames]
  rfl

/-- Flattening a dataset once more into the result ends at the first object that it would create,
since the copy of this object is there; a dataset without such an object is flattened again. Either
way the output has the same dimensions and the same variables as before, with the same data. -/
theorem again_of_flatten {input output output' : Dataset} {settings : Settings}
    {report : Report} (hinput : input.Reachable) (hproper : input.HasProperNames)
    (houtput : output.Reachable) (hrun : flatten input settings output = .ok report output') :
    (groupDimensions input ≠ [] ∨ groupVariables input ≠ [] → ∃ name after,
      firstName? input = some name ∧ flatten input settings output' =
        .error (.store (.alreadyExists (join ObjectPath.root name))) after ∧
      after.SameUpToRootAttributes output') ∧
    (groupDimensions input = [] ∧ groupVariables input = [] → ∃ report' after,
      flatten input settings output' = .ok report' after ∧
      after.SameUpToRootAttributes output') := by
  obtain ⟨h, g, hsnapshot, hb, hp, rfl⟩ :=
    progress_of_flatten hinput.wellFormed hproper houtput.wellFormed hrun
  -- the checks and the snapshot are those of the first run
  have hsurvey : survey input output settings = .ok h := by
    simp only [flatten] at hrun
    cases hsurvey : survey input output settings with
    | error fault => simp [hsurvey] at hrun
    | ok h' =>
      obtain ⟨⟨⟩, -, hsnapshot'⟩ := Except.bind_eq_ok_iff.mp hsurvey
      rw [hsnapshot] at hsnapshot'
      exact hsnapshot'.symm
  have hend := repeats_transferAll hinput.wellFormed hproper hb hp hsnapshot
    (Attributes.setAll g.attributes (provenanceEntries report.provenance)) {}
  have hnone := firstName?_eq_none_iff (d := input)
  simp only [flatten, survey_withRoot hb, hsurvey]
  generalize (transferAll input settings h : TransferM Dataset Report) _ = result at hend ⊢
  generalize firstName? input = first? at hend hnone ⊢
  cases hend with
  -- no name was taken, so there was none
  | nothing a attributes p =>
    obtain ⟨hdims, hvars⟩ := hnone.mp rfl
    refine ⟨fun hsome => ?_, fun _ => ⟨a, _, rfl, hb.sameUpToRootAttributes g _ _⟩⟩
    rcases hsome with hne | hne
    · exact absurd hdims hne
    · exact absurd hvars hne
  | taken name attributes p =>
    refine ⟨fun _ => ⟨name, _, rfl, rfl, hb.sameUpToRootAttributes g _ _⟩, fun hempty => ?_⟩
    cases hnone.mpr hempty

/-- The station is not appended to the archive twice. -/
theorem station_not_again : station.Reachable ∧ station.HasProperNames ∧ archive.Reachable ∧
    ∃ report output after, flatten station {} archive = .ok report output ∧
      flatten station {} output = .error (.store (.alreadyExists "/time")) after ∧
      after.SameUpToRootAttributes output := by
  have hsucceeds : EStateM.succeedsWith (fun (_ : Report) (_ : Dataset) => true)
      (flatten station {} archive) = true := by decide +kernel
  obtain ⟨report, output, hrun, -⟩ := EStateM.exists_of_succeedsWith _ hsucceeds
  have hagain := again_of_flatten station_reachable station_hasProperNames archive_reachable hrun
  have hsome : groupDimensions station ≠ [] := by decide +kernel
  obtain ⟨name, after, hname, hrun', hsame⟩ := hagain.1 (Or.inl hsome)
  have htime : firstName? station = some "time" := by decide +kernel
  obtain rfl := Option.some.inj (hname.symm.trans htime)
  exact ⟨station_reachable, station_hasProperNames, archive_reachable, report, output, after, hrun,
    hrun', hsame⟩

end Flatten

end GroupFlattening
