import GroupFlattening.Proofs.Dataset.Missing
import GroupFlattening.Proofs.Flatten.Carried
import GroupFlattening.Proofs.Flatten.Invariant

/-!
# Variables That Are Ready

A variable is ready when its turn comes if each of its dimensions is written as the name table has
it, by the path of the dimension, and a dimension of its flat name has been created by then.
Datasets accept other spellings of a path, too, and dimensions of groups whose turn comes later. A
run fails for an object that is not there at the first variable that is not ready, and nowhere else
(`ready_until_missing`): all the rest that is looked up on the way is there. The survey reads groups
and variables by their own paths (`found_survey`), groups only write to the root (`found_group`),
and a copy that has been created stays where it is (`keeps_writeData`).
-/

namespace GroupFlattening

/-- Whether flattening failed for an object that is not there. -/
def Fault.isMissing : Fault → Bool
  | .store cause => cause.isMissing
  | _ => false

/-- The fault is not about an object that is not there. -/
def Fault.NotMissing (fault : Fault) : Prop := fault.isMissing = false

namespace Flatten

open Dataset (HasVariable IsFlat Position)
open ObjectPath (join separator)
open GroupFlattening.EStateM (Maintains)

/-! ## The survey -/

section Survey

variable {d : Dataset} (hd : d.WellFormed) (hproper : d.HasProperNames)

theorem fromStore_eq_ok {α : Type} {read : Except StoreFault α} {a : α} (h : read = .ok a) :
    fromStore read = .ok a :=
  Except.mapError_eq_ok_iff.mpr h

include hd hproper

theorem found_surveyGroup {id : Nat} (hid : id < d.groups.size) (number : Nat) :
    Except.FaultsIn Fault.NotMissing (Hierarchy.surveyGroup d (d.group id).path number) := by
  have hpath := hd.groupId_path hproper.groups hid
  obtain ⟨infos, hinfos⟩ := hd.exists_variableInfos hpath
  refine .bind_of_ok (fromStore_eq_ok (Hierarchy.dimensions_eq_ok_iff.mpr ⟨_, hpath, rfl⟩)) ?_
  refine .bind_of_ok (fromStore_eq_ok hinfos) ?_
  refine Except.FaultsIn.foldlM (fun group info hinfo => ?_) _
  -- what is listed is a variable that is found by its path
  rw [Dataset.variableInfos_eq_map hpath hinfos] at hinfo
  obtain ⟨v, hv, rfl⟩ := List.mem_map.mp hinfo
  have hfind := hd.findVariable_join hproper hid hv
  refine Except.FaultsIn.bind ?_ fun coordinates => .pure _
  refine .bind_of_ok (fromStore_eq_ok (Dataset.variableAttributes_eq hfind)) ?_
  cases Attributes.find? v.attributes Hierarchy.coordinatesName with
  | none => exact .pure none
  | some value => exact (faultsIn_referenceText (fun _ _ => rfl) _ value).map some

/-- The survey finds whatever it looks for. -/
theorem found_survey {limit : Nat} (left : Nat) {h : Hierarchy} {parent : Option Nat}
    {depth id : Nat} (hleft : limit + 1 - depth = left) (hid : id < d.groups.size) :
    Except.FaultsIn Fault.NotMissing
      (Hierarchy.survey d limit h parent depth (d.group id).path) := by
  induction left generalizing h parent depth id with
  -- too deep, which is another fault
  | zero =>
    rw [Hierarchy.survey, dif_pos (by omega)]
    exact .error rfl
  | succ left ih =>
    rw [Hierarchy.survey, dif_neg (by omega)]
    apply (found_surveyGroup hd hproper hid h.size).bind
    intro group
    have hpath := hd.groupId_path hproper.groups hid
    refine .bind_of_ok (fromStore_eq_ok (Hierarchy.groupNames_eq_ok_iff.mpr ⟨_, hpath, rfl⟩)) ?_
    refine Except.FaultsIn.foldlM (fun grown name hname => ?_) _
    -- a name that is listed is the name of a group below this one
    obtain ⟨c, hc, rfl⟩ := List.mem_map.mp hname
    have hparent := Forest.mem_children_iff.mp hc
    rw [← hd.path_eq c id hparent]
    exact ih (by omega) (Forest.lt_size_of_parent? hparent)

theorem found_surveyOf (output : Dataset) (settings : Settings) :
    Except.FaultsIn Fault.NotMissing (survey d output settings) := by
  have hchecked : Except.FaultsIn Fault.NotMissing (checkDatasets d output settings) := by
    simp only [checkDatasets]
    split
    -- one dataset for both
    · exact .error rfl
    · split
      · exact .error rfl
      -- the root of the output is there, so its groups are listed
      · refine .bind_of_ok (fromStore_eq_ok output.groupNames_root) ?_
        split
        · exact .pure ()
        · exact .error rfl
  apply hchecked.bind
  intro _
  rw [Hierarchy.ofDataset, ← hd.path_root]
  exact found_survey hd hproper _ rfl hd.root_lt

end Survey

/-! ## Groups and the provenance -/

section Root

theorem keepsWrite_of_faultsIn {α : Type} {write : EStateM StoreFault Dataset α}
    (h : EStateM.FaultsIn (fun cause => cause.isMissing = false) write) :
    KeepsWrite (fun _ => True) Fault.NotMissing write :=
  EStateM.maintains_true_iff.mpr h

theorem found_group {input : Dataset} (hinput : input.WellFormed)
    (hproper : input.HasProperNames) {id : Nat} (hid : id ∈ input.groupIds) :
    EStateM.FaultsIn Fault.NotMissing
      (Transfer.group input (input.group id).path : TransferM Dataset (List VariableInfo)) := by
  -- the group is there, so all that is written goes to the root
  have hpath := hinput.groupId_path hproper.groups (hinput.mem_groupIds_iff.mp hid)
  obtain ⟨infos, hinfos⟩ := hinput.exists_variableInfos hpath
  have hkeeps : Keeps (fun _ => True) Fault.NotMissing
      (Transfer.group input (input.group id).path : TransferM Dataset (List VariableInfo)) := by
    apply keeps_group
    · exact fun name value =>
        keepsWrite_of_faultsIn (Dataset.faultsIn_setGroupAttribute_root name value)
    · intro cause hcause
      cases (groupAttributes_eq_ok_iff.mpr ⟨_, hpath, rfl⟩).symm.trans hcause
    · intro cause hcause
      cases (Hierarchy.dimensions_eq_ok_iff.mpr ⟨_, hpath, rfl⟩).symm.trans hcause
    · intro cause hcause
      cases hinfos.symm.trans hcause
    · exact fun name size =>
        keepsWrite_of_faultsIn (Dataset.faultsIn_createDimension_root name size)
  exact EStateM.maintains_true_iff.mp hkeeps

theorem found_finish :
    EStateM.FaultsIn Fault.NotMissing (Transfer.finish : TransferM Dataset ProvenanceMaps) :=
  EStateM.maintains_true_iff.mp (keeps_finish fun name value =>
    keepsWrite_of_faultsIn (Dataset.faultsIn_setGroupAttribute_root name value))

end Root

/-! ## A copy that has been created -/

section Copy

variable {flat : String} (hflat : separator ∉ flat.toList)

include hflat

theorem keeps_setVariableAttribute (name : String) (value : AttributeValue) :
    KeepsWrite (·.HasVariable flat) Fault.NotMissing (Writable.setVariableAttribute
      (join ObjectPath.root flat) name value : EStateM StoreFault Dataset Unit) := by
  apply maintains_of_change (.variableAttribute (join ObjectPath.root flat) name value)
  · exact fun _ => rfl
  · exact fun _ hd => hd.apply _
  · exact fun _ _ _ hd hrun => hd.isMissing_of_setVariableAttribute hflat hrun

theorem keeps_writeData (place : Selection) (data : Buffer) :
    KeepsWrite (·.HasVariable flat) Fault.NotMissing (Writable.writeData
      (join ObjectPath.root flat) place data : EStateM StoreFault Dataset Unit) := by
  apply maintains_of_change (.data (join ObjectPath.root flat) place data)
  · exact fun _ => rfl
  · exact fun _ hd => hd.apply _
  · exact fun _ _ _ hd hrun => hd.isMissing_of_writeData hflat hrun

end Copy

theorem notMissing_of_other (fault : Fault) (h : ∀ cause, fault ≠ .store cause) :
    fault.NotMissing := by
  cases fault with
  | store cause => exact absurd rfl (h cause)
  | _ => rfl

/-! ## A whole variable -/

section Variable

variable {input base : Dataset} (hinput : input.WellFormed) (hb : base.IsFlat) {h : Hierarchy}
  {names : NameTable} {settings : Settings} {place : String} {id : Nat} {v : Dataset.Variable}
  (hfind : input.findVariable (join place v.name) = .ok (id, v))
  (hflat : separator ∉ (flatName place v.name).toList)
  (hnames : ∀ path flat, names.dimensions.find? path = some flat → separator ∉ flat.toList)
  {g : Dataset.Group} (hreachable : (base.withRoot g).Reachable) {p : ProvenanceMaps}
  {object : MissingObject} {t' : Transfer Dataset}

/-- Why a variable cannot be created: a dimension is not one that the name table knows, or the
output has no dimension of its flat name. -/
inductive Lacks (names : NameTable) (owner : String) (paths : List String) (g : Dataset.Group) :
    MissingObject → Prop
  | spelled {path : String} (hpath : path ∈ paths) (h : names.dimensions.find? path = none) :
      Lacks names owner paths g (.dimensionOf path owner)
  | later {path flat : String} (hpath : path ∈ paths)
      (h : names.dimensions.find? path = some flat) (hnew : flat ∉ g.dimensions.map (·.name)) :
      Lacks names owner paths g (.path (join ObjectPath.root flat))

include hreachable in
/-- A copy that has been created is there. -/
theorem hasVariable_of_createVariable {definition : VariableDefinition} {d' : Dataset}
    (h : Dataset.createVariable ObjectPath.root definition (base.withRoot g) = .ok () d') :
    d'.HasVariable definition.name := by
  obtain ⟨-, hmem⟩ := vars_of_createVariable hreachable.wellFormed h
  have hwrites : Written (base.withRoot g) d' := .single (.variable _ _ h)
  exact ⟨(written_reachable hreachable hwrites).1.wellFormed, hmem⟩

/-- A dimension without a flat name is one that the name table does not know. -/
theorem lacks_of_flatDimensions {owner : String} {paths : List String}
    (h : paths.mapM (Transfer.flatDimension names owner) = .error (.store (.notFound object))) :
    Lacks names owner paths g object := by
  obtain ⟨done, path, rest, flats, hsplit, -, hpath⟩ := Except.mapM_eq_error_iff.mp h
  obtain ⟨hnone, hobject⟩ := Transfer.flatDimension_eq_error_iff.mp hpath
  cases hobject
  exact .spelled (by simp [hsplit]) hnone

section Output

include hb hnames

/-- An output that does not find a dimension for a new variable has none of its flat name. -/
theorem lacks_of_output {owner : String} {paths : List String} {definition : VariableDefinition}
    {output : Dataset} (h : Dataset.createVariable ObjectPath.root definition (base.withRoot g) =
      .error (.notFound object) output)
    (hknown : paths.mapM (Transfer.flatDimension names owner) = .ok definition.dimensions) :
    Lacks names owner paths g object := by
  -- the object that is missing is one of the flat dimensions
  obtain ⟨flatPath, hflatPath, hdim⟩ := Dataset.exists_dimension_of_createVariable h
  obtain ⟨path, hpath, hfind⟩ := Forall₂.exists_left (Except.mapM_eq_ok_iff.mp hknown) hflatPath
  obtain ⟨flat, hsome, rfl⟩ := Transfer.flatDimension_eq_ok_iff.mp hfind
  obtain ⟨hnew, hobject⟩ := Dataset.not_mem_of_dimension_join_root (hnames path flat hsome) hdim
  cases hobject
  have hroot : (base.withRoot g).group Dataset.rootId = g := hb.root_withRoot
  rw [hroot] at hnew
  exact .later hpath hsome hnew

end Output

include hb hfind hflat hnames hreachable

/-- Creating a copy fails for an object that is not there only because of a dimension. -/
theorem lacks_of_createVariable
    (hrun : Transfer.createVariable input names place (input.listed v) ⟨base.withRoot g, p⟩ =
      .error (.store (.notFound object)) t') :
    Lacks names (join place v.name) v.dimensions g object := by
  rcases EStateM.bind_eq_error_iff.mp hrun with hdims | ⟨dimensions, t₁, hdims, hrun⟩
  -- a dimension without a flat name
  · obtain ⟨hdims, -⟩ := Transfer.compute_eq_error_iff.mp hdims
    exact lacks_of_flatDimensions hdims
  obtain ⟨hknown, rfl⟩ := Transfer.compute_eq_ok_iff.mp hdims
  rcases EStateM.bind_eq_error_iff.mp hrun with hread | ⟨attributes, t₂, hread, hrun⟩
  -- the attributes of a variable that exists are read
  · obtain ⟨cause, hcause, -⟩ := Transfer.fromInput_eq_error_iff.mp hread
    cases (Dataset.variableAttributes_eq hfind).symm.trans hcause
  obtain ⟨-, rfl⟩ := Transfer.fromInput_eq_ok_iff.mp hread
  rcases EStateM.bind_eq_error_iff.mp hrun with hwrite | ⟨⟨⟩, t₃, hwrite, hrun⟩
  · obtain ⟨cause, output, hcreate, hcause, -⟩ := Transfer.onOutput_eq_error_iff.mp hwrite
    cases hcause
    exact lacks_of_output hb hnames hcreate hknown
  -- afterwards only attributes are set, and the copy is there
  exfalso
  obtain ⟨after, hcreate, rfl⟩ := Transfer.onOutput_eq_ok_iff.mp hwrite
  have hthere := hasVariable_of_createVariable hreachable hcreate
  have hrest : Keeps (·.HasVariable (flatName place v.name)) Fault.NotMissing
      ((attributes.filter fun entry => entry.1 != fillValueName).mapM
        (Transfer.variableAttribute (join place v.name)
          (join ObjectPath.root (flatName place v.name))) : TransferM Dataset _) :=
    Maintains.mapM fun entry _ =>
      keeps_variableAttribute notMissing_of_other (keeps_setVariableAttribute hflat) entry
  rcases EStateM.bind_eq_error_iff.mp hrun with hrecord | ⟨_, t₄, hrecord, hrun⟩
  · cases hrecord
  cases hrecord
  rcases EStateM.bind_eq_error_iff.mp hrun with hset | ⟨_, _, -, hpure⟩
  · cases ((hrest _ hthere).of_error hset).2
  · cases hpure

include hinput

/-- Carrying over a variable fails for an object that is not there only because of a dimension. -/
theorem lacks_of_variableStep
    (hrun : variableStep input h names settings place (input.listed v) ⟨base.withRoot g, p⟩ =
      .error (.store (.notFound object)) t') :
    Lacks names (join place v.name) v.dimensions g object := by
  rcases EStateM.bind_eq_error_iff.mp hrun with hcreate | ⟨created, t₁, hcreate, hrun⟩
  · exact lacks_of_createVariable hb hfind hflat hnames hreachable hcreate
  exfalso
  -- the copy is there, and stays there
  obtain ⟨hpath, definition, after, hname, hwrite, hwrites⟩ := written_createVariable hcreate
  obtain ⟨hflatPath, howner⟩ := flatOwner_of_createVariable hcreate
  have hthere : t₁.output.HasVariable (flatName place v.name) := by
    have hafter := hasVariable_of_createVariable hreachable hwrite
    rw [hname] at hafter
    obtain ⟨changes, hchanges⟩ := exists_applyAll_of_written hwrites
    rw [← hchanges]
    exact hafter.applyAll changes
  have hset : ∀ name value, KeepsWrite (·.HasVariable (flatName place v.name)) Fault.NotMissing
      (Writable.setVariableAttribute created.flatPath name value :
        EStateM StoreFault Dataset Unit) := by
    rw [hflatPath]
    exact keeps_setVariableAttribute hflat
  have hreplaced := keeps_references notMissing_of_other hset h names settings howner
  have hcopied : Keeps (·.HasVariable (flatName place v.name)) Fault.NotMissing (Transfer.data input
      settings created.path created.flatPath (input.listed v) : TransferM Dataset Unit) := by
    rw [hpath, hflatPath]
    exact keeps_data notMissing_of_other settings (input.listed v)
      (Dataset.faultsIn_readData hinput hfind) (keeps_writeData hflat)
  rcases EStateM.bind_eq_error_iff.mp hrun with hreferences | ⟨tally, t₂, hreferences, hrun⟩
  -- neither the references nor the data fail to find the copy
  · cases ((hreplaced t₁ hthere).of_error hreferences).2
  rcases EStateM.bind_eq_error_iff.mp hrun with hdata | ⟨_, _, -, hpure⟩
  · cases ((hcopied t₂ ((hreplaced t₁ hthere).of_ok hreferences)).of_error hdata).2
  · cases hpure

end Variable

/-! ## Variables that are not ready -/

/-- Why a variable is not ready when its turn comes, by the object that is then missed. -/
inductive Unready {input : Dataset} (pos : Position input) : MissingObject → Prop
  /-- A dimension is not given by its own path. -/
  | spelled {path : String} (hpath : path ∈ pos.v.dimensions)
      (hother : ∀ e ∈ groupDimensions input, path ≠ join e.1 e.2.name) :
      Unready pos (.dimensionOf path pos.path)
  /-- A dimension is one of a group that comes later, and no earlier one has its flat name. -/
  | later {e : String × Dimension} (he : e ∈ groupDimensions input)
      (hpath : join e.1 e.2.name ∈ pos.v.dimensions)
      (hnew : dimensionName e ∉ (input.locatedIn pos.begun (·.dimensions)).map dimensionName) :
      Unready pos (.path (join ObjectPath.root (dimensionName e)))

/-- Nothing is missed when the turn of the variable comes. -/
def IsReady {input : Dataset} (pos : Position input) : Prop := ∀ object, ¬ Unready pos object

section Run

variable {input base : Dataset} (hinput : input.WellFormed) (hproper : input.HasProperNames)
  (hb : base.IsFlat) (hbase : base.Reachable) (hempty : base.root.dimensions = []) {h : Hierarchy}
  {limit : Nat} (hsnapshot : Hierarchy.ofDataset input limit = .ok h) {settings : Settings}
  {pos : Position input} {t t' : Transfer Dataset}

theorem names_of_carried (hempty : base.root.dimensions = []) {ids : List Nat}
    {vars : List (String × Dataset.Variable)} {g : Dataset.Group} {p : ProvenanceMaps}
    (hc : Carried input base h settings ids vars g p) :
    g.dimensions.map (·.name) = (input.locatedIn ids (·.dimensions)).map dimensionName := by
  rw [hc.progress.dimensionNames, hempty]
  rfl

include hinput hproper hb hbase hempty hsnapshot

/-- A variable that has been carried over was ready. -/
theorem isReady_of_ok {tally : Tally} (hreach : Reaches input h settings ⟨base, {}⟩ pos t)
    (hstep : variableOf input h settings pos.place pos.v t = .ok tally t') : IsReady pos := by
  obtain ⟨g, p, rfl, hc⟩ := hreach.carried hinput hproper hb hbase hsnapshot
  obtain ⟨copy, g', p', -, -, hc'⟩ :=
    hc.variable hinput hproper hb hbase hsnapshot pos.id_mem pos.v_mem hstep
  -- each of its dimensions has a flat name, and a dimension of this name is there
  have hused := hc'.progress.used (pos.place, pos.v) (by simp [Position.place])
  rw [names_of_carried hempty hc'] at hused
  intro object hunready
  -- both ways of not being ready contradict the dimensions of the copy
  cases hunready with
  | spelled hpath hother =>
    obtain ⟨flat, hfind, -⟩ := hused _ hpath
    obtain ⟨e, he, heq, -⟩ := exists_dimension_of_find? hinput hproper hsnapshot hfind
    exact hother e he heq
  | later he hpath hnew =>
    obtain ⟨flat, hfind, hthere⟩ := hused _ hpath
    obtain ⟨e', he', heq, rfl⟩ := exists_dimension_of_find? hinput hproper hsnapshot hfind
    obtain rfl := eq_of_join_eq hinput hproper he he' heq
    exact hnew hthere

/-- A variable that is not carried over for an object that is not there is not ready. -/
theorem unready_of_missing {object : MissingObject}
    (hreach : Reaches input h settings ⟨base, {}⟩ pos t)
    (hstep : variableOf input h settings pos.place pos.v t =
      .error (.store (.notFound object)) t') : Unready pos object := by
  obtain ⟨g, p, rfl, hc⟩ := hreach.carried hinput hproper hb hbase hsnapshot
  have hlt := hinput.mem_groupIds_iff.mp pos.id_mem
  have hlacks := lacks_of_variableStep hinput hb
    (hinput.findVariable_join hproper hlt pos.v_mem)
    (separator_not_mem_flatName (hproper.vars pos.id hlt pos.v pos.v_mem).2)
    (fun path flat hfind => separator_not_mem_of_find? hinput hproper hsnapshot hfind)
    (written_reachable hbase hc.written).1 hstep
  -- either the table does not know the path, or its dimension comes later
  cases hlacks with
  | spelled hpath hnone =>
    refine .spelled hpath fun e he heq => ?_
    -- the name table knows the paths of all dimensions
    obtain ⟨id, hid, hplace, hdim⟩ := Dataset.mem_located.mp he
    have hobject : (e.1, e.2.name) ∈ input.objects .dim :=
      Dataset.mem_located.mpr ⟨id, hid, hplace, List.mem_map_of_mem hdim⟩
    obtain ⟨flat, hflat⟩ :=
      NameTable.exists_find?_of_mem_objects hinput hproper.groups hsnapshot hobject
    rw [heq] at hnone
    cases hnone.symm.trans hflat
  | later hpath hfind hnew =>
    obtain ⟨e, he, rfl, rfl⟩ := exists_dimension_of_find? hinput hproper hsnapshot hfind
    rw [names_of_carried hempty hc] at hnew
    exact .later he hpath hnew

end Run

/-- A run into an empty dataset that fails for an object that is not there fails at a variable that
is not ready, and all variables before it were. A run that succeeds has found every variable
ready. -/
theorem ready_until_missing {input : Dataset} (hinput : input.Reachable)
    (hproper : input.HasProperNames) (settings : Settings) (location : String) (isNested : Bool) :
    (∀ object output', flatten input settings (Dataset.create location isNested) =
        .error (.store (.notFound object)) output' →
      ∃ pos : Position input, Unready pos object ∧ ∀ pos', pos'.Precedes pos → IsReady pos') ∧
    ∀ report output', flatten input settings (Dataset.create location isNested) =
        .ok report output' → ∀ pos : Position input, IsReady pos := by
  have hwf := hinput.wellFormed
  have hb : (Dataset.create location isNested).IsFlat := rfl
  have hbase : (Dataset.create location isNested).Reachable := .create location isNested
  constructor
  · intro object output' hrun
    rcases flatten_eq_error_iff.mp hrun with ⟨hsurvey, -⟩ | ⟨h, t', hsurvey, htransfer, -⟩
    -- the survey finds all that it reads
    · cases found_surveyOf hwf hproper _ settings _ hsurvey
    · obtain ⟨-, -, hsnapshot⟩ := Except.bind_eq_ok_iff.mp hsurvey
      obtain ⟨hsurveyed, -⟩ := Hierarchy.forall₂_surveyed hwf hproper.groups hsnapshot
      obtain ⟨pos, t, hreach, hstep⟩ := exists_reaches_of_error hwf hproper hsurveyed
        (fun id hid => found_group hwf hproper hid) found_finish htransfer
        (show ¬ Fault.NotMissing _ from fun h => nomatch h)
      -- the run stops at `pos`, and passed every position before it
      refine ⟨pos, unready_of_missing hwf hproper hb hbase rfl hsnapshot hreach hstep,
        fun pos' hbefore => ?_⟩
      obtain ⟨t₁, tally, t₂, hreach', hstep'⟩ := hreach.of_precedes hwf hproper hbefore
      exact isReady_of_ok hwf hproper hb hbase rfl hsnapshot hreach' hstep'
  · intro report output' hrun pos
    obtain ⟨h, t', hsnapshot, -, hall, -⟩ := flatten_ok hbase.wellFormed hrun
    obtain ⟨hsurveyed, -⟩ := Hierarchy.forall₂_surveyed hwf hproper.groups hsnapshot
    rw [hb.withRoot_root] at hall
    obtain ⟨t, tally, t₁, hreach, hstep⟩ :=
      exists_reaches_of_ok hwf hproper hsurveyed hall pos
    exact isReady_of_ok hwf hproper hb hbase rfl hsnapshot hreach hstep

/-- A variable whose dimension is given by a path without the leading separator. -/
def relative : Dataset :=
  (Dataset.create "relative" true).applyAll
    [.dimension "/" "x" (some 2), .variable "/" ⟨"v", .double, ["x"], none⟩]

/-- A variable of the root along a dimension of a group, whose turn comes later. -/
def ahead : Dataset :=
  (Dataset.create "ahead" true).applyAll
    [.group "/" "g", .dimension "/g" "x" (some 2), .variable "/" ⟨"v", .double, ["/g/x"], none⟩]

/-- All variables of the station are ready; that of the other dataset is not. -/
theorem station_ready : station.Reachable ∧ station.HasProperNames ∧ relative.Reachable ∧
    relative.HasProperNames ∧ (∀ pos : Position station, IsReady pos) ∧
    ∃ pos : Position relative, Unready pos (.dimensionOf "x" "/v") ∧
      ∀ pos' : Position relative, pos'.Precedes pos → IsReady pos' := by
  have hrelative : relative.Reachable := (Dataset.Reachable.create "relative" true).applyAll _
  have hproper : relative.HasProperNames := by decide +kernel
  obtain ⟨report, output, hok, -⟩ := EStateM.exists_of_succeedsWith
    (fun (_ : Report) (_ : Dataset) => true)
    (show EStateM.succeedsWith _ (flatten station {} (Dataset.create "flat" false)) = true by
      decide +kernel)
  obtain ⟨fault, output', herror, hfault⟩ := EStateM.exists_of_failsWith
    (fun fault => fault == .store (.notFound (.dimensionOf "x" "/v")))
    (show EStateM.failsWith _ (flatten relative {} (Dataset.create "flat" false)) = true by
      decide +kernel)
  obtain rfl := beq_iff_eq.mp hfault
  obtain ⟨-, hready⟩ :=
    ready_until_missing station_reachable station_hasProperNames {} "flat" false
  obtain ⟨hmissing, -⟩ := ready_until_missing hrelative hproper {} "flat" false
  exact ⟨station_reachable, station_hasProperNames, hrelative, hproper, hready report output hok,
    hmissing _ output' herror⟩

/-- Two datasets that were built without a failure and cannot be flattened: a dimension is not known
by the path that was given for it, or has not been created yet. -/
theorem relative_and_ahead_missing : relative.Reachable ∧ relative.HasProperNames ∧
    ahead.Reachable ∧ ahead.HasProperNames ∧
    (relative.group Dataset.rootId).vars.map (·.name) = ["v"] ∧
    (ahead.group Dataset.rootId).vars.map (·.name) = ["v"] ∧
    (∃ output', flatten relative {} (Dataset.create "flat" false) =
      .error (.store (.notFound (.dimensionOf "x" "/v"))) output') ∧
    ∃ output', flatten ahead {} (Dataset.create "flat" false) =
      .error (.store (.notFound (.path "/g__x"))) output' := by
  obtain ⟨fault, output, hrelative, hfault⟩ := EStateM.exists_of_failsWith
    (fun fault => fault == .store (.notFound (.dimensionOf "x" "/v")))
    (show EStateM.failsWith _ (flatten relative {} (Dataset.create "flat" false)) = true by
      decide +kernel)
  obtain rfl := beq_iff_eq.mp hfault
  obtain ⟨fault, output', hahead, hfault⟩ := EStateM.exists_of_failsWith
    (fun fault => fault == .store (.notFound (.path "/g__x")))
    (show EStateM.failsWith _ (flatten ahead {} (Dataset.create "flat" false)) = true by
      decide +kernel)
  obtain rfl := beq_iff_eq.mp hfault
  exact ⟨(Dataset.Reachable.create "relative" true).applyAll _, by decide +kernel,
    (Dataset.Reachable.create "ahead" true).applyAll _, by decide +kernel, by decide +kernel,
    by decide +kernel, ⟨output, hrelative⟩, output', hahead⟩

end Flatten

end GroupFlattening
