import GroupFlattening.Proofs.Dataset.Elements
import GroupFlattening.Proofs.Flatten.BadReference
import GroupFlattening.Proofs.Flatten.Kept

/-!
# Where a Strict Run Stops

A strict run that fails for a reference has stopped at the first variable that has a bad one. What
it leaves behind is known exactly (`Stopped`, `stopped_of_error`): the finished copies of the
variables before and the one that was begun, the dimensions and the attributes of the groups up to
that of the variable, and no provenance. The data of the finished copies is there
(`element?_copy`), also where variables share dimensions that have grown since. A lax run of the
same input ends with the same finished copies, whatever becomes of it (`stopped_at_first`).
-/

namespace GroupFlattening.Flatten

open Dataset (IsFlat Position)
open GroupFlattening.EStateM (EndsIn)
open ObjectPath (join separator)

/-! ## Data that has been copied -/

theorem mem_zip_map {find : String → Option String} {paths flats : List String}
    (h : List.Forall₂ (fun path flat => find path = some flat) paths flats) (size : String → Nat)
    {path flat : String} (hpath : path ∈ paths) (hflat : find path = some flat) :
    (flat, size path) ∈ flats.zip (paths.map size) := by
  induction h with
  | nil => cases hpath
  | cons hfirst _ ih =>
    rw [List.map_cons, List.zip_cons_cons]
    -- the pair at the front, or one behind it
    rcases List.mem_cons.mp hpath with rfl | hpath
    · obtain rfl := Option.some.inj (hfirst.symm.trans hflat)
      exact List.mem_cons_self
    · exact List.mem_cons_of_mem _ (ih hpath)

/-- A variable with a flat copy has dimensions that the name table knows. -/
theorem FlatCopy.exists_flats {input : Dataset} {h : Hierarchy} {names : NameTable}
    {settings : Settings} {place : String} {v copy : Dataset.Variable}
    (hcopy : FlatCopy input h names settings place v copy) :
    ∃ flats, List.Forall₂ (fun path flat => names.dimensions.find? path = some flat)
      v.dimensions flats := by
  have hdims := hcopy.dimensions
  generalize v.dimensions = paths, copy.dimensions = flatPaths at hdims
  induction hdims with
  | nil => exact ⟨[], .nil⟩
  | cons hflat _ ih =>
    obtain ⟨flat, hfind, -⟩ := hflat
    obtain ⟨flats, hflats⟩ := ih
    exact ⟨flat :: flats, .cons hfind hflats⟩

section Copied

variable {input base : Dataset} (hinput : input.WellFormed) (hproper : input.HasProperNames)
  (hb : base.IsFlat) {h : Hierarchy} {limit : Nat}
  (hsnapshot : Hierarchy.ofDataset input limit = .ok h) {settings : Settings} {ids : List Nat}
  {vars : List (String × Dataset.Variable)} {g : Dataset.Group} {p : ProvenanceMaps}
  (hc : Carried input base h settings ids vars g p) {e : String × Dataset.Variable}
  (he : e ∈ vars) (hcopied : settings.copyData = true) {copy : Dataset.Variable}
  (hcopy : FlatCopy input h (.ofHierarchy h) settings e.1 e.2 copy)

include hinput hproper hb hsnapshot hc he hcopied hcopy

/-- The axes of a finished copy are at least as long as those of the variable, whatever variables
come behind it. -/
theorem shape_le_copy (hdata : 0 ∉ input.currentShape e.2) (later : List Dataset.Variable) :
    List.Forall₂ (· ≤ ·) (input.currentShape e.2)
      ((base.withRoot { g with vars := later }).currentShape copy) := by
  unfold Dataset.currentShape
  rw [List.forall₂_map_left_iff, List.forall₂_map_right_iff]
  obtain ⟨flats, hflats⟩ := hcopy.exists_flats
  have hdims := (List.forall₂_and_left _ _).mpr ⟨fun path hpath => hpath, hcopy.dimensions⟩
  refine hdims.imp fun path flatPath hpath => ?_
  obtain ⟨hpath, flat, hflat, rfl⟩ := hpath
  -- the flat dimension is there, and the data of the variable has reached its own end
  obtain ⟨flat', hflat', hthere⟩ := hc.progress.used e he path hpath
  obtain rfl := Option.some.inj (hflat.symm.trans hflat')
  obtain ⟨dim, hdim, hname⟩ := List.mem_map.mp hthere
  have hfind : g.dimensions.find? (fun x => x.name == flat) = some dim := by
    rw [← hname]
    exact Dataset.find?_eq_some_of_nodup hc.progress.nodupDimensions hdim
  have hfound := (hb.dimension_join (g := { g with vars := later })
    (separator_not_mem_of_find? hinput hproper hsnapshot hflat)).mpr hfind
  rw [Dataset.sizeOf_of_dimension hfound]
  rw [hc.dimensions] at hdim
  obtain ⟨dim, -, rfl⟩ := List.mem_map.mp hdim
  rw [Dimension.name_grown] at hname
  -- its axis is one of those that were written
  have haxis : (flat, input.sizeOf path) ∈
      vars.flatMap fun u => copiedAxes input (.ofHierarchy h) settings u.2 := by
    refine List.mem_flatMap.mpr ⟨e, he, ?_⟩
    rw [copiedAxes_eq hflats, if_pos ⟨hcopied, hdata⟩]
    exact mem_zip_map hflats input.sizeOf hpath hflat
  exact Dimension.le_size_grown haxis hname.symm

/-- The elements of a variable are elements of its finished copy. -/
theorem element?_copy (hreachable : input.Reachable) (hlocated : e ∈ groupVariables input)
    {later : List Dataset.Variable} (hmem : copy ∈ later)
    (houtput : (base.withRoot { g with vars := later }).Reachable) {index : Index} {cell : Cell}
    (helement : input.element? (join e.1 e.2.name) index = some cell) :
    (base.withRoot { g with vars := later }).element?
      (join ObjectPath.root (variableName e)) index = some cell := by
  obtain ⟨id, hid, hplace, hv⟩ := Dataset.mem_located.mp hlocated
  have hlt := hinput.mem_groupIds_iff.mp hid
  have hfind := hinput.findVariable_join hproper hlt hv
  rw [hplace] at hfind
  rw [Dataset.element?_eq hinput hreachable.wellStored hfind] at helement
  -- an element inside the shape is a cell, and there is none outside
  split at helement
  · next hwithin =>
    obtain rfl := Option.some.inj helement
    -- the copy is found by its name
    have hsep := separator_not_mem_variableName hinput hproper hlocated
    have hvars : (base.withRoot { g with vars := later }).group Dataset.rootId =
        { g with vars := later } := hb.root_withRoot
    have hnodup := (houtput.wellFormed.groups Dataset.rootId).vars
    rw [hvars] at hnodup
    have hfindCopy := (hb.findVariable_join (g := { g with vars := later }) hsep).mpr
      (hcopy.name ▸ Dataset.find?_eq_some_of_nodup hnodup hmem)
    have hdata : 0 ∉ input.currentShape e.2 :=
      fun hzero => Shape.not_within_of_zero_mem hzero hwithin
    have hle := shape_le_copy hinput hproper hb hsnapshot hc he hcopied hcopy hdata later
    rw [Dataset.element?_eq houtput.wellFormed houtput.wellStored hfindCopy,
      if_pos (hwithin.mono hle),
      hcopy.data hcopied (hreachable.wellStored id e.2 hv).hasType, if_pos hwithin]
  · cases helement

end Copied

/-! ## The variable at which a run stops -/

/-- What a strict run leaves behind that has stopped at a variable for a reference. -/
structure Stopped (input : Dataset) (h : Hierarchy) (settings : Settings) (pos : Position input)
    (fault : Fault) (output' : Dataset) (copies : List Dataset.Variable)
    (copy : Dataset.Variable) : Prop where
  /-- The fault is about a reference of the variable. -/
  bad : BadReference h pos.place pos.v fault
  /-- No variable before it has a bad reference. -/
  first : ∀ e ∈ pos.before, ∀ other, ¬ BadReference h e.1 e.2 other
  flat : output'.IsFlat
  vars : output'.root.vars = copies ++ [copy]
  /-- The copies of the variables before are finished. -/
  finished : List.Forall₂
    (fun e c => FlatCopy input h (.ofHierarchy h) settings e.1 e.2 c) pos.before copies
  /-- The copy of the variable itself has no data. -/
  begun : BegunCopy h (.ofHierarchy h) settings pos.place pos.v copy
  /-- The groups up to that of the variable have their dimensions, which have grown to where the
  data of the variables before ends. -/
  dimensions : output'.root.dimensions = (createdDimensions input pos.begun).map
    (Dimension.grown (pos.before.flatMap fun e =>
      copiedAxes input (.ofHierarchy h) settings e.2))
  fixed : ∀ dim ∈ createdDimensions input pos.begun, dim.isUnlimited = false →
    dim ∈ output'.root.dimensions
  /-- The attributes of these groups have been set, and nothing else. -/
  attributes : output'.root.attributes = Attributes.setAll []
    ((input.locatedIn pos.begun (·.attributes)).map flatAttribute)
  /-- The data of the variables before has been copied. -/
  data : settings.copyData = true → ∀ e ∈ pos.before, ∀ index cell,
    input.element? (join e.1 e.2.name) index = some cell →
      output'.element? (join ObjectPath.root (variableName e)) index = some cell

theorem mem_groupVariables_of_mem_before {input : Dataset} {pos : Position input}
    {e : String × Dataset.Variable} (he : e ∈ pos.before) : e ∈ groupVariables input := by
  rw [groupVariables, Dataset.located_eq, pos.groupIds_eq]
  simp only [Dataset.locatedIn, List.flatMap_append, List.flatMap_cons, List.mem_append]
  rcases List.mem_append.mp he with he | he
  · exact Or.inl he
  · obtain ⟨v, hv, rfl⟩ := List.mem_map.mp he
    refine Or.inr (Or.inl (List.mem_map.mpr ⟨v, ?_, rfl⟩))
    rw [pos.vars_eq]
    exact List.mem_append_left _ hv

/-- Where a strict run comes to a variable and fails there for a reference, it has stopped. -/
theorem stopped_of_error {input : Dataset} (hinput : input.Reachable)
    (hproper : input.HasProperNames) {settings : Settings} (hstrict : settings.laxMode = false)
    {location : String} {isNested : Bool} {h : Hierarchy} {limit : Nat}
    (hsnapshot : Hierarchy.ofDataset input limit = .ok h) {pos : Position input}
    {g : Dataset.Group} {p : ProvenanceMaps} (hc : Carried input
      (Dataset.create location isNested) h settings pos.begun pos.before g p)
    {fault : Fault} (hfault : ¬ fault.IsPlain) {t' : Transfer Dataset}
    (hstep : variableOf input h settings pos.place pos.v
      ⟨(Dataset.create location isNested).withRoot g, p⟩ = .error fault t') :
    ∃ copy, Stopped input h settings pos fault t'.output g.vars copy := by
  have hwf := hinput.wellFormed
  have hb : (Dataset.create location isNested).IsFlat := rfl
  have hlt := hwf.mem_groupIds_iff.mp pos.id_mem
  obtain ⟨hbad, copy, hbegun, -, houtput⟩ := begun_of_variableStep hb hfault hstrict
    (separator_not_mem_flatName (hproper.vars pos.id hlt pos.v pos.v_mem).2)
    (hwf.findVariable_join hproper hlt pos.v_mem)
    ((hwf.groups pos.id).variableAttributes pos.v pos.v_mem) hstep
  -- the output was empty, so its variables are the copies that are finished
  obtain ⟨copies, hcopies, hfinished⟩ := hc.progress.copies
  obtain rfl : g.vars = copies := hcopies
  have hbefore := (written_reachable (.create location isNested) hc.written).1
  obtain ⟨hafter, -⟩ := (reachable_variableStep _ hbefore).of_error hstep
  have hroot : t'.output.root = { g with vars := g.vars ++ [copy] } := by
    rw [houtput, hb.root_withRoot]
  refine ⟨copy,
    { bad := hbad
      first := fun e he other => ?_
      flat := houtput ▸ hb.withRoot
      vars := by rw [hroot]
      finished := hfinished
      begun := hbegun
      dimensions := by rw [hroot]; exact hc.dimensions
      fixed := fun dim hdim hfixed => ?_
      attributes := by rw [hroot]; exact hc.attributes
      data := fun hcopied e he index cell helement => ?_ }⟩
  -- a finished copy had no bad reference
  · obtain ⟨c, -, hcopy⟩ := Forall₂.exists_right hfinished he
    exact hcopy.not_badReference hstrict other
  -- a dimension of fixed size is created at its full size
  · rw [hroot]
    show dim ∈ g.dimensions
    rw [hc.dimensions, ← hc.fixed dim hdim hfixed]
    exact List.mem_map_of_mem hdim
  · obtain ⟨c, hmem, hcopy⟩ := Forall₂.exists_right hfinished he
    rw [houtput] at hafter ⊢
    exact element?_copy hwf hproper hb hsnapshot hc he hcopied hcopy hinput
      (mem_groupVariables_of_mem_before he) (List.mem_append_left _ hmem) hafter helement

/-- A strict run that fails for a reference of a variable has stopped there: the variable is the
first one with a bad reference, and what is left behind is known. In a lax run of the same input the
finished copies are the same in the end, whether it succeeds or fails. -/
theorem stopped_at_first {input output' : Dataset} (hinput : input.Reachable)
    (hproper : input.HasProperNames) {settings : Settings} (hstrict : settings.laxMode = false)
    {location : String} {isNested : Bool} {fault : Fault} {owner : String}
    (hreferrer : fault.referrer? = some owner)
    (hrun : flatten input settings (Dataset.create location isNested) = .error fault output') :
    ∃ h pos copies copy, Hierarchy.ofDataset input settings.depthLimit = .ok h ∧
      pos.path = owner ∧ Stopped input h settings pos fault output' copies copy ∧
      EndsIn (fun lax : Dataset => copies <+: lax.root.vars) (fun _ => True)
        (flatten input { settings with laxMode := true } (Dataset.create location isNested)) := by
  have hwf := hinput.wellFormed
  have hb : (Dataset.create location isNested).IsFlat := rfl
  have hfault : ¬ fault.IsPlain := by
    rw [Fault.IsPlain, Fault.isOfReference_of_referrer? hreferrer]
    simp
  rcases flatten_eq_error_iff.mp hrun with ⟨hsurvey, -⟩ | ⟨h, t', hsurvey, htransfer, rfl⟩
  -- the survey has no fault of a reference
  · exact absurd (early_surveyOf _ _ _ _ hsurvey).isPlain hfault
  obtain ⟨-, -, hsnapshot⟩ := Except.bind_eq_ok_iff.mp hsurvey
  obtain ⟨hsurveyed, -⟩ := Hierarchy.forall₂_surveyed hwf hproper.groups hsnapshot
  -- the run comes to a variable and fails there
  obtain ⟨pos, t, hreach, hstep⟩ := exists_reaches_of_error hwf hproper hsurveyed
    (fun id _ => plain_group input _) plain_finish htransfer hfault
  obtain ⟨g, p, rfl, hc⟩ :=
    hreach.carried hwf hproper hb (.create location isNested) hsnapshot
  obtain ⟨copy, hstopped⟩ := stopped_of_error hinput hproper hstrict hsnapshot hc hfault hstep
  refine ⟨h, pos, g.vars, copy, hsnapshot, ?_, hstopped, ?_⟩
  · exact Option.some.inj (hstopped.bad.referrer?_eq.symm.trans hreferrer)
  · exact endsIn_lax hb hwf hproper hsurvey hstrict hreach

/-- Depths with their bounds, which have bounds themselves that are not there. -/
def cruise : Dataset :=
  (Dataset.create "cruise" true).applyAll
    [.dimension "/" "x" (some 2), .variable "/" ⟨"depth", .byte, ["/x"], none⟩,
      .variableAttribute "/depth" "bounds" (.text "range"), .data "/depth" .all (.bytes [1, 2]),
      .variable "/" ⟨"range", .byte, ["/x"], none⟩,
      .variableAttribute "/range" "bounds" (.text "margin"), .data "/range" .all (.bytes [3, 4]),
      .group "/" "log", .dimension "/log" "day" (some 1)]

/-- A strict run stops at the bounds: the depths are there with their data, the bounds without, and
the dimension of the log has not been created. -/
theorem cruise_stopped : cruise.Reachable ∧ cruise.HasProperNames ∧
    ({} : Settings).laxMode = false ∧
    (Fault.unresolvedReference "/range" "bounds" "margin").referrer? = some "/range" ∧
    ∃ output', flatten cruise {} (Dataset.create "flat" false) =
        .error (.unresolvedReference "/range" "bounds" "margin") output' ∧
      (output'.readData "/depth" .all).toOption = some (.bytes [1, 2]) ∧
      (output'.readData "/range" .all).toOption = some (.bytes [0, 0]) ∧
      output'.root.dimensions = [⟨"x", 2, false⟩] ∧
      ∃ h pos copies copy, Hierarchy.ofDataset cruise ({} : Settings).depthLimit = .ok h ∧
        pos.path = "/range" ∧
        Stopped cruise h {} pos (.unresolvedReference "/range" "bounds" "margin") output' copies
          copy ∧
        EndsIn (fun lax : Dataset => copies <+: lax.root.vars) (fun _ => True)
          (flatten cruise { laxMode := true } (Dataset.create "flat" false)) := by
  have hcruise : cruise.Reachable := (Dataset.Reachable.create "cruise" true).applyAll _
  have hproper : cruise.HasProperNames := by decide +kernel
  obtain ⟨fault, output', hrun, hcheck⟩ := EStateM.exists_of_failsLeaving
    (fun (fault : Fault) (output' : Dataset) =>
      decide (fault = .unresolvedReference "/range" "bounds" "margin" ∧
        (output'.readData "/depth" .all).toOption = some (.bytes [1, 2]) ∧
        (output'.readData "/range" .all).toOption = some (.bytes [0, 0]) ∧
        output'.root.dimensions = [⟨"x", 2, false⟩]))
    (show EStateM.failsLeaving _ (flatten cruise {} (Dataset.create "flat" false)) = true by
      decide +kernel)
  obtain ⟨rfl, hdepth, hrange, hdims⟩ := of_decide_eq_true hcheck
  exact ⟨hcruise, hproper, rfl, rfl, output', hrun, hdepth, hrange, hdims,
    stopped_at_first hcruise hproper rfl rfl hrun⟩

end GroupFlattening.Flatten
