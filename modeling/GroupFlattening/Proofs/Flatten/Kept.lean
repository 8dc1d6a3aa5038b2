import GroupFlattening.Proofs.Flatten.Carried
import GroupFlattening.Proofs.Flatten.Invariant

/-!
# Copies That Stay

No later step of a run touches a copy that is finished: the steps for groups and the one for the
provenance write attributes and dimensions of the root, and the step for a variable writes to its
own copy, which has a new name. So the copies that are there at a position are the first variables
of the root in the end, in whichever way the run ends (`Reaches.endsIn_startsWith`). A lax run comes
to every position that a strict one comes to, and has done the same until then (`Reaches.lax`), so
it ends with the copies that the strict run has made (`endsIn_lax`).
-/

namespace GroupFlattening.Flatten

open Dataset (IsFlat Position)
open GroupFlattening.EStateM (EndsIn Maintains)
open ObjectPath (join separator)

/-- A flat dataset whose first variables are the given ones. -/
def StartsWith (base : Dataset) (kept : List Dataset.Variable) (d : Dataset) : Prop :=
  ∃ g, d = base.withRoot g ∧ kept <+: g.vars

/-! ## Writes -/

section Writes

variable {base : Dataset} (hb : base.IsFlat) {kept : List Dataset.Variable}

theorem prefix_changeFirst {vars : List Dataset.Variable} {flat : String} (hkept : kept <+: vars)
    (hnew : flat ∉ kept.map (·.name)) (change : Dataset.Variable → Dataset.Variable) :
    kept <+: Dataset.changeFirst (fun v => v.name == flat) change vars := by
  obtain ⟨later, rfl⟩ := hkept
  rw [Dataset.changeFirst_append hnew]
  exact List.prefix_append ..

include hb

theorem startsWith_setGroupAttribute (name : String) (value : AttributeValue) :
    Maintains (StartsWith base kept) (fun _ => True)
      (Dataset.setGroupAttribute ObjectPath.root name value) := by
  apply maintains_of_ok (Dataset.atomic_checked _ _)
  rintro _ d' ⟨g, rfl, hkept⟩ h
  exact ⟨_, hb.setGroupAttribute h, hkept⟩

theorem startsWith_createDimension (name : String) (size : Option Nat) :
    Maintains (StartsWith base kept) (fun _ => True)
      (Dataset.createDimension ObjectPath.root name size) := by
  apply maintains_of_ok (Dataset.atomic_checked _ _)
  rintro _ d' ⟨g, rfl, hkept⟩ h
  exact ⟨_, (hb.createDimension h).2, hkept⟩

theorem startsWith_createVariable (definition : VariableDefinition) :
    Maintains (StartsWith base kept) (fun _ => True)
      (Dataset.createVariable ObjectPath.root definition) := by
  apply maintains_of_ok (Dataset.atomic_checked _ _)
  rintro _ d' ⟨g, rfl, hkept⟩ h
  obtain ⟨-, shape, -, rfl⟩ := hb.createVariable h
  exact ⟨_, rfl, hkept.trans (List.prefix_append ..)⟩

section Others

variable {flat : String} (hsep : separator ∉ flat.toList) (hnew : flat ∉ kept.map (·.name))

include hsep hnew

theorem startsWith_setVariableAttribute (key : String) (value : AttributeValue) :
    Maintains (StartsWith base kept) (fun _ => True)
      (Dataset.setVariableAttribute (join ObjectPath.root flat) key value) := by
  apply maintains_of_ok (Dataset.atomic_checked _ _)
  rintro _ d' ⟨g, rfl, hkept⟩ h
  exact ⟨_, (hb.setVariableAttribute_join hsep h).2, prefix_changeFirst hkept hnew _⟩

theorem startsWith_writeData (place : Selection) (data : Buffer) :
    Maintains (StartsWith base kept) (fun _ => True)
      (Dataset.writeData (join ObjectPath.root flat) place data) := by
  apply maintains_of_ok (Dataset.atomic_checked _ _)
  rintro _ d' ⟨g, rfl, hkept⟩ h
  obtain ⟨dims, change, rfl⟩ := hb.writeData_named hsep h
  exact ⟨_, rfl, prefix_changeFirst hkept hnew change⟩

end Others

/-- The step for a variable leaves all copies alone that were there before. -/
theorem startsWith_variableOf {input : Dataset} {h : Hierarchy} {settings : Settings}
    {place : String} {v : Dataset.Variable} (hsep : separator ∉ (flatName place v.name).toList) :
    Keeps (StartsWith base kept) (fun _ => True) (variableOf input h settings place v) := by
  apply keeps_variableStep
  · intro definition _
    exact startsWith_createVariable hb definition
  · rintro definition d d' hname ⟨g, rfl, hkept⟩ hcreate
    -- the copy has a new name
    obtain ⟨hfree, -⟩ := hb.createVariable hcreate
    rw [hname] at hfree
    have hnew : flatName place v.name ∉ kept.map (·.name) :=
      fun hmem => hfree ((hkept.map _).subset hmem)
    exact ⟨startsWith_setVariableAttribute hb hsep hnew, startsWith_writeData hb hsep hnew⟩

end Writes

/-- The step for a variable leaves a dataset reachable. -/
theorem reachable_variableStep {ι : Type} [Readable ι] {input : ι} {h : Hierarchy}
    {names : NameTable} {settings : Settings} {group : String} {info : VariableInfo} :
    Keeps (·.Reachable) (fun _ => True)
      (variableStep input h names settings group info : TransferM Dataset Tally) := by
  -- every write is a change, and a change leads from reachable to reachable
  have hkeeps : ∀ (write : EStateM StoreFault Dataset Unit) (change : Dataset.Change),
      (∀ d, Dataset.stateAfter (write d) = change.apply d) →
        Maintains (·.Reachable) (fun _ => True) write :=
    fun write change hchange =>
      maintains_of_change change hchange (fun _ hd => hd.change change) fun _ _ _ _ _ => trivial
  apply keeps_variableStep
  · intro definition _
    exact hkeeps _ (.variable ObjectPath.root definition) fun _ => rfl
  · intro definition _ _ _ _ _
    constructor
    · intro name value
      exact hkeeps _ (.variableAttribute (join ObjectPath.root (flatName group info.name)) name
        value) fun _ => rfl
    · intro place data
      exact hkeeps _ (.data (join ObjectPath.root (flatName group info.name)) place data)
        fun _ => rfl

/-! ## Runs -/

section Run

variable {input : Dataset} {h : Hierarchy} {settings : Settings} {start t : Transfer Dataset}
  {pos : Position input}

/-- The copies that are there when a variable is about to be carried over are there in the end. -/
theorem Reaches.endsIn_startsWith {base : Dataset} (hb : base.IsFlat) (hinput : input.WellFormed)
    (hproper : input.HasProperNames) (hsurveyed : List.Forall₂
      (fun id entry => Hierarchy.Surveyed input id entry.2 entry.1) input.groupIds
      h.groups.labels.zipIdx) {kept : List Dataset.Variable}
    (hreach : Reaches input h settings start pos t) (ht : StartsWith base kept t.output) :
    EndsIn (fun t => StartsWith base kept t.output) (fun _ => True)
      (transferAll input settings h start) := by
  -- variables, groups and the provenance each leave the kept variables in front
  apply hreach.endsIn hinput hproper hsurveyed ht
  · intro id hid v hv
    have hname := (hproper.vars id (hinput.mem_groupIds_iff.mp hid) v hv).2
    exact startsWith_variableOf hb (separator_not_mem_flatName hname)
  · intro id _
    exact keeps_group (startsWith_setGroupAttribute hb) (fun _ _ => trivial) (fun _ _ => trivial)
      (fun _ _ => trivial) (startsWith_createDimension hb)
  · exact keeps_finish (startsWith_setGroupAttribute hb)

/-- The step for a group looks at nothing of it but its path. -/
theorem agree_placeOf (input : Dataset) (h : Hierarchy) (settings : Settings) (id : Nat) :
    Agree True IsClean (placeOf input h { settings with laxMode := false } id)
      (placeOf input h { settings with laxMode := true } id) :=
  agree_groupStep input h (.ofHierarchy h) settings
    { (default : Hierarchy.Group) with path := (input.group id).path }

/-- A lax run comes to where a strict one comes, with the same output. -/
theorem Reaches.lax (hstrict : settings.laxMode = false)
    (hreach : Reaches input h settings start pos t) :
    Reaches input h { settings with laxMode := true } start pos t := by
  have hsettings : settings = { settings with laxMode := false } := by rw [← hstrict]
  rw [hsettings] at hreach
  obtain ⟨tallies, t₁, infos, t₂, tallies', hgroups, hgroup, hvars⟩ := hreach
  obtain ⟨hgroups, -⟩ := ((Agree.mapM (agree_placeOf input h settings) pos.groups).ok_iff trivial
    start tallies t₁).mp hgroups
  obtain ⟨hvars, -⟩ := ((Agree.mapM (fun v => agree_variableStep input h (.ofHierarchy h) settings
    pos.place (input.listed v)) pos.vars).ok_iff trivial t₂ tallies' t).mp hvars
  exact ⟨tallies, t₁, infos, t₂, tallies', hgroups, hgroup, hvars⟩

/-- A lax run ends with the copies that a strict one has made where it comes. -/
theorem endsIn_lax {base : Dataset} (hb : base.IsFlat) (hinput : input.WellFormed)
    (hproper : input.HasProperNames) (hsurvey : survey input base settings = .ok h)
    (hstrict : settings.laxMode = false) {g : Dataset.Group} {p : ProvenanceMaps}
    (hreach : Reaches input h settings ⟨base, {}⟩ pos ⟨base.withRoot g, p⟩) :
    EndsIn (fun lax : Dataset => g.vars <+: lax.root.vars) (fun _ => True)
      (flatten input { settings with laxMode := true } base) := by
  obtain ⟨-, -, hsnapshot⟩ := Except.bind_eq_ok_iff.mp hsurvey
  obtain ⟨hsurveyed, -⟩ := Hierarchy.forall₂_surveyed hinput hproper.groups hsnapshot
  -- the lax run gets as far as the strict one, and goes on from there
  have hends := (hreach.lax hstrict).endsIn_startsWith hb hinput hproper hsurveyed
    ⟨g, rfl, List.prefix_rfl⟩
  -- the survey does not depend on the mode
  have hlax : EndsIn (StartsWith base g.vars) (fun _ => True)
      (flatten input { settings with laxMode := true } base) := endsIn_flatten hsurvey hends
  refine hlax.mono fun lax h => ?_
  obtain ⟨g', rfl, hkept⟩ := h
  rwa [hb.root_withRoot]

end Run

end GroupFlattening.Flatten
