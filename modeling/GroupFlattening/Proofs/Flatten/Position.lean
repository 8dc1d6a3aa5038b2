import GroupFlattening.Proofs.Flatten.Refusal
import GroupFlattening.Proofs.Flatten.Session
import GroupFlattening.Proofs.Invariant

/-!
# Positions in a Run

A run carries over one variable after the other, and its `Position` says what lies before a variable
and behind it. `Reaches` is the part of a run that ends where a variable is about to be carried
over. A run that succeeds reaches every position and passes it (`exists_reaches_of_ok`); one that
fails where only variables can fail has reached the position of one and failed there
(`exists_reaches_of_error`). What a run leaves behind, in whichever way it ends, is known from any
position that it reaches and what the steps from there on maintain (`Reaches.endsIn`).
-/

namespace GroupFlattening

open ObjectPath (join)

namespace Dataset

/-- What some groups hold of one sort, in the order of the groups, each with the path of its
group. -/
def locatedIn {α : Type} (d : Dataset) (ids : List Nat) (items : Group → List α) :
    List (String × α) :=
  ids.flatMap fun id => (items (d.group id)).map fun item => ((d.group id).path, item)

theorem located_eq {α : Type} (d : Dataset) (items : Group → List α) :
    d.located items = d.locatedIn d.groupIds items := rfl

theorem locatedIn_append {α : Type} (d : Dataset) (ids ids' : List Nat) (items : Group → List α) :
    d.locatedIn (ids ++ ids') items = d.locatedIn ids items ++ d.locatedIn ids' items :=
  List.flatMap_append

theorem locatedIn_singleton {α : Type} (d : Dataset) (id : Nat) (items : Group → List α) :
    d.locatedIn [id] items = (items (d.group id)).map fun item => ((d.group id).path, item) :=
  List.flatMap_singleton ..

/-- A variable of a dataset among all others, in the order of the tree. -/
structure Position (d : Dataset) where
  /-- The groups before that of the variable. -/
  groups : List Nat
  /-- The group of the variable. -/
  id : Nat
  /-- The groups behind that of the variable. -/
  laterGroups : List Nat
  /-- The variables of the group that come before it. -/
  vars : List Variable
  /-- The variable. -/
  v : Variable
  /-- The variables of the group that come behind it. -/
  laterVars : List Variable
  groupIds_eq : d.groupIds = groups ++ id :: laterGroups
  vars_eq : (d.group id).vars = vars ++ v :: laterVars

namespace Position

variable {d : Dataset} (pos : Position d)

/-- The path of the group of the variable. -/
def place : String := (d.group pos.id).path

/-- The path of the variable. -/
def path : String := join pos.place pos.v.name

/-- The groups up to that of the variable. -/
def begun : List Nat := pos.groups ++ [pos.id]

/-- The variables before it, each with the path of its group. -/
def before : List (String × Variable) :=
  d.locatedIn pos.groups (·.vars) ++ pos.vars.map fun v => (pos.place, v)

/-- A variable comes before another one: its group does, or it does in their common group. -/
inductive Precedes (pos' pos : Position d) : Prop
  | group (h : pos'.begun <+: pos.groups)
  | «variable» (hgroups : pos'.groups = pos.groups) (hid : pos'.id = pos.id)
      (hvars : pos'.vars ++ [pos'.v] <+: pos.vars)

/-- The group of a position is one of the dataset. -/
theorem id_mem : pos.id ∈ d.groupIds := by simp [pos.groupIds_eq]

/-- The variable of a position is one of its group. -/
theorem v_mem : pos.v ∈ (d.group pos.id).vars := by simp [pos.vars_eq]

end Position

end Dataset

namespace Flatten

open Dataset (Position)
open GroupFlattening.EStateM (EndsIn Maintains)

section Walk

variable (input : Dataset) (h : Hierarchy) (settings : Settings)

/-- The step for a variable of the group at a path. -/
def variableOf (place : String) (v : Dataset.Variable) : TransferM Dataset Tally :=
  variableStep input h (NameTable.ofHierarchy h) settings place (input.listed v)

/-- The step for a group of the input, by its number. -/
def placeOf (id : Nat) : TransferM Dataset Tally :=
  placeStep input h (NameTable.ofHierarchy h) settings (input.group id).path

/-- From the first state a run comes to the second one, where it is about to carry over the variable
at a position. -/
def Reaches (start : Transfer Dataset) (pos : Position input) (t : Transfer Dataset) : Prop :=
  ∃ tallies t₁ infos t₂ tallies',
    pos.groups.mapM (placeOf input h settings) start = .ok tallies t₁ ∧
    Transfer.group input pos.place t₁ = .ok infos t₂ ∧
    pos.vars.mapM (variableOf input h settings pos.place) t₂ = .ok tallies' t

end Walk

section Run

variable {input : Dataset} (hinput : input.WellFormed) (hproper : input.HasProperNames)
  {h : Hierarchy} {settings : Settings} {start : Transfer Dataset}

include hinput hproper

theorem infos_of_group {id : Nat} (hid : id ∈ input.groupIds) {t t' : Transfer Dataset}
    {infos : List VariableInfo}
    (hrun : Transfer.group input (input.group id).path t = .ok infos t') :
    infos = (input.group id).vars.map input.listed :=
  Dataset.variableInfos_eq_map
    (hinput.groupId_path hproper.groups (hinput.mem_groupIds_iff.mp hid))
    (variableInfos_of_group hrun)

/-- A group is carried over by its own step and then those of its variables. -/
theorem placeOf_eq {id : Nat} (hid : id ∈ input.groupIds) :
    placeOf input h settings id = (do
      let _ ← Transfer.group input (input.group id).path
      let tallies ← (input.group id).vars.mapM
        (variableOf input h settings (input.group id).path)
      pure (Tally.total tallies)) := by
  funext t
  rw [placeOf, placeStep]
  -- the listed variables are known only once the group has been carried over
  cases hgroup : (Transfer.group input (input.group id).path : TransferM Dataset _) t with
  | error fault t' => rw [EStateM.bind_of_error hgroup, EStateM.bind_of_error hgroup]
  | ok infos t' =>
    rw [EStateM.bind_of_ok hgroup, EStateM.bind_of_ok hgroup,
      infos_of_group hinput hproper hid hgroup, List.mapM_map]
    rfl

/-- A walk over groups that include that of a variable reaches the variable and passes it. -/
theorem exists_reaches_of_walk {ids : List Nat} {tallies : List Tally} {t : Transfer Dataset}
    (hwalk : ids.mapM (placeOf input h settings) start = .ok tallies t) {pos : Position input}
    (hpos : pos.begun <+: ids) : ∃ t₁ tally t₂, Reaches input h settings start pos t₁ ∧
      variableOf input h settings pos.place pos.v t₁ = .ok tally t₂ := by
  obtain ⟨later, rfl⟩ := hpos
  rw [Position.begun, List.append_assoc] at hwalk
  -- the groups before, then the group of the variable
  obtain ⟨_, t₁, _, hgroups, hrest, -⟩ := EStateM.mapM_append_eq_ok_iff.mp hwalk
  obtain ⟨_, t₂, _, hplace, -, -⟩ := EStateM.mapM_cons_eq_ok_iff.mp hrest
  rw [placeOf_eq hinput hproper pos.id_mem] at hplace
  obtain ⟨infos, t₃, hgroup, hplace⟩ := EStateM.bind_eq_ok_iff.mp hplace
  obtain ⟨_, t₄, hvars, -⟩ := EStateM.bind_eq_ok_iff.mp hplace
  -- its variables before, then the variable
  rw [pos.vars_eq] at hvars
  obtain ⟨_, t₅, _, hbefore, hvars, -⟩ := EStateM.mapM_append_eq_ok_iff.mp hvars
  obtain ⟨tally, t₆, _, hv, -, -⟩ := EStateM.mapM_cons_eq_ok_iff.mp hvars
  exact ⟨t₅, tally, t₆, ⟨_, t₁, infos, t₃, _, hgroups, hgroup, hbefore⟩, hv⟩

/-- A run that reaches a variable has reached those before it and passed them. -/
theorem Reaches.of_precedes {pos pos' : Position input} {t : Transfer Dataset}
    (hreach : Reaches input h settings start pos t) (hprecedes : pos'.Precedes pos) :
    ∃ t₁ tally t₂, Reaches input h settings start pos' t₁ ∧
      variableOf input h settings pos'.place pos'.v t₁ = .ok tally t₂ := by
  obtain ⟨tallies, t₁, infos, t₂, tallies', hgroups, hgroup, hvars⟩ := hreach
  cases hprecedes with
  | group hbegun => exact exists_reaches_of_walk hinput hproper hgroups hbegun
  | «variable» hsame hid hvarsBefore =>
    have hplace : pos.place = pos'.place := by rw [Position.place, Position.place, hid]
    -- in the same group: the walk along its variables passes the earlier one
    obtain ⟨later, hlater⟩ := hvarsBefore
    rw [← hlater, List.append_assoc, hplace] at hvars
    obtain ⟨_, t₃, _, hbefore, hvars, -⟩ := EStateM.mapM_append_eq_ok_iff.mp hvars
    obtain ⟨tally, t₄, _, hv, -, -⟩ := EStateM.mapM_cons_eq_ok_iff.mp hvars
    exact ⟨t₃, tally, t₄,
      ⟨tallies, t₁, infos, t₂, _, hsame ▸ hgroups, hplace ▸ hgroup, hbefore⟩, hv⟩

variable (hsurveyed : List.Forall₂
  (fun id entry => Hierarchy.Surveyed input id entry.2 entry.1) input.groupIds
  h.groups.labels.zipIdx)

include hsurveyed

omit hinput hproper in
/-- A run is a walk over the groups of the input, and the provenance after it. -/
theorem transferAll_eq : (transferAll input settings h : TransferM Dataset Report) = (do
    let tallies ← input.groupIds.mapM (placeOf input h settings)
    let provenance ← Transfer.finish
    pure
      { provenance
        degraded := (Tally.total tallies).unresolved ++ (Tally.total tallies).unnamed
        groups := h.size
        replacedAttributes := (Tally.total tallies).replaced }) := by
  rw [transferAll, mapM_groupStep (NameTable.ofHierarchy h) hsurveyed]
  rfl

/-- A run that succeeds reaches every variable and passes it. -/
theorem exists_reaches_of_ok {report : Report} {t' : Transfer Dataset}
    (hrun : transferAll input settings h start = .ok report t') (pos : Position input) :
    ∃ t tally t₁, Reaches input h settings start pos t ∧
      variableOf input h settings pos.place pos.v t = .ok tally t₁ := by
  rw [transferAll_eq hsurveyed] at hrun
  obtain ⟨tallies, t₁, hwalk, -⟩ := EStateM.bind_eq_ok_iff.mp hrun
  refine exists_reaches_of_walk hinput hproper hwalk ⟨pos.laterGroups, ?_⟩
  rw [pos.groupIds_eq, Position.begun, List.append_assoc]
  rfl

/-- A run that fails as neither a group nor the provenance can fail has failed at a variable. -/
theorem exists_reaches_of_error {P : Fault → Prop} {fault : Fault} {t' : Transfer Dataset}
    (hgroup : ∀ id ∈ input.groupIds, EStateM.FaultsIn P
      (Transfer.group input (input.group id).path : TransferM Dataset (List VariableInfo)))
    (hfinish : EStateM.FaultsIn P (Transfer.finish : TransferM Dataset ProvenanceMaps))
    (hrun : transferAll input settings h start = .error fault t') (hfault : ¬ P fault) :
    ∃ pos t, Reaches input h settings start pos t ∧
      variableOf input h settings pos.place pos.v t = .error fault t' := by
  rw [transferAll_eq hsurveyed] at hrun
  rcases EStateM.bind_eq_error_iff.mp hrun with hwalk | ⟨tallies, t₁, -, hrest⟩
  · -- the first group that fails, and in it the first variable
    obtain ⟨groups, id, later, tallies, t₁, hsplit, hgroups, hplace⟩ :=
      EStateM.mapM_eq_error_iff.mp hwalk
    have hid : id ∈ input.groupIds := by simp [hsplit]
    rw [placeOf_eq hinput hproper hid] at hplace
    rcases EStateM.bind_eq_error_iff.mp hplace with hother | ⟨infos, t₂, hhere, hrest⟩
    · exact absurd (hgroup id hid t₁ fault t' hother) hfault
    · rcases EStateM.bind_eq_error_iff.mp hrest with hvars | ⟨_, _, -, hpure⟩
      · obtain ⟨vars, v, laterVars, tallies', t₃, hvarsplit, hbefore, hv⟩ :=
          EStateM.mapM_eq_error_iff.mp hvars
        exact ⟨⟨groups, id, later, vars, v, laterVars, hsplit, hvarsplit⟩, t₃,
          ⟨tallies, t₁, infos, t₂, tallies', hgroups, hhere, hbefore⟩, hv⟩
      · cases hpure
  · rcases EStateM.bind_eq_error_iff.mp hrest with hother | ⟨_, _, -, hpure⟩
    -- the provenance does not fail in this way
    · exact absurd (hfinish t₁ fault t' hother) hfault
    · cases hpure

/-- What holds at a position that a run reaches, and is maintained by all steps, holds in the end,
whether the run succeeds or fails. -/
theorem Reaches.endsIn {I : Transfer Dataset → Prop} {P : Fault → Prop} {pos : Position input}
    {t : Transfer Dataset} (hreach : Reaches input h settings start pos t) (ht : I t)
    (hvar : ∀ id ∈ input.groupIds, ∀ v ∈ (input.group id).vars,
      Maintains I P (variableOf input h settings (input.group id).path v))
    (hgroup : ∀ id ∈ input.groupIds, Maintains I P
      (Transfer.group input (input.group id).path : TransferM Dataset (List VariableInfo)))
    (hfinish : Maintains I P (Transfer.finish : TransferM Dataset ProvenanceMaps)) :
    EndsIn I P (transferAll input settings h start) := by
  obtain ⟨tallies, t₁, infos, t₂, tallies', hgroups, hhere, hbefore⟩ := hreach
  -- a group as a whole keeps `I`
  have hplace : ∀ id ∈ input.groupIds, Maintains I P (placeOf input h settings id) := by
    intro id hid
    rw [placeOf_eq hinput hproper hid]
    apply (hgroup id hid).bind
    intro _ _ _ _ _
    apply (Maintains.mapM (hvar id hid)).bind
    intro _ tallies _ _ _
    exact .pure _
  -- the group of the variable, from the variable on
  have hhalf : EndsIn I P (placeOf input h settings pos.id t₁) := by
    rw [placeOf_eq hinput hproper pos.id_mem]
    apply EndsIn.bind_of_ok hhere
    apply EndsIn.bind
    · have hstep := hvar pos.id pos.id_mem pos.v pos.v_mem t ht
      rw [pos.vars_eq]
      refine EndsIn.mapM_of_ok hbefore hstep fun v hv => hvar pos.id pos.id_mem v ?_
      simp [pos.vars_eq, hv]
    · intro _ _ _ hs
      exact Maintains.pure _ _ hs
  rw [transferAll_eq hsurveyed]
  apply EndsIn.bind
  -- then the groups behind it, and the provenance
  · rw [pos.groupIds_eq]
    refine EndsIn.mapM_of_ok hgroups hhalf fun id hid => hplace id ?_
    simp [pos.groupIds_eq, hid]
  · intro _ t₃ _ ht₃
    apply (hfinish t₃ ht₃).bind
    intro _ t₄ _ ht₄
    exact Maintains.pure _ _ ht₄

end Run

end Flatten

end GroupFlattening
