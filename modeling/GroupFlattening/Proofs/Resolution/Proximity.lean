import GroupFlattening.Proofs.Hierarchy.Built
import GroupFlattening.Proofs.Resolution.Lateral
import GroupFlattening.Resolution.Search

/-!
# What a Search for a Bare Name Finds

An upward walk goes along the lineage of the group of the referring variable (`ascent_eq`) and ends
at the nearest group that meets the name, by defining it or as an apex
(`proximity_of_isNearest`). So the nearest group around that defines the name decides unless the
rule stops at an apex that is nearer; then the search goes sideways from there
(`proximity_decided_by_nearest`).
-/

namespace GroupFlattening.Hierarchy

variable {h : Hierarchy} {rule : ReferenceRule} {v : Variable} {kind : ObjectKind} {name : String}
  {start : Nat}

/-! ## Groups that decide a search -/

/-- The nearest group around a group, or that group itself, that defines a name. -/
def IsNearestDefinition (h : Hierarchy) (start : Nat) (kind : ObjectKind) (name : String)
    (id : Nat) : Prop :=
  h.groups.IsNearest start (fun id => h.defines id kind name = true) id

/-- A group owns a dimension of a variable: the group part of the path of the dimension is the path
of the group. -/
def Owns (h : Hierarchy) (v : Variable) (id : Nat) : Prop :=
  ∃ path ∈ v.dimensions, (ObjectPath.split path).1 = (h.group id).path

instance (h : Hierarchy) (v : Variable) : DecidablePred (h.Owns v) :=
  fun id => inferInstanceAs (Decidable (∃ path ∈ v.dimensions, _ = (h.group id).path))

/-- The nearest group around a group, or that group itself, that owns a dimension of a variable. -/
def IsNearestOwner (h : Hierarchy) (start : Nat) (v : Variable) (id : Nat) : Prop :=
  h.groups.IsNearest start (h.Owns v) id

/-- A group is strictly below an apex and outside the branch that leads to a given group. -/
structure IsAside (h : Hierarchy) (apex start id : Nat) : Prop where
  below : id ∈ h.groups.subtree apex
  ne : id ≠ apex
  outside : ∀ c ∈ h.children apex, start ∈ h.groups.subtree c → id ∉ h.groups.subtree c

/-- What a search sideways from an apex comes back with: it is the lateral search that leaves out
the branch that the search came from, and all its objects are aside. -/
structure SearchesAside (h : Hierarchy) (apex start : Nat) (kind : ObjectKind) (name : String)
    (result : Lookup) : Prop where
  lateral : result = h.lateral apex (h.groups.branch? apex start) kind name
  aside : ∀ path ∈ result.paths, ∃ id, h.IsAside apex start id ∧
    h.defines id kind name = true ∧ path = h.objectPath id name

theorem Built.isAside_of_isBeside (hh : h.Built) {apex id : Nat}
    (hbeside : h.IsBeside apex (h.groups.branch? apex start) id) : h.IsAside apex start id := by
  obtain ⟨c, hc, hne, hid⟩ := hbeside
  refine ⟨Forest.mem_subtree_of_mem_children hc hid, ?_, fun c' hc' hstart hid' => ?_⟩
  · rintro rfl
    exact Forest.not_mem_subtree_of_mem_children hc hid
  · rw [hh.children_eq] at hc'
    -- the branch of the group is the excluded one
    obtain rfl := Forest.eq_of_mem_subtree_of_mem_children hc hc' hid hid'
    exact hne (Forest.branch?_eq_some_iff.mpr ⟨hc, hstart⟩).symm

theorem Built.searchesAside (hh : h.Built) (apex start : Nat) (kind : ObjectKind) (name : String) :
    h.SearchesAside apex start kind name
      (h.lateral apex (h.groups.branch? apex start) kind name) := by
  refine ⟨rfl, fun path hpath => ?_⟩
  obtain ⟨id, hbeside, hdefines, rfl⟩ := exists_of_mem_paths_lateral hpath
  exact ⟨id, hh.isAside_of_isBeside hbeside, hdefines, rfl⟩

/-! ## The upward walk -/

theorem ascent_eq (h : Hierarchy) (start : Nat) : h.ascent start =
    (h.groups.lineage start).map fun id => (id, h.groups.branch? id start) := by
  rw [ascent, ← Forest.branch?_self h.groups start]
  exact Forest.zip_lineage (Forest.mem_subtree_self h.groups start)

/-- A walk ends at a group: it defines the name, or it is an apex. -/
def Meets (h : Hierarchy) (rule : ReferenceRule) (kind : ObjectKind) (name : String)
    (id : Nat) : Prop :=
  h.defines id kind name = true ∨ rule.stopsAtApex = true ∧ h.defines id .dim name = true

instance (h : Hierarchy) (rule : ReferenceRule) (kind : ObjectKind) (name : String) :
    DecidablePred (h.Meets rule kind name) :=
  fun _ => inferInstanceAs (Decidable (_ ∨ _))

theorem lookAt?_eq_none_iff {place : Nat × Option Nat} :
    h.lookAt? rule kind name place = none ↔ ¬ h.Meets rule kind name place.1 := by
  unfold lookAt? Meets
  split
  · next hdefines => simp [hdefines]
  · next hnot =>
    split
    · next hapex => simp [hapex]
    · next hapex => simp [hnot, hapex]

/-- The walk looks no further than at the nearest group where it ends. -/
theorem findSome?_ascent_of_isNearest {id : Nat}
    (hid : h.groups.IsNearest start (h.Meets rule kind name) id) :
    (h.ascent start).findSome? (h.lookAt? rule kind name) =
      h.lookAt? rule kind name (id, h.groups.branch? id start) := by
  obtain ⟨-, before, after, hline, hbefore⟩ := List.find?_eq_some_iff_append.mp
    (Forest.find?_lineage_eq_some_iff.mpr hid)
  -- nothing in front of the nearest group answers the search
  have hnone : (before.map fun id => (id, h.groups.branch? id start)).findSome?
      (h.lookAt? rule kind name) = none := by
    refine List.findSome?_eq_none_iff.mpr fun place hplace => ?_
    obtain ⟨b, hb, rfl⟩ := List.mem_map.mp hplace
    exact lookAt?_eq_none_iff.mpr (by simpa using hbefore b hb)
  cases hlook : h.lookAt? rule kind name (id, h.groups.branch? id start) with
  | none => exact absurd hid.holds (lookAt?_eq_none_iff.mp hlook)
  | some result =>
    rw [ascent_eq, hline, List.map_append, List.findSome?_append, hnone, List.map_cons,
      List.findSome?_cons, hlook]
    rfl

/-- The group where the walk ends decides what the search finds. -/
theorem proximity_of_isNearest {id : Nat} {result : Lookup}
    (hid : h.groups.IsNearest v.group (h.Meets rule kind name) id)
    (hlook : h.lookAt? rule kind name (id, h.groups.branch? id v.group) = some result) :
    h.proximity rule v kind name = result := by
  rw [proximity, findSome?_ascent_of_isNearest hid, hlook]

theorem proximity_found {id : Nat}
    (hid : h.groups.IsNearest v.group (h.Meets rule kind name) id)
    (hdefines : h.defines id kind name = true) :
    h.proximity rule v kind name = .found (h.objectPath id name) :=
  proximity_of_isNearest hid (by rw [lookAt?, if_pos hdefines])

theorem proximity_apex {id : Nat}
    (hid : h.groups.IsNearest v.group (h.Meets rule kind name) id)
    (hnot : ¬ h.defines id kind name = true) :
    h.proximity rule v kind name = h.lateral id (h.groups.branch? id v.group) kind name := by
  have hapex := hid.holds.resolve_left hnot
  exact proximity_of_isNearest hid (by rw [lookAt?, if_neg hnot, if_pos hapex])

/-! ## The dimension apex -/

theorem dimensionApex?_eq (h : Hierarchy) (v : Variable) : h.dimensionApex? v =
    ((h.groups.lineage v.group).find? (h.Owns v)).map fun id =>
      (id, h.groups.branch? id v.group) := by
  rw [dimensionApex?, ascent_eq, List.find?_map]
  refine congrArg (Option.map _) (congrArg (fun p => List.find? p _) (funext fun id => ?_))
  rw [Bool.eq_iff_iff, decide_eq_true_iff]
  simp [Owns]

/-- A walk that ends nowhere leaves the search to the dimensions of the variable. -/
theorem proximity_of_forall_not
    (hnone : ∀ id, v.group ∈ h.groups.subtree id → ¬ h.Meets rule kind name id) :
    h.proximity rule v kind name =
      if rule.stopsAtApex = true then
        match (h.groups.lineage v.group).find? (h.Owns v) with
        | some apex => h.lateral apex (h.groups.branch? apex v.group) kind name
        | none => .missing
      else .missing := by
  -- the walk up to the root ends without an answer
  have hwalk : (h.ascent v.group).findSome? (h.lookAt? rule kind name) = none := by
    rw [ascent_eq]
    refine List.findSome?_eq_none_iff.mpr fun place hplace => ?_
    obtain ⟨id, hid, rfl⟩ := List.mem_map.mp hplace
    exact lookAt?_eq_none_iff.mpr (hnone id (Forest.mem_lineage_iff.mp hid))
  rw [proximity, hwalk, dimensionApex?_eq]
  cases (h.groups.lineage v.group).find? (h.Owns v) with
  | none => rfl
  | some apex => rfl

/-! ## Which group comes first -/

/-- The nearest group that defines the name is where the walk ends unless an apex is nearer. -/
theorem isNearest_meets_of_definition {n : Nat} (hn : h.IsNearestDefinition start kind name n)
    (hapex : rule.stopsAtApex = true →
      ∀ d, h.IsNearestDefinition start .dim name d → n ∈ h.groups.subtree d) :
    h.groups.IsNearest start (h.Meets rule kind name) n := by
  refine ⟨hn.around, Or.inl hn.holds, fun m hm hmeets => ?_⟩
  rcases hmeets with hdefines | ⟨hstops, hdim⟩
  · exact hn.inside m hm hdefines
  · obtain ⟨d, hd⟩ := Forest.exists_isNearest
      (P := fun id => h.defines id .dim name = true) hm hdim
    exact Forest.mem_subtree_trans (hapex hstops d hd) (hd.inside m hm hdim)

/-- An apex is where the walk ends if the name is defined only further up. -/
theorem isNearest_meets_of_apex {d : Nat} (hstops : rule.stopsAtApex = true)
    (hd : h.IsNearestDefinition start .dim name d)
    (habove : ∀ n, h.IsNearestDefinition start kind name n → d ∈ h.groups.subtree n) :
    h.groups.IsNearest start (h.Meets rule kind name) d := by
  refine ⟨hd.around, Or.inr ⟨hstops, hd.holds⟩, fun m hm hmeets => ?_⟩
  rcases hmeets with hdefines | ⟨-, hdim⟩
  · obtain ⟨n, hn⟩ := Forest.exists_isNearest
      (P := fun id => h.defines id kind name = true) hm hdefines
    exact Forest.mem_subtree_trans (habove n hn) (hn.inside m hm hdefines)
  · exact hd.inside m hm hdim

/-- Where a name is defined around a group, one definition is the nearest. -/
theorem not_defines_of_forall_not {m : Nat} (hm : start ∈ h.groups.subtree m)
    (hnone : ∀ n, ¬ h.IsNearestDefinition start kind name n) : h.defines m kind name = false := by
  refine Bool.eq_false_iff.mpr fun hdefines => ?_
  obtain ⟨n, hn⟩ := Forest.exists_isNearest
    (P := fun id => h.defines id kind name = true) hm hdefines
  exact hnone n hn

theorem IsNearestDefinition.not_defines {d : Nat} (hd : h.IsNearestDefinition start .dim name d)
    (habove : ∀ n, h.IsNearestDefinition start kind name n → n ≠ d ∧ d ∈ h.groups.subtree n) :
    ¬ h.defines d kind name = true := by
  intro hdefines
  obtain ⟨n, hn⟩ := Forest.exists_isNearest
    (P := fun id => h.defines id kind name = true) hd.around hdefines
  obtain ⟨hne, hmem⟩ := habove n hn
  exact hne (Forest.mem_subtree_antisymm (hn.inside d hd.around hdefines) hmem)

/-- Where nothing around has the name, the walk ends nowhere. -/
theorem forall_not_meets (hno : ∀ n, ¬ h.IsNearestDefinition start kind name n)
    (hnoApex : rule.stopsAtApex = true → ∀ d, ¬ h.IsNearestDefinition start .dim name d) :
    ∀ id, start ∈ h.groups.subtree id → ¬ h.Meets rule kind name id := by
  rintro id hid (hdefines | ⟨hstops, hdim⟩)
  · exact absurd hdefines (by simp [not_defines_of_forall_not hid hno])
  · exact absurd hdim (by simp [not_defines_of_forall_not hid (hnoApex hstops)])

/-! ## The search -/

/-- Under a rule that does not stop at an apex, the nearest definition is the answer, or there is
none. -/
theorem proximity_of_not_stopsAtApex (h : Hierarchy) (v : Variable) (kind : ObjectKind)
    (name : String) (hplain : rule.stopsAtApex = false) :
    (∀ n, h.IsNearestDefinition v.group kind name n →
      h.proximity rule v kind name = .found (h.objectPath n name)) ∧
    ((∀ n, ¬ h.IsNearestDefinition v.group kind name n) →
      h.proximity rule v kind name = .missing) := by
  have hnever : ¬ rule.stopsAtApex = true := by simp [hplain]
  constructor
  · intro n hn
    exact proximity_found (isNearest_meets_of_definition hn fun hstops => absurd hstops hnever)
      hn.holds
  · intro hno
    rw [proximity_of_forall_not (forall_not_meets hno fun hstops => absurd hstops hnever),
      if_neg hnever]

theorem lookup_eq_proximity (htoken : ObjectPath.IsName name) :
    h.lookup rule v kind name = h.proximity rule v kind name := by
  rw [lookup, if_neg]
  simpa [ObjectPath.isCompound] using htoken.2

/-- In a hierarchy that was put together as one tree, a bare name in an attribute of a variable is
searched for upwards from the group of the variable.

Under a rule that does not stop at an apex, the nearest group that defines the name is the answer,
the name is missing if there is none, and it is never ambiguous.

Under a rule that does, the same group is the answer if no group that has a dimension of the name is
nearer. If one is, all answers are from below it, outside the branch that leads to the variable. If
neither is met, all answers are from below the nearest group that owns a dimension of the variable,
again outside the branch, and the name is missing if there is no such group. -/
theorem proximity_decided_by_nearest (hh : h.Built) {i : Nat} (hv : v ∈ (h.group i).vars)
    (rule : ReferenceRule) (kind : ObjectKind) {token : String}
    (htoken : ObjectPath.IsName token) :
    (rule.stopsAtApex = false →
      (∀ n, h.IsNearestDefinition i kind token n →
        h.lookup rule v kind token = .found (h.objectPath n token)) ∧
      ((∀ n, ¬ h.IsNearestDefinition i kind token n) → h.lookup rule v kind token = .missing) ∧
      ∀ candidates, h.lookup rule v kind token ≠ .ambiguous candidates) ∧
    (rule.stopsAtApex = true →
      (∀ n, h.IsNearestDefinition i kind token n →
        (∀ d, h.IsNearestDefinition i .dim token d → n ∈ h.groups.subtree d) →
        h.lookup rule v kind token = .found (h.objectPath n token)) ∧
      (∀ d, h.IsNearestDefinition i .dim token d →
        (∀ n, h.IsNearestDefinition i kind token n → n ≠ d ∧ d ∈ h.groups.subtree n) →
        h.SearchesAside d i kind token (h.lookup rule v kind token)) ∧
      ((∀ n, ¬ h.IsNearestDefinition i kind token n) →
        (∀ d, ¬ h.IsNearestDefinition i .dim token d) →
        (∀ a, h.IsNearestOwner i v a →
          h.SearchesAside a i kind token (h.lookup rule v kind token)) ∧
        ((∀ a, ¬ h.IsNearestOwner i v a) → h.lookup rule v kind token = .missing))) := by
  obtain rfl := hh.group_eq hv
  rw [lookup_eq_proximity htoken]
  refine ⟨fun hplain => ?_, fun hstops => ⟨fun n hn hbelow => ?_, fun d hd habove => ?_,
    fun hno hnoApex => ?_⟩⟩
  · -- without an apex, the nearest definition is all there is to the search
    obtain ⟨hfound, hmissing⟩ := proximity_of_not_stopsAtApex h v kind token hplain
    refine ⟨hfound, hmissing, fun candidates => ?_⟩
    by_cases hsome : ∃ n, h.IsNearestDefinition v.group kind token n
    · obtain ⟨n, hn⟩ := hsome
      simp [hfound n hn]
    · simp [hmissing (not_exists.mp hsome)]
  · -- the walk meets the definition no later than an apex
    exact proximity_found (isNearest_meets_of_definition hn fun _ => hbelow) hn.holds
  · -- the walk meets an apex before any definition
    have hmeets := isNearest_meets_of_apex hstops hd fun n hn => (habove n hn).2
    rw [proximity_apex hmeets (hd.not_defines habove)]
    exact hh.searchesAside d v.group kind token
  · -- the walk meets neither, and the dimensions of the variable decide
    rw [proximity_of_forall_not (forall_not_meets hno fun _ => hnoApex), if_pos hstops]
    constructor
    · intro a ha
      rw [Forest.find?_lineage_eq_some_iff.mpr ha]
      exact hh.searchesAside a v.group kind token
    · intro hnoOwner
      have hnone : (h.groups.lineage v.group).find? (h.Owns v) = none :=
        Option.eq_none_iff_forall_ne_some.mpr fun a ha =>
          hnoOwner a (Forest.isNearest_of_find?_lineage ha)
      rw [hnone]

/-- Below `/P`, which has a dimension `x`, there are the group `/P/B` with a variable `v` and two
groups that define a variable `x`, one deeper than the other. There is a further `x` at the root. -/
def apexTree : Hierarchy :=
  let root := (empty.addGroup none (Group.atPath "/")).changeGroup 0 (·.addDimension "x")
  let top := (root.changeGroup 0 (·.addVariable 0 "x" ["/x"] none)).addGroup (some 0)
    (Group.atPath "/P")
  let branch := ((top.changeGroup 1 (·.addDimension "x")).addGroup (some 1)
    (Group.atPath "/P/B")).changeGroup 2 (·.addVariable 2 "v" ["/P/x"] (some "x"))
  let beside := (branch.addGroup (some 1) (Group.atPath "/P/S")).changeGroup 3
    (·.addVariable 3 "x" ["/P/x"] none)
  ((beside.addGroup (some 1) (Group.atPath "/P/T")).addGroup (some 4)
    (Group.atPath "/P/T/deep")).changeGroup 5 (·.addVariable 5 "x" [] none)

theorem built_apexTree : apexTree.Built := by
  unfold apexTree
  -- one constructor for everything that was added, and the numbers by their order
  repeat' constructor

/-- From `v` the name `x` is first met as a dimension of `/P`. A rule that stops there finds the `x`
of the nearer group beside `/P/B`, and any other rule finds the `x` at the root. -/
theorem proximity_decided_by_nearest_in_apexTree :
    ∃ v ∈ (apexTree.group 2).vars, apexTree.Built ∧ ObjectPath.IsName "x" ∧
      apexTree.IsNearestDefinition 2 .dim "x" 1 ∧ apexTree.IsNearestDefinition 2 .var "x" 0 ∧
      apexTree.lookup (ReferenceRule.variableKeys "ancillary_variables") v .var "x" =
        .found "/x" ∧
      apexTree.SearchesAside 1 2 .var "x" (apexTree.lookup .coordinates v .var "x") ∧
      apexTree.lateral 1 (some 2) .var "x" = .found "/P/S/x" := by
  have hx : ObjectPath.IsName "x" := by decide
  have hd : apexTree.IsNearestDefinition 2 .dim "x" 1 :=
    Forest.isNearest_of_find?_lineage (by decide +kernel)
  have hn : apexTree.IsNearestDefinition 2 .var "x" 0 :=
    Forest.isNearest_of_find?_lineage (by decide +kernel)
  have hv : ⟨"v", "/P/B/v", 2, ["/P/x"], some "x"⟩ ∈ (apexTree.group 2).vars := by decide +kernel
  refine ⟨_, hv, built_apexTree, hx, hd, hn, ?_, ?_, by decide +kernel⟩
  · exact ((proximity_decided_by_nearest built_apexTree hv
      (ReferenceRule.variableKeys "ancillary_variables") .var hx).1 rfl).1 0 hn
  · refine ((proximity_decided_by_nearest built_apexTree hv .coordinates .var hx).2 rfl).2.1
      1 hd fun n hn' => ?_
    obtain rfl := hn'.unique hn
    decide +kernel

end GroupFlattening.Hierarchy
