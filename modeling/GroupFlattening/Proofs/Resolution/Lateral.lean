import GroupFlattening.Proofs.Forest.Topmost
import GroupFlattening.Resolution.Lateral

/-!
# What a Lateral Search Finds

All groups below an apex that define a name, outside the excluded branch, are listed by
`definitionsBeside` in the order of the tree, and those of them that are least deep by
`nearestDefinitions`. A lateral search finds exactly the latter (`nearest_lateralMatches`), although
it never goes below a group that defines the name. So it finds nothing, one object or several
objects just as there are no such groups, one or several (`lateral_finds_nearest`).
-/

namespace GroupFlattening

/-- The paths of the objects that a search comes back with. -/
def Lookup.paths : Lookup → List String
  | .found path => [path]
  | .missing => []
  | .ambiguous paths => paths

@[simp] theorem Lookup.paths_ofNearest (paths : List String) : (ofNearest paths).paths = paths := by
  match paths with
  | [] => rfl
  | [_] => rfl
  | _ :: _ :: _ => rfl

theorem Lookup.ofNearest_eq_missing_iff {paths : List String} :
    ofNearest paths = .missing ↔ paths = [] := by
  match paths with
  | [] => simp [ofNearest]
  | [_] => simp [ofNearest]
  | _ :: _ :: _ => simp [ofNearest]

theorem Lookup.ofNearest_eq_found_iff {paths : List String} {path : String} :
    ofNearest paths = .found path ↔ paths = [path] := by
  match paths with
  | [] => simp [ofNearest]
  | [_] => simp [ofNearest]
  | _ :: _ :: _ => simp [ofNearest]

theorem Lookup.ofNearest_eq_ambiguous_iff {paths candidates : List String} :
    ofNearest paths = .ambiguous candidates ↔ 2 ≤ paths.length ∧ candidates = paths := by
  match paths with
  | [] => simp [ofNearest]
  | [_] => simp [ofNearest]
  | _ :: _ :: _ => simp [ofNearest, eq_comm]

namespace Hierarchy

variable {h : Hierarchy} {apex : Nat} {excluded : Option Nat} {kind : ObjectKind} {name : String}

/-! ## Groups beside a branch -/

/-- A group is in a branch below an apex, and the branch is not the excluded one. -/
def IsBeside (h : Hierarchy) (apex : Nat) (excluded : Option Nat) (id : Nat) : Prop :=
  ∃ c ∈ h.groups.children apex, some c ≠ excluded ∧ id ∈ h.groups.subtree c

instance (h : Hierarchy) (apex : Nat) (excluded : Option Nat) (id : Nat) :
    Decidable (h.IsBeside apex excluded id) :=
  inferInstanceAs (Decidable (∃ c ∈ h.groups.children apex, _))

/-- The depth of a group below an apex. -/
def depthBelow (h : Hierarchy) (apex id : Nat) : Nat := h.groups.depth id - h.groups.depth apex

/-- All groups below an apex, the excluded branch left out, that define a name, in the order of the
tree. -/
def definitionsBeside (h : Hierarchy) (apex : Nat) (excluded : Option Nat) (kind : ObjectKind)
    (name : String) : List Nat :=
  (h.groups.subtree apex).filter fun id =>
    decide (h.IsBeside apex excluded id) && h.defines id kind name

/-- Those of these groups that are least deep. -/
def nearestDefinitions (h : Hierarchy) (apex : Nat) (excluded : Option Nat) (kind : ObjectKind)
    (name : String) : List Nat :=
  let definitions := h.definitionsBeside apex excluded kind name
  definitions.filter fun id => ∀ id' ∈ definitions, h.depthBelow apex id ≤ h.depthBelow apex id'

theorem IsBeside.mem_subtree {id : Nat} (hbeside : h.IsBeside apex excluded id) :
    id ∈ h.groups.subtree apex := by
  obtain ⟨c, hc, -, hid⟩ := hbeside
  exact Forest.mem_subtree_of_mem_children hc hid

theorem mem_definitionsBeside {id : Nat} :
    id ∈ h.definitionsBeside apex excluded kind name ↔
      h.IsBeside apex excluded id ∧ h.defines id kind name = true := by
  rw [definitionsBeside, List.mem_filter, Bool.and_eq_true, decide_eq_true_eq]
  exact ⟨And.right, fun hid => ⟨hid.1.mem_subtree, hid⟩⟩

theorem mem_nearestDefinitions {id : Nat}
    (hid : id ∈ h.nearestDefinitions apex excluded kind name) :
    h.IsBeside apex excluded id ∧ h.defines id kind name = true :=
  mem_definitionsBeside.mp (List.mem_of_mem_filter hid)

/-- Branch by branch, the groups that define the name. -/
theorem definitionsBeside_eq (h : Hierarchy) (apex : Nat) (excluded : Option Nat)
    (kind : ObjectKind) (name : String) : h.definitionsBeside apex excluded kind name =
      ((h.groups.children apex).filter fun c => some c != excluded).flatMap fun c =>
        (h.groups.subtree c).filter fun id => h.defines id kind name := by
  -- the apex is not beside itself
  have happex : ¬ h.IsBeside apex excluded apex := by
    rintro ⟨c, hc, -, hmem⟩
    exact Forest.not_mem_subtree_of_mem_children hc hmem
  rw [definitionsBeside, Forest.subtree_eq, List.filter_cons_of_neg (by simp [happex]),
    List.filter_flatMap]
  -- one child of the apex after the other
  have hbranch : ∀ c ∈ h.groups.children apex,
      (h.groups.subtree c).filter (fun id =>
        decide (h.IsBeside apex excluded id) && h.defines id kind name) =
      if some c != excluded then (h.groups.subtree c).filter fun id => h.defines id kind name
      else [] := by
    intro c hc
    have hiff : ∀ id ∈ h.groups.subtree c, h.IsBeside apex excluded id ↔ some c ≠ excluded := by
      intro id hid
      constructor
      · rintro ⟨c', hc', hne, hid'⟩
        rwa [Forest.eq_of_mem_subtree_of_mem_children hc hc' hid hid']
      -- and otherwise it lies beside, in this branch
      · exact fun hne => ⟨c, hc, hne, hid⟩
    by_cases hne : some c = excluded
    · rw [if_neg (by simp [hne]), List.filter_eq_nil_iff]
      intro id hid
      simp [(hiff id hid), hne]
    · rw [if_pos (by simp [hne])]
      refine List.filter_congr fun id hid => ?_
      simp [(hiff id hid), hne]
  rw [List.flatMap_congr hbranch]
  induction h.groups.children apex with
  | nil => rfl
  | cons c rest ih =>
    rw [List.flatMap_cons, ih, List.filter_cons]
    split <;> simp

/-! ## The nearest of several groups -/

/-- To be no higher than anything else is to be at the least height. -/
theorem filter_forall_le {α : Type} (height : α → Nat) {xs : List α} {lowest : α}
    (hmem : lowest ∈ xs) (hle : ∀ x ∈ xs, height lowest ≤ height x) :
    (xs.filter fun x => ∀ y ∈ xs, height x ≤ height y) =
      xs.filter fun x => height x == height lowest := by
  refine List.filter_congr fun x hx => ?_
  rw [Bool.eq_iff_iff, beq_iff_eq, decide_eq_true_eq]
  constructor
  · exact fun hall => Nat.le_antisymm (hall lowest hmem) (hle x hx)
  · exact fun heq y hy => heq ▸ hle y hy

/-- What is nearest is no deeper than anything else. -/
theorem nearest_eq (candidates : List (Nat × Nat)) : nearest candidates =
    (candidates.filter fun entry => ∀ other ∈ candidates, entry.1 ≤ other.1).map (·.2) := by
  rw [nearest]
  cases hleast : (candidates.map (·.1)).min? with
  -- no candidate
  | none =>
    rw [List.min?_eq_none_iff, List.map_eq_nil_iff] at hleast
    rw [hleast]
    rfl
  | some least =>
    obtain ⟨hmem, hle⟩ := List.min?_eq_some_iff.mp hleast
    obtain ⟨first, hfirst, rfl⟩ := List.mem_map.mp hmem
    rw [filter_forall_le (·.1) hfirst fun entry hentry => hle _ (List.mem_map_of_mem hentry)]

theorem nearest_eq_nil_iff {candidates : List (Nat × Nat)} :
    nearest candidates = [] ↔ candidates = [] := by
  rw [nearest]
  cases hleast : (candidates.map (·.1)).min? with
  | none =>
    rw [List.min?_eq_none_iff, List.map_eq_nil_iff] at hleast
    simp [hleast]
  | some least =>
    -- one of the candidates has the least depth
    obtain ⟨first, hfirst, rfl⟩ := List.mem_map.mp (List.min?_eq_some_iff.mp hleast).1
    simp only [List.map_eq_nil_iff, List.filter_eq_nil_iff, beq_iff_eq]
    constructor
    · intro hnone
      exact absurd rfl (hnone first hfirst)
    · rintro rfl
      cases hfirst

/-- To pick the least deep of all definitions is what a search without stops would come to. -/
theorem nearest_definitionsBeside (h : Hierarchy) (apex : Nat) (excluded : Option Nat)
    (kind : ObjectKind) (name : String) :
    nearest ((h.definitionsBeside apex excluded kind name).map fun id =>
      (h.depthBelow apex id, id)) = h.nearestDefinitions apex excluded kind name := by
  rw [nearest_eq, List.filter_map, List.map_map, nearestDefinitions]
  simp [Function.comp_def]

/-! ## The search -/

theorem mem_lateralMatches {entry : Nat × Nat}
    (hentry : entry ∈ h.lateralMatches apex excluded kind name) :
    entry.2 ∈ h.definitionsBeside apex excluded kind name ∧
      entry.1 = h.depthBelow apex entry.2 := by
  obtain ⟨c, hc, hmem⟩ := List.mem_flatMap.mp hentry
  obtain ⟨hc, hne⟩ := List.mem_filter.mp hc
  obtain ⟨hsubtree, hdefines, hdepth⟩ := Forest.mem_topmost hmem
  rw [Forest.depth_of_mem_children hc] at hdepth
  refine ⟨mem_definitionsBeside.mpr ⟨⟨c, hc, by simpa using hne, hsubtree⟩, hdefines⟩, ?_⟩
  rw [depthBelow]
  omega

/-- No definition is less deep than all that the search finds. -/
theorem exists_mem_lateralMatches {id : Nat}
    (hid : id ∈ h.definitionsBeside apex excluded kind name) :
    ∃ entry ∈ h.lateralMatches apex excluded kind name, entry.1 ≤ h.depthBelow apex id := by
  obtain ⟨⟨c, hc, hne, hsubtree⟩, hdefines⟩ := mem_definitionsBeside.mp hid
  obtain ⟨entry, hentry, hbelow⟩ := Forest.exists_mem_topmost
    (fun id => h.defines id kind name) 1 hsubtree hdefines
  have hmatch : entry ∈ h.lateralMatches apex excluded kind name :=
    List.mem_flatMap.mpr ⟨c, List.mem_filter.mpr ⟨hc, by simpa using hne⟩, hentry⟩
  refine ⟨entry, hmatch, ?_⟩
  rw [(mem_lateralMatches hmatch).2]
  exact Nat.sub_le_sub_right (Forest.depth_le_of_mem_subtree hbelow) _

/-- At the least depth of a definition the search finds all definitions. -/
theorem filter_lateralMatches {least : Nat}
    (hleast : ∀ id ∈ h.definitionsBeside apex excluded kind name, least ≤ h.depthBelow apex id) :
    ((h.lateralMatches apex excluded kind name).filter fun entry => entry.1 == least).map (·.2) =
      (h.definitionsBeside apex excluded kind name).filter fun id =>
        h.depthBelow apex id == least := by
  rw [lateralMatches, definitionsBeside_eq, List.filter_flatMap, List.map_flatMap,
    List.filter_flatMap]
  refine List.flatMap_congr fun c hc => ?_
  obtain ⟨hc, hne⟩ := List.mem_filter.mp hc
  -- the depths below the apex as depths in the forest
  have hdepth : ∀ id ∈ h.groups.subtree c, h.defines id kind name = true →
      least + h.groups.depth apex ≤ h.groups.depth id := by
    intro id hid hdefines
    have hle := hleast id (mem_definitionsBeside.mpr ⟨⟨c, hc, by simpa using hne, hid⟩, hdefines⟩)
    have hlt := Forest.depth_lt_of_mem_subtree hc hid
    rw [depthBelow] at hle
    omega
  have hbranch := Forest.filter_topmost (fun id => h.defines id kind name) 1 hdepth
  rw [Forest.depth_of_mem_children hc] at hbranch
  rw [List.filter_filter]
  calc _ = _ := congrArg (List.map Prod.snd) (List.filter_congr fun entry _ => ?_)
    _ = _ := hbranch
    _ = _ := List.filter_congr fun id hid => ?_
  · rw [Bool.eq_iff_iff, beq_iff_eq, beq_iff_eq]
    omega
  · have hlt := Forest.depth_lt_of_mem_subtree hc hid
    rw [Bool.and_comm, depthBelow]
    congr 1
    rw [Bool.eq_iff_iff, beq_iff_eq, beq_iff_eq]
    omega

/-- The search finds the definitions that are least deep. -/
theorem nearest_lateralMatches (h : Hierarchy) (apex : Nat) (excluded : Option Nat)
    (kind : ObjectKind) (name : String) :
    nearest (h.lateralMatches apex excluded kind name) =
      h.nearestDefinitions apex excluded kind name := by
  rw [nearest_eq, nearestDefinitions]
  cases hmin : ((h.definitionsBeside apex excluded kind name).map (h.depthBelow apex)).min? with
  | none =>
    rw [List.min?_eq_none_iff, List.map_eq_nil_iff] at hmin
    -- where nothing is defined the search finds nothing
    have hnone : h.lateralMatches apex excluded kind name = [] := by
      refine List.eq_nil_iff_forall_not_mem.mpr fun entry hentry => ?_
      have hmem := (mem_lateralMatches hentry).1
      rw [hmin] at hmem
      cases hmem
    rw [hmin, hnone]
    rfl
  | some least =>
    obtain ⟨hmem, hle⟩ := List.min?_eq_some_iff.mp hmin
    obtain ⟨first, hfirst, rfl⟩ := List.mem_map.mp hmem
    have hleast : ∀ id ∈ h.definitionsBeside apex excluded kind name,
        h.depthBelow apex first ≤ h.depthBelow apex id :=
      fun id hid => hle _ (List.mem_map_of_mem hid)
    have hfound : ∀ entry ∈ h.lateralMatches apex excluded kind name,
        h.depthBelow apex first ≤ entry.1 := by
      intro entry hentry
      obtain ⟨hdefined, hdepth⟩ := mem_lateralMatches hentry
      exact hdepth ▸ hleast _ hdefined
    -- the search does find something at the least depth
    obtain ⟨best, hbest, hnear⟩ := exists_mem_lateralMatches hfirst
    have hdepth : best.1 = h.depthBelow apex first := Nat.le_antisymm hnear (hfound best hbest)
    rw [filter_forall_le (·.1) hbest fun entry hentry => hdepth ▸ hfound entry hentry,
      filter_forall_le (h.depthBelow apex) hfirst hleast, hdepth, filter_lateralMatches hleast]

theorem lateral_eq (h : Hierarchy) (apex : Nat) (excluded : Option Nat) (kind : ObjectKind)
    (name : String) : h.lateral apex excluded kind name = Lookup.ofNearest
      ((h.nearestDefinitions apex excluded kind name).map fun id => h.objectPath id name) := by
  rw [lateral, nearest_lateralMatches]

/-- The objects that a lateral search comes back with are those of groups beside the branch that
define the name. -/
theorem exists_of_mem_paths_lateral {path : String}
    (hpath : path ∈ (h.lateral apex excluded kind name).paths) :
    ∃ id, h.IsBeside apex excluded id ∧ h.defines id kind name = true ∧
      path = h.objectPath id name := by
  rw [lateral_eq, Lookup.paths_ofNearest] at hpath
  obtain ⟨id, hid, rfl⟩ := List.mem_map.mp hpath
  obtain ⟨hbeside, hdefines⟩ := mem_nearestDefinitions hid
  exact ⟨id, hbeside, hdefines, rfl⟩

theorem nearestDefinitions_eq_nil_iff : h.nearestDefinitions apex excluded kind name = [] ↔
    h.definitionsBeside apex excluded kind name = [] := by
  rw [← nearest_definitionsBeside, nearest_eq_nil_iff, List.map_eq_nil_iff]

/-- A lateral search finds nothing just if no group beside the excluded branch defines the name. It
finds the object of the only group that is least deep among those that do, and if there are several
of these, all of their objects in the order of the tree. A search that goes on below the groups that
define the name finds the same. -/
theorem lateral_finds_nearest (h : Hierarchy) (apex : Nat) (excluded : Option Nat)
    (kind : ObjectKind) (name : String) :
    (h.lateral apex excluded kind name = .missing ↔
      h.definitionsBeside apex excluded kind name = []) ∧
    (∀ path, h.lateral apex excluded kind name = .found path ↔
      ∃ id, h.nearestDefinitions apex excluded kind name = [id] ∧ path = h.objectPath id name) ∧
    (∀ paths, h.lateral apex excluded kind name = .ambiguous paths ↔
      2 ≤ (h.nearestDefinitions apex excluded kind name).length ∧
      paths = (h.nearestDefinitions apex excluded kind name).map fun id => h.objectPath id name) ∧
    h.lateral apex excluded kind name = Lookup.ofNearest
      ((nearest ((h.definitionsBeside apex excluded kind name).map fun id =>
        (h.depthBelow apex id, id))).map fun id => h.objectPath id name) := by
  refine ⟨?_, fun path => ?_, fun paths => ?_, ?_⟩
  -- each answer of the search says how many definitions are nearest
  · rw [lateral_eq, Lookup.ofNearest_eq_missing_iff, List.map_eq_nil_iff,
      nearestDefinitions_eq_nil_iff]
  · rw [lateral_eq, Lookup.ofNearest_eq_found_iff, List.map_eq_singleton_iff]
    simp only [eq_comm]
  · rw [lateral_eq, Lookup.ofNearest_eq_ambiguous_iff, List.length_map]
  · rw [nearest_definitionsBeside, lateral_eq]

end Hierarchy

end GroupFlattening
