import GroupFlattening.Dataset.Write
import GroupFlattening.Proofs.Forest
import GroupFlattening.Proofs.ObjectPath
import GroupFlattening.Proofs.Run

/-!
# Well-Formed Datasets

The facts about a dataset in memory that its operations keep: its groups form one tree, every path
is made of the names from the root down, no two objects of one kind and place share a name, and
every dimension that a variable names can be found.

What they are good for is that paths and objects determine each other. Where names are non-empty
and free of separators, the path of a group leads to that group (`groupId_path`), and the path
joined from it and the name of a dimension or a variable leads to that object.
-/

namespace GroupFlattening.Dataset

open ObjectPath (IsName join split separator)

/-! ## Looking up by number -/

@[simp] theorem size_changeGroup (d : Dataset) (id : Nat) (change : Group → Group) :
    (d.changeGroup id change).groups.size = d.groups.size := Forest.size_modify ..

@[simp] theorem parent?_changeGroup (d : Dataset) (id : Nat) (change : Group → Group) (i : Nat) :
    (d.changeGroup id change).groups.parent? i = d.groups.parent? i := Forest.parent?_modify ..

@[simp] theorem children_changeGroup (d : Dataset) (id : Nat) (change : Group → Group) (i : Nat) :
    (d.changeGroup id change).groups.children i = d.groups.children i :=
  Forest.children_modify ..

theorem group_changeGroup_self (d : Dataset) {id : Nat} (h : id < d.groups.size)
    (change : Group → Group) : (d.changeGroup id change).group id = change (d.group id) := by
  obtain ⟨g, hg⟩ := Forest.exists_label? h
  simp [group, changeGroup, Forest.label?_modify, hg]

theorem group_changeGroup_ne (d : Dataset) {id i : Nat} (h : i ≠ id) (change : Group → Group) :
    (d.changeGroup id change).group i = d.group i := by
  simp [group, changeGroup, Forest.label?_modify, Ne.symm h]

/-- A group of a changed dataset is the one it was, or the changed one. -/
theorem group_changeGroup_cases (d : Dataset) (id i : Nat) (change : Group → Group) :
    (d.changeGroup id change).group i = d.group i ∨
      i = id ∧ (d.changeGroup id change).group i = change (d.group id) := by
  by_cases hi : i = id
  · by_cases hlt : id < d.groups.size
    · exact Or.inr ⟨hi, hi ▸ group_changeGroup_self d hlt change⟩
    · left
      have hnone : d.groups.label? i = none := Forest.label?_eq_none_iff.mpr (by omega)
      simp [group, changeGroup, Forest.label?_modify, hnone]
  · exact Or.inl (group_changeGroup_ne d hi change)

/-! ## Looking up by path -/

/-- A child that is found by a name is one of the children and has the name. -/
theorem child?_eq_some {d : Dataset} {id c : Nat} {name : String}
    (h : d.child? id name = some c) : c ∈ d.groups.children id ∧ (d.group c).name = name := by
  have hmem := List.mem_of_find?_eq_some h
  have hname := List.find?_some h
  refine ⟨hmem, ?_⟩
  cases hlabel : d.groups.label? c with
  | none => simp [hlabel] at hname
  | some g => simpa [group, hlabel] using hname

/-- By the name of a child some child is found. -/
theorem exists_child? {d : Dataset} {id c : Nat} (hc : c ∈ d.groups.children id) :
    ∃ c', d.child? id (d.group c).name = some c' := by
  cases hfind : d.child? id (d.group c).name with
  | some c' => exact ⟨c', rfl⟩
  | none =>
    obtain ⟨g, hg⟩ := Forest.exists_label? (Forest.lt_size_of_mem_children hc)
    have hno := List.find?_eq_none.mp hfind c hc
    simp [group, hg] at hno

/-- A way along two lists of names is a way along the first one and then the second one. -/
theorem descend?_append (d : Dataset) (id : Nat) (first second : List String) :
    d.descend? id (first ++ second) = (d.descend? id first).bind (d.descend? · second) := by
  simp [descend?, List.foldlM_append]

/-- A path leads to the group to which its names lead down from the root. -/
theorem groupId_eq_ok_iff {d : Dataset} {path : String} {id : Nat} :
    d.groupId path = .ok id ↔ d.descend? rootId (ObjectPath.components path) = some id := by
  rw [groupId]
  cases d.descend? rootId (ObjectPath.components path) with
  | none => simp
  | some i => simp

theorem groupId_of_isRoot (d : Dataset) {path : String} (h : ObjectPath.isRoot path = true) :
    d.groupId path = .ok rootId := by
  rw [groupId_eq_ok_iff, ObjectPath.components_of_isRoot h]
  rfl

@[simp] theorem groupId_root (d : Dataset) : d.groupId ObjectPath.root = .ok rootId :=
  groupId_of_isRoot d rfl

/-- A dimension is found in the group that its path leads to, by its name there. -/
theorem dimension_eq_ok_iff {d : Dataset} {path : String} {dim : Dimension} :
    d.dimension path = .ok dim ↔ ∃ id, d.groupId (split path).1 = .ok id ∧
      (d.group id).dimensions.find? (fun x => x.name == (split path).2) = some dim := by
  simp only [dimension, Except.bind_eq_ok_iff]
  refine exists_congr fun id => and_congr_right fun _ => ?_
  cases (d.group id).dimensions.find? fun x => x.name == (split path).2 with
  | none => simp
  | some x => simp

/-- A variable is found in the group that its path leads to, by its name there. -/
theorem findVariable_eq_ok_iff {d : Dataset} {path : String} {id : Nat} {v : Variable} :
    d.findVariable path = .ok (id, v) ↔ d.groupId (split path).1 = .ok id ∧
      (d.group id).vars.find? (fun x => x.name == (split path).2) = some v := by
  simp only [findVariable, Except.bind_eq_ok_iff]
  constructor
  · rintro ⟨i, hi, hfind⟩
    cases hv : (d.group i).vars.find? fun x => x.name == (split path).2 with
    | none => simp [hv] at hfind
    | some x =>
      simp only [hv, Except.ok.injEq, Prod.mk.injEq] at hfind
      obtain ⟨rfl, rfl⟩ := hfind
      exact ⟨hi, hv⟩
  · rintro ⟨hi, hfind⟩
    exact ⟨id, hi, by rw [hfind]⟩

/-- A variable that is found is one of its group. -/
theorem mem_vars_of_findVariable {d : Dataset} {path : String} {id : Nat} {v : Variable}
    (h : d.findVariable path = .ok (id, v)) : v ∈ (d.group id).vars :=
  List.mem_of_find?_eq_some (findVariable_eq_ok_iff.mp h).2

theorem variableAttributes_eq {d : Dataset} {path : String} {id : Nat} {v : Variable}
    (h : d.findVariable path = .ok (id, v)) : d.variableAttributes path = .ok v.attributes := by
  rw [variableAttributes, h]
  rfl

/-- A dimension can be found where its group can be and has a dimension of its name. -/
theorem exists_dimension_iff {d : Dataset} {path : String} :
    (∃ dim, d.dimension path = .ok dim) ↔ ∃ id, d.groupId (split path).1 = .ok id ∧
      (split path).2 ∈ (d.group id).dimensions.map (·.name) := by
  simp only [dimension_eq_ok_iff]
  rw [exists_comm]
  refine exists_congr fun id => ?_
  rw [exists_and_left]
  refine and_congr_right fun _ => ?_
  rw [← Option.isSome_iff_exists, List.find?_isSome]
  simp

/-- Where names are unique, an item is found by its name. -/
theorem find?_eq_some_of_nodup {α : Type} {name : α → String} {xs : List α} {x : α}
    (hnodup : (xs.map name).Nodup) (hx : x ∈ xs) :
    xs.find? (fun y => name y == name x) = some x := by
  induction xs with
  | nil => exact absurd hx (by simp)
  | cons y rest ih =>
    rw [List.map_cons, List.nodup_cons] at hnodup
    rcases List.mem_cons.mp hx with rfl | hx
    · simp
    · have hne : name y ≠ name x := fun h => hnodup.1 (h ▸ List.mem_map_of_mem hx)
      rw [List.find?_cons_of_neg (by simpa using hne)]
      exact ih hnodup.2 hx

/-! ## Changing the first accepted item -/

/-- An item of the changed list is an old one or a changed one. -/
theorem mem_changeFirst {α : Type} {accepts : α → Bool} {change : α → α} {xs : List α} {x : α}
    (h : x ∈ changeFirst accepts change xs) : x ∈ xs ∨ ∃ y ∈ xs, x = change y := by
  induction xs with
  | nil => simp [changeFirst] at h
  | cons y rest ih =>
    rw [changeFirst] at h
    split at h
    · rcases List.mem_cons.mp h with rfl | h
      · exact Or.inr ⟨y, List.mem_cons_self, rfl⟩
      · exact Or.inl (List.mem_cons_of_mem _ h)
    · rcases List.mem_cons.mp h with rfl | h
      · exact Or.inl List.mem_cons_self
      · rcases ih h with h | ⟨z, hz, rfl⟩
        · exact Or.inl (List.mem_cons_of_mem _ h)
        · exact Or.inr ⟨z, List.mem_cons_of_mem _ hz, rfl⟩

/-- Where names are distinct, at most one item has the name that is looked for. -/
theorem changeFirst_eq_map {α : Type} {name : α → String} {xs : List α}
    (hnodup : (xs.map name).Nodup) (n : String) (change : α → α) :
    changeFirst (fun x => name x == n) change xs =
      xs.map fun x => if name x == n then change x else x := by
  induction xs with
  | nil => rfl
  | cons x rest ih =>
    rw [List.map_cons, List.nodup_cons] at hnodup
    rw [changeFirst, List.map_cons]
    split
    · next hx =>
      -- no later item has the name, so they all stay as they are
      have hrest : rest.map (fun y => if name y == n then change y else y) = rest := by
        refine (List.map_congr_left fun y hy => ?_).trans (List.map_id rest)
        have hne : name y ≠ n := fun h =>
          hnodup.1 ((beq_iff_eq.mp hx).trans h.symm ▸ List.mem_map_of_mem hy)
        simp [hne]
      rw [hrest]
    · rw [ih hnodup.2]

/-- Items of other names stay as they are. -/
theorem changeFirst_append {α : Type} {name : α → String} {xs : List α} {n : String}
    (hnew : n ∉ xs.map name) (change : α → α) (ys : List α) :
    changeFirst (fun y => name y == n) change (xs ++ ys) =
      xs ++ changeFirst (fun y => name y == n) change ys := by
  induction xs with
  | nil => rfl
  | cons y rest ih =>
    rw [List.map_cons, List.mem_cons, not_or] at hnew
    rw [List.cons_append, changeFirst, if_neg (by simpa using Ne.symm hnew.1), ih hnew.2,
      List.cons_append]

/-- An item of a new name at the end is the one that is changed. -/
theorem changeFirst_append_singleton {α : Type} {name : α → String} {xs : List α} {x : α}
    {n : String} (hnew : n ∉ xs.map name) (hx : name x = n) (change : α → α) :
    changeFirst (fun y => name y == n) change (xs ++ [x]) = xs ++ [change x] := by
  rw [changeFirst_append hnew, changeFirst, if_pos (beq_iff_eq.mpr hx)]

theorem find?_append_singleton {α : Type} {name : α → String} {xs : List α} {x : α}
    {n : String} (hnew : n ∉ xs.map name) (hx : name x = n) :
    (xs ++ [x]).find? (fun y => name y == n) = some x := by
  have hnone : xs.find? (fun y => name y == n) = none := by
    rw [List.find?_eq_none]
    intro y hy heq
    exact hnew (beq_iff_eq.mp heq ▸ List.mem_map_of_mem hy)
  rw [List.find?_append, hnone]
  simp [hx]

/-- A change that keeps names keeps the list of names. -/
theorem map_changeFirst {α β : Type} {name : α → β} {change : α → α}
    (hname : ∀ x, name (change x) = name x) (accepts : α → Bool) (xs : List α) :
    (changeFirst accepts change xs).map name = xs.map name := by
  induction xs with
  | nil => rfl
  | cons x rest ih =>
    rw [changeFirst]
    split
    · simp [hname]
    · simp [ih]

/-! ## Well-formedness -/

/-- The names in a group without what lies below it: no kind of object has one twice. -/
structure Group.WellFormed (g : Group) : Prop where
  attributes : (g.attributes.map (·.1)).Nodup
  dimensions : (g.dimensions.map (·.name)).Nodup
  vars : (g.vars.map (·.name)).Nodup
  variableAttributes : ∀ v ∈ g.vars, (v.attributes.map (·.1)).Nodup

/-- The facts about a dataset that every operation keeps. -/
structure WellFormed (d : Dataset) : Prop where
  /-- There is a root. -/
  root_lt : rootId < d.groups.size
  /-- The root is the only group without a parent. -/
  parent?_root : d.groups.parent? rootId = none
  rooted : ∀ id, id < d.groups.size → id ≠ rootId → ∃ p, d.groups.parent? id = some p
  /-- Paths are made of the names from the root down. -/
  path_root : (d.group rootId).path = ObjectPath.root
  path_eq : ∀ id p, d.groups.parent? id = some p →
    (d.group id).path = join (d.group p).path (d.group id).name
  /-- Groups inside one group have different names. -/
  siblings : ∀ id c c', c ∈ d.groups.children id → c' ∈ d.groups.children id →
    (d.group c).name = (d.group c').name → c = c'
  groups : ∀ id, (d.group id).WellFormed
  /-- The dimensions of every variable exist. -/
  resolved : ∀ id, ∀ v ∈ (d.group id).vars, ∀ path ∈ v.dimensions,
    ∃ dim, d.dimension path = .ok dim

/-- Whether all groups but the root have names that paths can hold. -/
def HasProperGroupNames (d : Dataset) : Prop :=
  ∀ id < d.groups.size, id ≠ rootId → IsName (d.group id).name

instance (d : Dataset) : Decidable d.HasProperGroupNames :=
  inferInstanceAs (Decidable (∀ id < d.groups.size, id ≠ rootId → IsName (d.group id).name))

/-- Whether all groups but the root, all dimensions and all variables have names that paths can
hold. -/
structure HasProperNames (d : Dataset) : Prop where
  groups : d.HasProperGroupNames
  dimensions : ∀ id < d.groups.size, ∀ dim ∈ (d.group id).dimensions, IsName dim.name
  vars : ∀ id < d.groups.size, ∀ v ∈ (d.group id).vars, IsName v.name

instance (d : Dataset) : Decidable d.HasProperNames :=
  decidable_of_iff (d.HasProperGroupNames ∧
      (∀ id < d.groups.size, ∀ dim ∈ (d.group id).dimensions, IsName dim.name) ∧
      ∀ id < d.groups.size, ∀ v ∈ (d.group id).vars, IsName v.name)
    ⟨fun h => ⟨h.1, h.2.1, h.2.2⟩, fun h => ⟨h.groups, h.dimensions, h.vars⟩⟩

theorem HasProperGroupNames.of_parent? {d : Dataset} (h : d.HasProperGroupNames) {id p : Nat}
    (hp : d.groups.parent? id = some p) : IsName (d.group id).name := by
  refine h id (Forest.lt_size_of_parent? hp) fun hroot => ?_
  subst hroot
  exact Nat.not_lt_zero p (Forest.parent?_lt hp)

namespace WellFormed

variable {d : Dataset}

/-- No group has an empty path. -/
theorem path_ne_empty (hd : d.WellFormed) {id : Nat} (h : id < d.groups.size) :
    (d.group id).path ≠ "" := by
  by_cases hroot : id = rootId
  · rw [hroot, hd.path_root]
    decide
  · obtain ⟨p, hp⟩ := hd.rooted id h hroot
    rw [hd.path_eq id p hp]
    exact ObjectPath.join_ne_empty _ _

/-- The path of every group is absolute. -/
theorem isAbsolute_path (hd : d.WellFormed) {id : Nat} (h : id < d.groups.size) :
    ObjectPath.isAbsolute (d.group id).path = true := by
  induction id using Nat.strongRecOn with
  | ind id ih =>
    -- by the numbers of the groups: a parent has a smaller one
    by_cases hroot : id = rootId
    · rw [hroot, hd.path_root]
      rfl
    · obtain ⟨p, hp⟩ := hd.rooted id h hroot
      have hlt := Forest.parent?_lt hp
      rw [hd.path_eq id p hp]
      exact ObjectPath.isAbsolute_join (ih p hlt (by omega)) _

/-- By the name of a child that child is found, since siblings have different names. -/
theorem child?_name (hd : d.WellFormed) {id c : Nat} (hc : c ∈ d.groups.children id) :
    d.child? id (d.group c).name = some c := by
  obtain ⟨c', hc'⟩ := exists_child? hc
  obtain ⟨hmem, hname⟩ := child?_eq_some hc'
  rw [hc', hd.siblings id c' c hmem hc hname]

/-- The path of a group leads to the group. -/
theorem groupId_path (hd : d.WellFormed) (hnames : d.HasProperGroupNames) {id : Nat}
    (h : id < d.groups.size) : d.groupId (d.group id).path = .ok id := by
  rw [groupId_eq_ok_iff]
  induction id using Nat.strongRecOn with
  | ind id ih =>
    -- by the numbers of the groups: a parent has a smaller one
    by_cases hroot : id = rootId
    · rw [hroot, hd.path_root, ObjectPath.components_root]
      rfl
    · -- the last name of the path is the one by which the parent finds the group
      obtain ⟨p, hp⟩ := hd.rooted id h hroot
      have hlt := Forest.parent?_lt hp
      have hchild := hd.child?_name (Forest.mem_children_iff.mpr hp)
      rw [hd.path_eq id p hp, ObjectPath.components_join (hnames.of_parent? hp), descend?_append,
        ih p hlt (by omega)]
      simpa [descend?] using hchild

/-- The path of a group is joined from the names along it. -/
theorem foldl_join_components (hd : d.WellFormed) (hnames : d.HasProperGroupNames) {id : Nat}
    (h : id < d.groups.size) :
    (ObjectPath.components (d.group id).path).foldl join ObjectPath.root = (d.group id).path := by
  induction id using Nat.strongRecOn with
  | ind id ih =>
    by_cases hroot : id = rootId
    · rw [hroot, hd.path_root, ObjectPath.components_root]
      rfl
    -- the names along the path are those of the parent and its own
    · obtain ⟨p, hp⟩ := hd.rooted id h hroot
      have hlt := Forest.parent?_lt hp
      rw [hd.path_eq id p hp, ObjectPath.components_join (hnames.of_parent? hp), List.foldl_append,
        ih p hlt (by omega)]
      rfl

/-- Different groups have different paths. -/
theorem path_inj (hd : d.WellFormed) (hnames : d.HasProperGroupNames) {id id' : Nat}
    (h : id < d.groups.size) (h' : id' < d.groups.size)
    (hpath : (d.group id).path = (d.group id').path) : id = id' := by
  have hid := hd.groupId_path hnames h
  rw [hpath, hd.groupId_path hnames h'] at hid
  exact (Except.ok.inj hid).symm

/-- The path joined from a group and the name of one of its dimensions leads to the dimension. -/
theorem dimension_join (hd : d.WellFormed) (hnames : d.HasProperNames) {id : Nat}
    (h : id < d.groups.size) {dim : Dimension} (hdim : dim ∈ (d.group id).dimensions) :
    d.dimension (join (d.group id).path dim.name) = .ok dim := by
  rw [dimension_eq_ok_iff, ObjectPath.split_join (hd.path_ne_empty h)
    (hnames.dimensions id h dim hdim).2]
  exact ⟨id, hd.groupId_path hnames.groups h,
    find?_eq_some_of_nodup (hd.groups id).dimensions hdim⟩

/-- The path joined from a group and the name of one of its variables leads to the variable. -/
theorem findVariable_join (hd : d.WellFormed) (hnames : d.HasProperNames) {id : Nat}
    (h : id < d.groups.size) {v : Variable} (hv : v ∈ (d.group id).vars) :
    d.findVariable (join (d.group id).path v.name) = .ok (id, v) := by
  rw [findVariable_eq_ok_iff, ObjectPath.split_join (hd.path_ne_empty h) (hnames.vars id h v hv).2]
  exact ⟨hd.groupId_path hnames.groups h, find?_eq_some_of_nodup (hd.groups id).vars hv⟩

/-- A path leads to a group that is there. -/
theorem lt_size_of_groupId (hd : d.WellFormed) {path : String} {id : Nat}
    (h : d.groupId path = .ok id) : id < d.groups.size := by
  rw [groupId_eq_ok_iff, descend?] at h
  have hroot := hd.root_lt
  generalize ObjectPath.components path = names, rootId = start at h hroot
  -- along the names: every step leads to a child, which is there
  induction names generalizing start with
  | nil =>
    obtain rfl : start = id := by simpa using h
    exact hroot
  | cons name rest ih =>
    rw [List.foldlM_cons] at h
    obtain ⟨c, hc, hrest⟩ := Option.bind_eq_some_iff.mp h
    exact ih c hrest (Forest.lt_size_of_mem_children (child?_eq_some hc).1)

/-- The walk over the groups meets every group. -/
theorem mem_groupIds_iff (hd : d.WellFormed) {id : Nat} :
    id ∈ d.groupIds ↔ id < d.groups.size :=
  ⟨Forest.lt_size_of_mem_subtree hd.root_lt, Forest.mem_subtree_zero hd.rooted⟩

end WellFormed

end GroupFlattening.Dataset
