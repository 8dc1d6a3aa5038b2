import GroupFlattening.Proofs.Dataset.Stored

/-!
# Datasets That Extend Each Other

An operation does one of five things (`Effect`): nothing, if it is rejected; it adds a group,
revises what a group holds without adding a variable, adds a variable, or stores data. Whatever it
does, groups, dimensions and variables keep their places, dimensions do not become smaller, and
paths go on leading to the groups and the dimensions they led to (`Effect.extends`). So every
dataset extends those it has come from (`WellFormed.extends_applyAll`), and a path that a variable
was created with leads to the same dimension for good (`Extends.dimensionAt?_eq`).
-/

namespace GroupFlattening.Dataset

open ObjectPath (split)

/-! ## Lists whose items keep their places -/

/-- Every item of the first list has its counterpart in the same place of the second one. -/
def KeepsPlaces {α : Type} (R : α → α → Prop) (xs ys : List α) : Prop :=
  ∀ (k : Nat) (x : α), xs[k]? = some x → ∃ y, ys[k]? = some y ∧ R x y

namespace KeepsPlaces

variable {α : Type} {R : α → α → Prop} {xs ys zs : List α}

theorem refl (hR : ∀ x, R x x) (xs : List α) : KeepsPlaces R xs xs :=
  fun _ x hx => ⟨x, hx, hR x⟩

theorem trans (hR : ∀ x y z, R x y → R y z → R x z) (h : KeepsPlaces R xs ys)
    (h' : KeepsPlaces R ys zs) : KeepsPlaces R xs zs := by
  intro k x hx
  obtain ⟨y, hy, hxy⟩ := h k x hx
  obtain ⟨z, hz, hyz⟩ := h' k y hy
  exact ⟨z, hz, hR x y z hxy hyz⟩

theorem mono {S : α → α → Prop} (h : KeepsPlaces R xs ys) (hRS : ∀ x y, R x y → S x y) :
    KeepsPlaces S xs ys := by
  intro k x hx
  obtain ⟨y, hy, hxy⟩ := h k x hx
  exact ⟨y, hy, hRS x y hxy⟩

theorem of_initial (hR : ∀ x, R x x) (h : xs <+: ys) : KeepsPlaces R xs ys := by
  obtain ⟨more, rfl⟩ := h
  intro k x hx
  exact ⟨x, (List.getElem?_append_left (List.getElem?_eq_some_iff.mp hx).1).trans hx, hR x⟩

theorem of_forall₂ (h : List.Forall₂ R xs ys) : KeepsPlaces R xs ys := by
  induction h with
  | nil => intro k x hx; cases hx
  | @cons x y _ _ hxy _ ih =>
    intro k
    cases k with
    | zero =>
      rintro _ ⟨⟩
      exact ⟨y, rfl, hxy⟩
    | succ k => exact ih k

theorem of_map {f : α → α} (hf : ∀ x ∈ xs, R x (f x)) : KeepsPlaces R xs (xs.map f) := by
  intro k x hx
  exact ⟨f x, by rw [List.getElem?_map, hx]; rfl, hf x (List.mem_of_getElem? hx)⟩

end KeepsPlaces

/-! ## What an operation does -/

/-- A variable that differs in its attributes at most. -/
def Variable.Revises (v w : Variable) : Prop := w = { v with attributes := w.attributes }

theorem Variable.Revises.refl (v : Variable) : v.Revises v := rfl

/-- What an operation does to a dataset. -/
inductive Effect (d : Dataset) : Change → Dataset → Prop
  | rejected (change : Change) : Effect d change d
  | group {parent name : String} {id : Nat} (path : String) (hid : id < d.groups.size)
      (hfree : d.isNameTaken id name = false) :
      Effect d (.group parent name) (d.withGroup id name path)
  | revised (change : Change) {id : Nat} {revise : Group → Group}
      (hname : (revise (d.group id)).name = (d.group id).name)
      (hpath : (revise (d.group id)).path = (d.group id).path)
      (hdims : (d.group id).dimensions <+: (revise (d.group id)).dimensions)
      (hvars : List.Forall₂ Variable.Revises (d.group id).vars (revise (d.group id)).vars) :
      Effect d change (d.changeGroup id revise)
  | «variable» {path : String} {definition : VariableDefinition} {id : Nat} {shape : Shape}
      (hid : id < d.groups.size) (hfree : d.isNameTaken id definition.name = false)
      (hshape : d.shapeOf definition.dimensions = .ok shape) :
      Effect d (.variable path definition) (d.changeGroup id fun g =>
        { g with vars := g.vars ++ [Variable.ofDefinition definition shape] })
  | data {path : String} {selection : Selection} {data : Buffer} {id : Nat} {v : Variable}
      {box : Box} (hcheck : checkWrite path selection data d = .ok (id, v, box)) :
      Effect d (.data path selection data) (d.store id v box data)

/-- What the result of an operation is like if it is rejected, and if it is not. -/
theorem effect_checked {α β : Type} {check : Dataset → Except StoreFault α}
    {change : Dataset → α → β × Dataset} {d : Dataset} {c : Change}
    (h : ∀ a, check d = .ok a → Effect d c (change d a).2) :
    Effect d c (stateAfter (checked check change d)) :=
  stateAfter_checked (.rejected c) h

/-- A dimension behind the others revises its group. -/
theorem effect_appendDimension (d : Dataset) (change : Change) (id : Nat) (dim : Dimension) :
    Effect d change (d.appendDimension id dim) :=
  .revised change rfl rfl (List.prefix_append ..) (List.forall₂_same.mpr fun v _ => .refl v)

/-- Every operation has one of these effects. -/
theorem Change.effect {d : Dataset} (hd : d.WellFormed) (change : Change) :
    Effect d change (change.apply d) := by
  cases change with
  -- one case for each operation; what its check has found is what the effect needs
  | group parent name =>
    refine effect_checked fun id hcheck => ?_
    obtain ⟨-, hid, hfree⟩ := checkGroup_eq_ok_iff.mp hcheck
    exact .group _ (hd.lt_size_of_groupId hid) hfree
  | dimension path name size => exact effect_checked fun id _ => effect_appendDimension d _ id _
  | sizedDimension path dim => exact effect_checked fun id _ => effect_appendDimension d _ id dim
  | «variable» path definition =>
    refine effect_checked fun ⟨id, shape⟩ hcheck => ?_
    obtain ⟨hid, hfree, hshape⟩ := checkVariable_eq_ok_iff.mp hcheck
    exact .variable (hd.lt_size_of_groupId hid) hfree hshape
  | groupAttribute path name value =>
    refine effect_checked fun id _ => .revised _ rfl rfl (List.prefix_refl _) ?_
    exact List.forall₂_same.mpr fun v _ => .refl v
  | variableAttribute path name value =>
    refine effect_checked fun a _ => .revised _ rfl rfl (List.prefix_refl _) ?_
    show List.Forall₂ _ _ (changeFirst _ _ _)
    rw [changeFirst_eq_map (hd.groups a.1).vars, List.forall₂_map_right_iff, List.forall₂_same]
    intro v _
    split <;> rfl
  | data path selection data => exact effect_checked fun ⟨id, v, box⟩ hcheck => .data hcheck

/-! ## Extension -/

/-- A dimension that has at most grown. -/
structure Grows (dim dim' : Dimension) : Prop where
  name : dim'.name = dim.name
  isUnlimited : dim'.isUnlimited = dim.isUnlimited
  size_le : dim.size ≤ dim'.size

theorem Grows.refl (dim : Dimension) : Grows dim dim := ⟨rfl, rfl, Nat.le_refl _⟩

theorem Grows.trans (dim dim' dim'' : Dimension) (h : Grows dim dim') (h' : Grows dim' dim'') :
    Grows dim dim'' :=
  ⟨h'.name.trans h.name, h'.isUnlimited.trans h.isUnlimited, Nat.le_trans h.size_le h'.size_le⟩

/-- A variable that has kept its name, its type and its dimensions. -/
structure Variable.Keeps (v w : Variable) : Prop where
  name : w.name = v.name
  type : w.type = v.type
  dimensions : w.dimensions = v.dimensions

theorem Variable.Keeps.refl (v : Variable) : v.Keeps v := ⟨rfl, rfl, rfl⟩

theorem Variable.Keeps.trans (u v w : Variable) (h : u.Keeps v) (h' : v.Keeps w) : u.Keeps w :=
  ⟨h'.name.trans h.name, h'.type.trans h.type, h'.dimensions.trans h.dimensions⟩

theorem Variable.Revises.keeps {v w : Variable} (h : v.Revises w) : v.Keeps w := by
  rw [h]
  exact ⟨rfl, rfl, rfl⟩

/-- The second dataset has everything that the first one has, in the same places. -/
structure Extends (d d' : Dataset) : Prop where
  size_le : d.groups.size ≤ d'.groups.size
  /-- Groups stay where they are. -/
  parents : ∀ id < d.groups.size, d'.groups.parent? id = d.groups.parent? id
  names : ∀ id < d.groups.size, (d'.group id).name = (d.group id).name
  paths : ∀ id < d.groups.size, (d'.group id).path = (d.group id).path
  /-- Paths lead to the groups they led to. -/
  groupIds : ∀ path id, d.groupId path = .ok id → d'.groupId path = .ok id
  /-- Dimensions keep their places and do not become smaller. -/
  dimensions : ∀ id, KeepsPlaces Grows (d.group id).dimensions (d'.group id).dimensions
  /-- Variables keep their places, their types and their dimensions. -/
  vars : ∀ id, KeepsPlaces Variable.Keeps (d.group id).vars (d'.group id).vars

namespace Extends

variable {d d' d'' : Dataset}

theorem refl (d : Dataset) : d.Extends d :=
  ⟨Nat.le_refl _, fun _ _ => rfl, fun _ _ => rfl, fun _ _ => rfl, fun _ _ h => h,
    fun _ => .refl Grows.refl _, fun _ => .refl Variable.Keeps.refl _⟩

theorem trans (h : d.Extends d') (h' : d'.Extends d'') : d.Extends d'' := by
  -- a group of the first dataset is one of the second, so the facts can be chained
  have hlt : ∀ id < d.groups.size, id < d'.groups.size :=
    fun id hid => Nat.lt_of_lt_of_le hid h.size_le
  exact
    { size_le := Nat.le_trans h.size_le h'.size_le
      parents := fun id hid => (h'.parents id (hlt id hid)).trans (h.parents id hid)
      names := fun id hid => (h'.names id (hlt id hid)).trans (h.names id hid)
      paths := fun id hid => (h'.paths id (hlt id hid)).trans (h.paths id hid)
      groupIds := fun path id hid => h'.groupIds path id (h.groupIds path id hid)
      dimensions := fun id => (h.dimensions id).trans Grows.trans (h'.dimensions id)
      vars := fun id => (h.vars id).trans Variable.Keeps.trans (h'.vars id) }

end Extends

section Steps

variable {d : Dataset}

/-- A number that is not in use stands for a group that holds nothing. -/
theorem group_of_size_le {id : Nat} (h : d.groups.size ≤ id) : d.group id = default := by
  simp [group, Forest.label?_eq_none_iff.mpr h]

/-- A dataset is extended by a group more. -/
theorem extends_withGroup {parent : Nat} (hparent : parent < d.groups.size) (name path : String) :
    d.Extends (d.withGroup parent name path) := by
  have hsame : ∀ id < d.groups.size, (d.withGroup parent name path).group id = d.group id := by
    intro id hid
    rw [group_withGroup hparent, if_neg (Nat.ne_of_lt hid)]
  refine
    { size_le := ?_
      parents := fun id hid => ?_
      names := fun id hid => by rw [hsame id hid]
      paths := fun id hid => by rw [hsame id hid]
      groupIds := fun p id hid => groupId_withGroup hparent hid
      dimensions := fun id => ?_
      vars := fun id => ?_ }
  -- a number that was not in use belonged to no dimensions and no variables
  · rw [size_withGroup hparent]
    exact Nat.le_succ _
  · rw [parent?_withGroup hparent, if_neg (Nat.ne_of_lt hid)]
  · by_cases hid : id < d.groups.size
    · rw [hsame id hid]
      exact .refl Grows.refl _
    · rw [group_of_size_le (Nat.le_of_not_lt hid)]
      exact .of_initial Grows.refl List.nil_prefix
  · by_cases hid : id < d.groups.size
    · rw [hsame id hid]
      exact .refl Variable.Keeps.refl _
    · rw [group_of_size_le (Nat.le_of_not_lt hid)]
      exact .of_initial Variable.Keeps.refl List.nil_prefix

/-- A dataset is extended by a change of one group that keeps what was there in its place. -/
theorem extends_changeGroup {id : Nat} {change : Group → Group}
    (hname : (change (d.group id)).name = (d.group id).name)
    (hpath : (change (d.group id)).path = (d.group id).path)
    (hdims : KeepsPlaces Grows (d.group id).dimensions (change (d.group id)).dimensions)
    (hvars : KeepsPlaces Variable.Keeps (d.group id).vars (change (d.group id)).vars) :
    d.Extends (d.changeGroup id change) := by
  refine
    { size_le := by simp
      parents := by simp
      names := fun i _ => ?_
      paths := fun i _ => ?_
      groupIds := fun path i h => (groupId_changeGroup hname path).trans h
      dimensions := fun i => ?_
      vars := fun i => ?_ }
  -- each part is that of a group which stays as it is, or of the one that changes
  all_goals rcases group_changeGroup_cases d id i change with h | ⟨rfl, h⟩ <;> rw [h]
  · exact hname
  · exact hpath
  · exact .refl Grows.refl _
  · exact hdims
  · exact .refl Variable.Keeps.refl _
  · exact hvars

/-- Writing data leaves the tree of groups as it is. -/
theorem tree_store (d : Dataset) (id : Nat) (v : Variable) (box : Box) (data : Buffer) :
    (d.store id v box data).groups.size = d.groups.size ∧
      ∀ i, (d.store id v box data).groups.parent? i = d.groups.parent? i := by
  -- dimensions grow one after the other, and none of these steps touches the tree
  have hgrown : ∀ (axes : List (String × Nat)) (d : Dataset),
      (axes.foldl growDimension d).groups.size = d.groups.size ∧
        ∀ i, (axes.foldl growDimension d).groups.parent? i = d.groups.parent? i := by
    intro axes
    induction axes with
    | nil => exact fun d => ⟨rfl, fun i => rfl⟩
    | cons axis rest ih =>
      intro d
      rw [List.foldl_cons, (ih _).1, funext (ih _).2]
      simp only [growDimension]
      split <;> simp [changeDimension]
  rw [store, changeVariable, size_changeGroup]
  simp only [parent?_changeGroup]
  exact hgrown _ d

/-- No two variables of a group have one name. -/
theorem WellFormed.eq_of_name (hd : d.WellFormed) {id : Nat} {v w : Variable}
    (hv : v ∈ (d.group id).vars) (hw : w ∈ (d.group id).vars) (hname : w.name = v.name) :
    w = v := by
  have hunique := find?_eq_some_of_nodup (hd.groups id).vars hw
  rw [hname, find?_eq_some_of_nodup (hd.groups id).vars hv] at hunique
  exact (Option.some.inj hunique).symm

/-- A dataset is extended by writing data: dimensions grow, and variables keep their descriptions.
-/
theorem extends_store (hd : d.WellFormed) {path : String} {id : Nat} {v : Variable}
    (hfind : d.findVariable path = .ok (id, v)) (box : Box) (data : Buffer) :
    d.Extends (d.store id v box data) := by
  have hgroup := group_store hd hfind box data
  obtain ⟨hsize, hparents⟩ := tree_store d id v box data
  refine
    { size_le := Nat.le_of_eq hsize.symm
      parents := fun i _ => hparents i
      names := fun i _ => by rw [hgroup]; rfl
      paths := fun i _ => by rw [hgroup]; rfl
      groupIds := fun q i h => (groupId_store d id v box data q).trans h
      dimensions := fun i => ?_
      vars := fun i => ?_ }
  · rw [hgroup]
    apply KeepsPlaces.of_map
    -- dimensions become longer at most
    intro dim _
    exact ⟨Dimension.name_grown .., Dimension.isUnlimited_grown .., Dimension.size_le_size_grown ..⟩
  · rw [hgroup]
    by_cases hi : i = id
    · subst hi
      simp only [if_true]
      apply KeepsPlaces.of_map
      intro w hw
      split
      · next hname =>
        -- the variable of this name is the one that is written
        rw [hd.eq_of_name (mem_vars_of_findVariable hfind) hw (beq_iff_eq.mp hname)]
        exact ⟨rfl, rfl, rfl⟩
      · exact .refl w
    · simp only [hi, if_false]
      exact .refl Variable.Keeps.refl _

end Steps

/-- Every operation extends the dataset. -/
theorem Effect.extends {d d' : Dataset} {change : Change} (hd : d.WellFormed)
    (h : Effect d change d') : d.Extends d' := by
  cases h with
  | rejected => exact .refl d
  | group path hid hfree => exact extends_withGroup hid _ path
  | revised _ hname hpath hdims hvars =>
    exact extends_changeGroup hname hpath (.of_initial Grows.refl hdims)
      ((KeepsPlaces.of_forall₂ hvars).mono fun _ _ => Variable.Revises.keeps)
  | «variable» hid hfree hshape =>
    exact extends_changeGroup rfl rfl (.refl Grows.refl _)
      (.of_initial Variable.Keeps.refl (List.prefix_append ..))
  | data hcheck => exact extends_store hd (checkWrite_eq_ok_iff.mp hcheck).1 _ _

/-- A dataset extends the one it has come from. -/
theorem WellFormed.extends_applyAll {d : Dataset} (hd : d.WellFormed) (changes : List Change) :
    d.Extends (d.applyAll changes) := by
  induction changes generalizing d with
  | nil => exact .refl d
  | cons change rest ih =>
    exact (Effect.extends hd (change.effect hd)).trans (ih (hd.apply change))

/-! ## Fixed dimensions -/

/-- Data that is accepted leaves fixed dimensions as they are. -/
theorem grown_of_checkWrite {d : Dataset} (hd : d.WellFormed) {path : String}
    {selection : Selection} {data : Buffer} {id : Nat} {v : Variable} {box : Box}
    (hcheck : checkWrite path selection data d = .ok (id, v, box)) {i : Nat} {dim : Dimension}
    (hdim : dim ∈ (d.group i).dimensions) (hfixed : dim.isUnlimited = false) :
    dim.grown (d.axesIn i (v.dimensions.zip box.stop)) = dim := by
  obtain ⟨-, -, shape, -, -, -, -, haxes⟩ := checkWrite_eq_ok_iff.mp hcheck
  -- an axis that ends behind a fixed dimension would have been refused
  apply Dimension.grown_of_le
  intro axis' haxis' hname
  obtain ⟨axis, haxis, rfl⟩ := List.mem_map.mp haxis'
  obtain ⟨haxis, hgroup⟩ := List.mem_filter.mp haxis
  obtain ⟨found, hfound, hends⟩ := checkAxis_eq_ok_iff.mp (haxes axis haxis)
  -- the axis runs along this dimension and no other one
  obtain ⟨k, hk, hfind⟩ := dimension_eq_ok_iff.mp hfound
  rw [hk] at hgroup
  obtain rfl : k = i := by simpa [Except.toOption] using hgroup
  have hname : dim.name = (split axis.1).2 := hname.symm
  rw [← hname, find?_eq_some_of_nodup (hd.groups k).dimensions hdim] at hfind
  obtain rfl := Option.some.inj hfind
  exact hends hfixed

/-- A dimension that is as it was if it is fixed. -/
def SameIfFixed (dim dim' : Dimension) : Prop := dim.isUnlimited = false → dim' = dim

theorem SameIfFixed.refl (dim : Dimension) : SameIfFixed dim dim := fun _ => rfl

theorem SameIfFixed.trans (dim dim' dim'' : Dimension) (h : SameIfFixed dim dim')
    (h' : SameIfFixed dim' dim'') : SameIfFixed dim dim'' := by
  intro hfixed
  have heq := h hfixed
  rw [← heq] at hfixed
  rw [h' hfixed, heq]

/-- No operation changes a dimension of a fixed size. -/
theorem Effect.fixed {d d' : Dataset} {change : Change} (hd : d.WellFormed)
    (h : Effect d change d') (i : Nat) :
    KeepsPlaces SameIfFixed (d.group i).dimensions (d'.group i).dimensions := by
  cases h with
  | rejected => exact .refl SameIfFixed.refl _
  | group path hid hfree =>
    rw [group_withGroup hid]
    split
    · next hi =>
      -- the new group had no dimensions before
      rw [group_of_size_le (Nat.le_of_eq hi.symm)]
      exact .of_initial SameIfFixed.refl List.nil_prefix
    · exact .refl SameIfFixed.refl _
  | @revised _ id revise hname hpath hdims hvars =>
    rcases group_changeGroup_cases d id i revise with h | ⟨rfl, h⟩
    · rw [h]
      exact .refl SameIfFixed.refl _
    · rw [h]
      exact .of_initial SameIfFixed.refl hdims
  | @«variable» path definition id shape hid hfree hshape =>
    rcases group_changeGroup_cases d id i _ with h | ⟨rfl, h⟩ <;> rw [h] <;>
      exact .refl SameIfFixed.refl _
  | data hcheck =>
    rw [group_store hd (checkWrite_eq_ok_iff.mp hcheck).1]
    apply KeepsPlaces.of_map
    intro dim hdim hfixed
    exact grown_of_checkWrite hd hcheck hdim hfixed

/-- No operation changes the size of a fixed dimension. -/
theorem WellFormed.fixed_applyAll {d : Dataset} (hd : d.WellFormed) (changes : List Change)
    (i : Nat) : KeepsPlaces SameIfFixed (d.group i).dimensions
      ((d.applyAll changes).group i).dimensions := by
  induction changes generalizing d with
  | nil => exact .refl SameIfFixed.refl _
  | cons change rest ih =>
    exact (Effect.fixed hd (change.effect hd) i).trans SameIfFixed.trans (ih (hd.apply change))

/-! ## Where paths lead -/

section PlaceAt

variable {α : Type} (items : Group → List α) (name : α → String)

/-- Where a path leads among the objects of one kind: the number of a group, and the place of the
object among those of the group. -/
def placeAt? (d : Dataset) (path : String) : Option (Nat × Nat) := do
  let id ← (d.groupId (split path).1).toOption
  let k ← (items (d.group id)).findIdx? fun x => name x == (split path).2
  pure (id, k)

variable {items name}

/-- The place of an object is its group and its position there. -/
theorem placeAt?_eq_some_iff {d : Dataset} {path : String} {id k : Nat} :
    placeAt? items name d path = some (id, k) ↔ d.groupId (split path).1 = .ok id ∧
      (items (d.group id)).findIdx? (fun x => name x == (split path).2) = some k := by
  unfold placeAt?
  cases d.groupId (split path).1 with
  | error fault => simp [Except.toOption]
  | ok i =>
    simp only [Except.toOption, Option.bind_eq_bind, Option.bind_some, Option.bind_eq_some_iff,
      Option.pure_def, Option.some.injEq, Prod.mk.injEq, Except.ok.injEq]
    constructor
    · rintro ⟨place, hplace, rfl, rfl⟩
      exact ⟨rfl, hplace⟩
    · rintro ⟨rfl, hplace⟩
      exact ⟨k, hplace, rfl, rfl⟩

end PlaceAt

/-- The group of a dimension, and the place of the dimension among those of the group. -/
def dimensionAt? (d : Dataset) (path : String) : Option (Nat × Nat) := do
  let id ← (d.groupId (split path).1).toOption
  let k ← (d.group id).dimensions.findIdx? fun dimension => dimension.name == (split path).2
  pure (id, k)

theorem dimensionAt?_eq_placeAt? (d : Dataset) (path : String) :
    d.dimensionAt? path = placeAt? Group.dimensions Dimension.name d path := rfl

theorem dimensionAt?_eq_some_iff {d : Dataset} {path : String} {id k : Nat} :
    d.dimensionAt? path = some (id, k) ↔ d.groupId (split path).1 = .ok id ∧
      (d.group id).dimensions.findIdx? (fun dimension => dimension.name == (split path).2) =
        some k := by
  rw [dimensionAt?_eq_placeAt?, placeAt?_eq_some_iff]

/-- The dimension that a path leads to stands in the place that it leads to. -/
theorem exists_dimensionAt? {d : Dataset} {path : String} {dim : Dimension}
    (h : d.dimension path = .ok dim) :
    ∃ id k, d.dimensionAt? path = some (id, k) ∧ (d.group id).dimensions[k]? = some dim := by
  obtain ⟨id, hid, hfind⟩ := dimension_eq_ok_iff.mp h
  obtain ⟨hname, k, hk, hdim, hbefore⟩ := List.find?_eq_some_iff_getElem.mp hfind
  refine ⟨id, k, dimensionAt?_eq_some_iff.mpr ⟨hid, ?_⟩, List.getElem?_eq_some_iff.mpr ⟨hk, hdim⟩⟩
  rw [List.findIdx?_eq_some_iff_getElem]
  exact ⟨hk, hdim ▸ hname, fun j hj => by simpa using hbefore j hj⟩

/-- The names of dimensions stay in their places. -/
theorem Extends.name_dimension {d d' : Dataset} (h : d.Extends d') {id k : Nat}
    (hk : k < (d.group id).dimensions.length) :
    ∃ hk' : k < (d'.group id).dimensions.length,
      ((d'.group id).dimensions[k]).name = ((d.group id).dimensions[k]).name := by
  obtain ⟨dim, hdim, hgrows⟩ := h.dimensions id k _ (List.getElem?_eq_getElem hk)
  obtain ⟨hk', rfl⟩ := List.getElem?_eq_some_iff.mp hdim
  exact ⟨hk', hgrows.name⟩

/-- A path goes on leading to the dimension it led to. -/
theorem Extends.dimensionAt?_eq {d d' : Dataset} (h : d.Extends d') {path : String}
    {place : Nat × Nat} (hplace : d.dimensionAt? path = some place) :
    d'.dimensionAt? path = some place := by
  obtain ⟨id, k⟩ := place
  rw [dimensionAt?_eq_some_iff, List.findIdx?_eq_some_iff_getElem] at hplace ⊢
  obtain ⟨hid, hk, hfound, hbefore⟩ := hplace
  obtain ⟨hk', hname⟩ := h.name_dimension hk
  -- the same name stands there, and the names in front of it are the same
  refine ⟨h.groupIds _ id hid, hk', by rw [hname]; exact hfound, fun j hj => ?_⟩
  obtain ⟨_, hother⟩ := h.name_dimension (Nat.lt_trans hj hk)
  rw [hother]
  exact hbefore j hj

end GroupFlattening.Dataset
