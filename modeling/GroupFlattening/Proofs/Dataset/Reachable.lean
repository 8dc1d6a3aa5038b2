import GroupFlattening.Proofs.Attribute
import GroupFlattening.Proofs.Dataset.Write
import Mathlib.Data.List.Find

/-!
# Reachable Datasets

A dataset is reachable if it comes from a new one by any number of operations, whether each of
them succeeds or fails. Every reachable dataset is well-formed.

An operation does one of two things. It changes what one group holds and keeps its name, its path
and the dimensions that were there (`WellFormed.changeGroup`), or it adds a group whose name is new
among its siblings (`WellFormed.addGroup`). In both cases every path that led to a group or a
dimension still does.
-/

namespace GroupFlattening.Dataset

open ObjectPath (join split)

/-! ## Operations -/

/-- An operation with its arguments. The other operations on datasets in memory are cases of these:
a variable without a fill value, and data written to a whole variable. -/
inductive Change where
  | group (parent name : String)
  | dimension (group name : String) (size : Option Nat)
  | sizedDimension (group : String) (dimension : Dimension)
  | variable (group : String) (definition : VariableDefinition)
  | groupAttribute (group name : String) (value : AttributeValue)
  | variableAttribute (path name : String) (value : AttributeValue)
  | data (path : String) (selection : Selection) (data : Buffer)

/-- The dataset after an operation that may have failed. -/
def stateAfter {α : Type} : EStateM.Result StoreFault Dataset α → Dataset
  | .ok _ d => d
  | .error _ d => d

/-- The dataset after an operation. -/
def Change.apply (d : Dataset) : Change → Dataset
  | .group parent name => stateAfter (createGroup parent name d)
  | .dimension path name size => stateAfter (createDimension path name size d)
  | .sizedDimension path dim => stateAfter (addDimension path dim d)
  | .variable path definition => stateAfter (createVariable path definition d)
  | .groupAttribute path name value => stateAfter (setGroupAttribute path name value d)
  | .variableAttribute path name value => stateAfter (setVariableAttribute path name value d)
  | .data path selection buffer => stateAfter (writeData path selection buffer d)

/-- Datasets that come from a new one by operations. -/
inductive Reachable : Dataset → Prop
  | create (location : String) (isNested : Bool) : Reachable (create location isNested)
  | change {d : Dataset} (change : Change) : Reachable d → Reachable (change.apply d)

/-- The dataset after several operations. -/
def applyAll (d : Dataset) (changes : List Change) : Dataset := changes.foldl Change.apply d

theorem Reachable.applyAll {d : Dataset} (hd : d.Reachable) (changes : List Change) :
    (d.applyAll changes).Reachable := by
  induction changes generalizing d with
  | nil => exact hd
  | cons change rest ih => exact ih (hd.change change)

/-- What holds of a dataset and after each accepted change of it holds after the operation. -/
theorem stateAfter_checked {α β : Type} {check : Dataset → Except StoreFault α}
    {change : Dataset → α → β × Dataset} {d : Dataset} {P : Dataset → Prop} (hd : P d)
    (hchange : ∀ a, check d = .ok a → P (change d a).2) :
    P (stateAfter (checked check change d)) := by
  rw [checked]
  cases hcheck : check d with
  | error fault => exact hd
  | ok a => exact hchange a hcheck

/-! ## Changing what a group holds -/

section ChangeGroup

variable {d : Dataset} {id : Nat} {change : Group → Group}

theorem child?_changeGroup (hname : (change (d.group id)).name = (d.group id).name)
    (i : Nat) (name : String) : (d.changeGroup id change).child? i name = d.child? i name := by
  simp only [child?, Forest.child?, children_changeGroup]
  congr 1
  funext c
  simp only [changeGroup, Forest.label?_modify]
  split
  · next h =>
    subst h
    cases hlabel : d.groups.label? id with
    | none => rfl
    | some g =>
      simp only [group, hlabel, Option.getD_some] at hname
      simp [hname]
  · rfl

theorem groupId_changeGroup (hname : (change (d.group id)).name = (d.group id).name)
    (path : String) : (d.changeGroup id change).groupId path = d.groupId path := by
  have hchild : (d.changeGroup id change).child? = d.child? := by
    funext i name
    exact child?_changeGroup hname i name
  simp only [groupId, descend?, hchild]

/-- A dimension that could be found still can if its group keeps the names of its dimensions. -/
theorem exists_dimension_changeGroup (hname : (change (d.group id)).name = (d.group id).name)
    (hdims : ∀ n ∈ (d.group id).dimensions.map (·.name),
      n ∈ (change (d.group id)).dimensions.map (·.name)) {path : String}
    (h : ∃ dim, d.dimension path = .ok dim) :
    ∃ dim, (d.changeGroup id change).dimension path = .ok dim := by
  rw [exists_dimension_iff] at h ⊢
  obtain ⟨i, hi, hmem⟩ := h
  -- the group is found by the same path, whether it is the changed one or not
  refine ⟨i, by rw [groupId_changeGroup hname, hi], ?_⟩
  rcases group_changeGroup_cases d id i change with h | ⟨rfl, h⟩
  · rw [h]
    exact hmem
  · rw [h]
    exact hdims _ hmem

/-- Changing what a group holds keeps a dataset well-formed, if the group keeps its place and its
dimensions. -/
theorem WellFormed.changeGroup (hd : d.WellFormed)
    (hname : (change (d.group id)).name = (d.group id).name)
    (hpath : (change (d.group id)).path = (d.group id).path)
    (hgroup : (change (d.group id)).WellFormed)
    (hdims : ∀ n ∈ (d.group id).dimensions.map (·.name),
      n ∈ (change (d.group id)).dimensions.map (·.name))
    (hvars : ∀ v ∈ (change (d.group id)).vars, ∀ path ∈ v.dimensions,
      ∃ dim, d.dimension path = .ok dim) : (d.changeGroup id change).WellFormed := by
  -- every group keeps its name and its path, whether it is the changed one or not
  have hkept : ∀ i, ((d.changeGroup id change).group i).name = (d.group i).name ∧
      ((d.changeGroup id change).group i).path = (d.group i).path := by
    intro i
    rcases group_changeGroup_cases d id i change with h | ⟨rfl, h⟩
    · simp [h]
    · simp [h, hname, hpath]
  refine
    { root_lt := by simpa using hd.root_lt
      parent?_root := by simpa using hd.parent?_root
      rooted := by simpa using hd.rooted
      path_root := by rw [(hkept rootId).2, hd.path_root]
      path_eq := fun i p hp => ?_
      siblings := fun i c c' hc hc' heq => ?_
      groups := fun i => ?_
      resolved := fun i v hv path hp => ?_ }
  · rw [(hkept i).2, (hkept i).1, (hkept p).2]
    exact hd.path_eq i p (by simpa using hp)
  · rw [(hkept c).1, (hkept c').1] at heq
    exact hd.siblings i c c' (by simpa using hc) (by simpa using hc') heq
  · rcases group_changeGroup_cases d id i change with h | ⟨rfl, h⟩
    · rw [h]
      exact hd.groups i
    · rw [h]
      exact hgroup
  · refine exists_dimension_changeGroup hname hdims ?_
    rcases group_changeGroup_cases d id i change with h | ⟨rfl, h⟩
    · rw [h] at hv
      exact hd.resolved i v hv path hp
    · rw [h] at hv
      exact hvars v hv path hp

end ChangeGroup

/-! ## Adding a group -/

section AddGroup

variable {d : Dataset} {parent : Nat} {name path : String}

/-- The dataset with an empty group added inside another one. -/
def withGroup (d : Dataset) (parent : Nat) (name path : String) : Dataset :=
  { d with groups := d.groups.add (some parent) (Group.empty name path) }

private theorem below (hparent : parent < d.groups.size) :
    ∀ p, some parent = some p → p < d.groups.size := by
  rintro p ⟨⟩
  exact hparent

/-- A new group is empty, and the others stay as they are. -/
theorem group_withGroup (hparent : parent < d.groups.size) (i : Nat) :
    (d.withGroup parent name path).group i =
      if i = d.groups.size then Group.empty name path else d.group i := by
  simp only [group, withGroup, Forest.label?_add (below hparent)]
  split <;> rfl

/-- Children that were there are still found by their names. -/
theorem child?_withGroup (hparent : parent < d.groups.size) {i c : Nat} {n : String}
    (h : d.child? i n = some c) : (d.withGroup parent name path).child? i n = some c := by
  have hlabels : ∀ c ∈ d.groups.children i,
      (((d.withGroup parent name path).groups.label? c).any fun g => g.name == n) =
        (d.groups.label? c).any fun g => g.name == n := by
    intro c hc
    have hlt := Forest.lt_size_of_mem_children hc
    simp only [withGroup, Forest.label?_add (below hparent), if_neg (Nat.ne_of_lt hlt)]
  -- the children that were there keep their names
  have hfind : (d.groups.children i).find? (fun c =>
      ((d.withGroup parent name path).groups.label? c).any fun g => g.name == n) = some c := by
    rw [← h]
    exact List.find?_congr hlabels
  rw [child?, Forest.child?]
  -- the new group comes behind the children that were there
  simp only [withGroup, Forest.children_add (below hparent)] at hfind ⊢
  split
  · rw [List.find?_append, hfind]
    rfl
  · exact hfind

/-- Groups that were there are still found by their paths. -/
theorem groupId_withGroup (hparent : parent < d.groups.size) {p : String} {i : Nat}
    (h : d.groupId p = .ok i) : (d.withGroup parent name path).groupId p = .ok i := by
  rw [groupId_eq_ok_iff] at h ⊢
  generalize ObjectPath.components p = names, rootId = start at h ⊢
  induction names generalizing start with
  -- one name of the path after the other, from any group
  | nil => exact h
  | cons n rest ih =>
    rw [descend?, List.foldlM_cons] at h ⊢
    obtain ⟨c, hc, hrest⟩ := Option.bind_eq_some_iff.mp h
    rw [child?_withGroup hparent hc]
    exact ih c hrest

theorem size_withGroup (hparent : parent < d.groups.size) :
    (d.withGroup parent name path).groups.size = d.groups.size + 1 :=
  Forest.size_add (below hparent)

theorem parent?_withGroup (hparent : parent < d.groups.size) (i : Nat) :
    (d.withGroup parent name path).groups.parent? i =
      if i = d.groups.size then some parent else d.groups.parent? i :=
  Forest.parent?_add (below hparent) i

/-- Dimensions that were there are still found by their paths. -/
theorem dimension_withGroup (hparent : parent < d.groups.size) {p : String}
    {dim : Dimension} (h : d.dimension p = .ok dim) :
    (d.withGroup parent name path).dimension p = .ok dim := by
  obtain ⟨g, hg, hfind⟩ := dimension_eq_ok_iff.mp h
  refine dimension_eq_ok_iff.mpr ⟨g, groupId_withGroup hparent hg, ?_⟩
  rw [group_withGroup hparent]
  split
  · next hnewest =>
    -- numbers that are not in use hold no dimensions
    have hempty : d.group g = default := by
      simp [group, Forest.label?_eq_none_iff.mpr (Nat.le_of_eq hnewest.symm)]
    rw [hempty] at hfind
    cases hfind
  · exact hfind

/-- The path of every group follows from that of its parent, the new one's too. -/
private theorem path_eq_withGroup (hd : d.WellFormed) (hparent : parent < d.groups.size)
    (hpath : path = join (d.group parent).path name) {i p : Nat}
    (hp : (d.withGroup parent name path).groups.parent? i = some p) :
    ((d.withGroup parent name path).group i).path =
      join ((d.withGroup parent name path).group p).path
        ((d.withGroup parent name path).group i).name := by
  rw [parent?_withGroup hparent] at hp
  split at hp
  · next hi =>
    obtain rfl := Option.some.inj hp
    rw [group_withGroup hparent, if_pos hi, group_withGroup hparent,
      if_neg (Nat.ne_of_lt hparent)]
    exact hpath
  · next hi =>
    -- neither the group nor its parent is the new one
    have hlt := Forest.parent?_lt hp
    have hsmall := Forest.lt_size_of_parent? hp
    rw [group_withGroup hparent, if_neg hi, group_withGroup hparent, if_neg (by omega)]
    exact hd.path_eq i p hp

/-- Siblings still have different names. -/
private theorem siblings_withGroup (hd : d.WellFormed) (hparent : parent < d.groups.size)
    (hnew : d.child? parent name = none) {i c c' : Nat}
    (hc : c ∈ (d.withGroup parent name path).groups.children i)
    (hc' : c' ∈ (d.withGroup parent name path).groups.children i)
    (heq : ((d.withGroup parent name path).group c).name =
      ((d.withGroup parent name path).group c').name) : c = c' := by
  -- a child that was there has another name than the new one
  have hfresh : ∀ c, d.groups.parent? c = some parent → (d.group c).name ≠ name := by
    intro c hc hname
    obtain ⟨c', hc'⟩ := exists_child? (Forest.mem_children_iff.mpr hc)
    rw [hname, hnew] at hc'
    cases hc'
  rw [Forest.mem_children_iff, parent?_withGroup hparent] at hc hc'
  rw [group_withGroup hparent, group_withGroup hparent] at heq
  -- both are new, one of them is, or none
  split at hc <;> split at hc'
  · next hl hr => rw [hl, hr]
  · next hl hr =>
    obtain rfl := Option.some.inj hc
    rw [if_pos hl, if_neg hr] at heq
    exact absurd heq.symm (hfresh c' hc')
  · next hl hr =>
    obtain rfl := Option.some.inj hc'
    rw [if_neg hl, if_pos hr] at heq
    exact absurd heq (hfresh c hc)
  · next hl hr =>
    rw [if_neg hl, if_neg hr] at heq
    exact hd.siblings i c c' (Forest.mem_children_iff.mpr hc)
      (Forest.mem_children_iff.mpr hc') heq

theorem Group.wellFormed_empty (name path : String) : (Group.empty name path).WellFormed := by
  constructor <;> simp [Group.empty]

/-- Adding a group of a new name keeps a dataset well-formed. -/
theorem WellFormed.addGroup (hd : d.WellFormed) (hparent : parent < d.groups.size)
    (hpath : path = join (d.group parent).path name) (hnew : d.child? parent name = none) :
    WellFormed { d with groups := d.groups.add (some parent) (Group.empty name path) } := by
  show (d.withGroup parent name path).WellFormed
  have hsize : (d.withGroup parent name path).groups.size = d.groups.size + 1 :=
    size_withGroup hparent
  have hroot : rootId ≠ d.groups.size := Nat.ne_of_lt hd.root_lt
  refine
    { root_lt := by rw [hsize]; exact Nat.succ_pos _
      parent?_root := by rw [parent?_withGroup hparent, if_neg hroot]; exact hd.parent?_root
      rooted := fun i hi hne => ?_
      path_root := by rw [group_withGroup hparent, if_neg hroot]; exact hd.path_root
      path_eq := fun i p hp => path_eq_withGroup hd hparent hpath hp
      siblings := fun i c c' hc hc' heq => siblings_withGroup hd hparent hnew hc hc' heq
      groups := fun i => ?_
      resolved := fun i v hv p hp => ?_ }
  -- the new group is below its parent
  · rw [parent?_withGroup hparent]
    split
    · exact ⟨parent, rfl⟩
    · exact hd.rooted i (by omega) hne
  · rw [group_withGroup hparent]
    split
    · exact Group.wellFormed_empty name path
    · exact hd.groups i
  · rw [group_withGroup hparent] at hv
    split at hv
    -- the new group has no variables, and dimensions of the others are still found
    · cases hv
    · obtain ⟨dim, hdim⟩ := hd.resolved i v hv p hp
      exact ⟨dim, dimension_withGroup hparent hdim⟩

end AddGroup

/-! ## Every operation keeps well-formedness -/

theorem size_create (location : String) (isNested : Bool) :
    (Dataset.create location isNested).groups.size = 1 := rfl

/-- Every group of a new dataset is empty; a number that is not in use stands for such a group,
too. -/
theorem exists_group_create (location : String) (isNested : Bool) (id : Nat) :
    ∃ path, (Dataset.create location isNested).group id = Group.empty "" path := by
  by_cases hid : id = rootId
  · exact ⟨ObjectPath.root, hid ▸ rfl⟩
  · have hle : (Dataset.create location isNested).groups.size ≤ id :=
      size_create location isNested ▸ Nat.pos_of_ne_zero hid
    exact ⟨"", by rw [group, Forest.label?_eq_none_iff.mpr hle]; rfl⟩

namespace WellFormed

variable {d : Dataset}

/-- A new dataset is well formed. -/
theorem create (location : String) (isNested : Bool) :
    (Dataset.create location isNested).WellFormed := by
  have hsize := size_create location isNested
  have hparent : ∀ i, (Dataset.create location isNested).groups.parent? i = none := by
    intro i
    rw [Dataset.create, Forest.parent?_add (by simp)]
    split <;> rfl
  have hgroup := exists_group_create location isNested
  refine
    { root_lt := by rw [hsize]; decide
      parent?_root := hparent rootId
      rooted := fun i hi hne => ?_
      path_root := rfl
      path_eq := fun i p hp => by rw [hparent] at hp; cases hp
      siblings := fun i c c' hc _ _ => ?_
      groups := fun i => ?_
      resolved := fun i v hv => ?_ }
  -- the root is the only group
  · rw [hsize] at hi
    exact absurd (Nat.lt_one_iff.mp hi) hne
  · rw [Forest.mem_children_iff, hparent] at hc
    cases hc
  · obtain ⟨path, h⟩ := hgroup i
    rw [h]
    exact Group.wellFormed_empty "" path
  · obtain ⟨path, h⟩ := hgroup i
    simp [h, Group.empty] at hv

/-- A dimension with a new name may be added to any group. -/
theorem appendDimension (hd : d.WellFormed) {id : Nat} {dim : Dimension}
    (hnew : dim.name ∉ (d.group id).dimensions.map (·.name)) :
    (d.appendDimension id dim).WellFormed := by
  have hg := hd.groups id
  refine hd.changeGroup rfl rfl ⟨hg.attributes, ?_, hg.vars, hg.variableAttributes⟩
    (fun n hn => ?_) (hd.resolved id)
  · rw [List.map_append, List.nodup_append]
    refine ⟨hg.dimensions, by simp, fun a ha b hb heq => hnew ?_⟩
    simp only [List.map_cons, List.map_nil, List.mem_singleton] at hb
    rwa [heq, hb] at ha
  · rw [List.map_append]
    exact List.mem_append_left _ hn

/-- Growing a dimension leaves all names as they are. -/
theorem changeDimension (hd : d.WellFormed) (id : Nat) (name : String)
    {change : Dimension → Dimension} (hname : ∀ dim, (change dim).name = dim.name) :
    (d.changeDimension id name change).WellFormed := by
  have hg := hd.groups id
  refine hd.changeGroup rfl rfl ⟨hg.attributes, ?_, hg.vars, hg.variableAttributes⟩
    (fun n hn => ?_) (hd.resolved id)
  · rw [map_changeFirst hname]
    exact hg.dimensions
  · rw [map_changeFirst hname]
    exact hn

/-- Changing the attributes or the data of a variable leaves names and dimensions as they are. -/
theorem changeVariable (hd : d.WellFormed) (id : Nat) (name : String)
    {change : Variable → Variable} (hname : ∀ v, (change v).name = v.name)
    (hdims : ∀ v, (change v).dimensions = v.dimensions)
    (hattributes : ∀ v, (v.attributes.map (·.1)).Nodup →
      ((change v).attributes.map (·.1)).Nodup) :
    (d.changeVariable id name change).WellFormed := by
  have hg := hd.groups id
  refine hd.changeGroup rfl rfl ⟨hg.attributes, hg.dimensions, ?_, fun v hv => ?_⟩
    (fun n hn => hn) (fun v hv => ?_)
  · rw [map_changeFirst hname]
    exact hg.vars
  · rcases mem_changeFirst hv with h | ⟨w, hw, rfl⟩
    · exact hg.variableAttributes v h
    · exact hattributes w (hg.variableAttributes w hw)
  · rcases mem_changeFirst hv with h | ⟨w, hw, rfl⟩
    · exact hd.resolved id v h
    · rw [hdims]
      exact hd.resolved id w hw

theorem createGroup (hd : d.WellFormed) (parent name : String) :
    (stateAfter (createGroup parent name d)).WellFormed := by
  refine stateAfter_checked hd fun id hcheck => ?_
  obtain ⟨-, hid, hfree⟩ := checkGroup_eq_ok_iff.mp hcheck
  have hnone : d.child? id name = none := by
    simp only [isNameTaken, Bool.or_eq_false_iff] at hfree
    simpa using hfree.2
  exact hd.addGroup (hd.lt_size_of_groupId hid) rfl hnone

/-- A variable can only be created over dimensions that exist and under a free name. -/
theorem createVariable (hd : d.WellFormed) (path : String) (definition : VariableDefinition) :
    (stateAfter (createVariable path definition d)).WellFormed := by
  refine stateAfter_checked hd fun ⟨id, shape⟩ hcheck => ?_
  obtain ⟨-, hfree, hshape⟩ := checkVariable_eq_ok_iff.mp hcheck
  have hg := hd.groups id
  have hnew : definition.name ∉ (d.group id).vars.map (·.name) := by
    simp only [isNameTaken, Bool.or_eq_false_iff] at hfree
    simpa using hfree.1
  refine hd.changeGroup rfl rfl ⟨hg.attributes, hg.dimensions, ?_, fun v hv => ?_⟩
    (fun n hn => hn) (fun v hv p hp => ?_)
  -- the new name stands behind the others and is none of them
  · rw [List.map_append, List.nodup_append]
    refine ⟨hg.vars, by simp, fun a ha b hb heq => hnew ?_⟩
    obtain rfl : b = definition.name := by simpa [Variable.ofDefinition] using hb
    exact heq ▸ ha
  · rcases List.mem_append.mp hv with hv | hv
    · exact hg.variableAttributes v hv
    · -- at most the fill value is there
      obtain rfl := List.mem_singleton.mp hv
      cases hfill : definition.fillValue <;> simp [Variable.ofDefinition, hfill]
  · rcases List.mem_append.mp hv with hv | hv
    · exact hd.resolved id v hv p hp
    · obtain rfl := List.mem_singleton.mp hv
      -- its shape was computed from the dimensions, so each of them was found
      obtain ⟨size, -, dim, hdim, -⟩ := Forall₂.exists_right (shapeOf_eq_ok_iff.mp hshape) hp
      exact ⟨dim, hdim⟩

/-- Writing data keeps a dataset well formed, since sizes and layouts are all that changes. -/
theorem writeData (hd : d.WellFormed) (path : String) (selection : Selection) (data : Buffer) :
    (stateAfter (writeData path selection data d)).WellFormed := by
  refine stateAfter_checked hd fun ⟨id, v, box⟩ _ => ?_
  have hgrown : ((v.dimensions.zip box.stop).foldl growDimension d).WellFormed := by
    refine List.foldlRecOn _ _ hd fun d hd axis _ => ?_
    simp only [growDimension]
    split
    · apply hd.changeDimension
      intro dim
      rfl
    · exact hd
  exact hgrown.changeVariable id v.name (fun v => rfl) (fun v => rfl) fun v hv => hv

/-- Every operation keeps a dataset well-formed. -/
theorem apply (hd : d.WellFormed) (change : Change) : (change.apply d).WellFormed := by
  cases change with
  -- one case for each operation; a refused one changes nothing
  | group parent name => exact hd.createGroup parent name
  | dimension path name size =>
    refine stateAfter_checked hd fun id hcheck => hd.appendDimension ?_
    have hnew := (checkDimension_eq_ok_iff.mp hcheck).2
    cases size <;> exact hnew
  | sizedDimension path dim =>
    exact stateAfter_checked hd fun id hcheck =>
      hd.appendDimension (checkDimension_eq_ok_iff.mp hcheck).2
  | «variable» path definition => exact hd.createVariable path definition
  | groupAttribute path name value =>
    refine stateAfter_checked hd fun id hcheck => ?_
    have hg := hd.groups id
    exact hd.changeGroup rfl rfl ⟨Attributes.nodup_set hg.attributes name value, hg.dimensions,
      hg.vars, hg.variableAttributes⟩ (fun n hn => hn) (hd.resolved id)
  | variableAttribute path name value =>
    exact stateAfter_checked hd fun a hcheck =>
      hd.changeVariable a.1 a.2.name (fun v => rfl) (fun v => rfl)
        fun v hv => Attributes.nodup_set hv name value
  | data path selection data => exact hd.writeData path selection data

end WellFormed

/-- Reachable datasets are well-formed. -/
theorem Reachable.wellFormed {d : Dataset} (h : d.Reachable) : d.WellFormed := by
  induction h with
  | create location isNested => exact WellFormed.create location isNested
  | change change _ ih => exact ih.apply change

end GroupFlattening.Dataset
