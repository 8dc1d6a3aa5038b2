import GroupFlattening.Proofs.Dataset.Write
import GroupFlattening.Proofs.Dimension

/-!
# Flat Datasets

A flat dataset is its root group: every path that leads to a group leads to the root. What a write
does to it is therefore said as a change of the root group alone. A fixed dataset `base` supplies
everything else, and `base.withRoot g` runs through all states of a flat output.

The first section needs nothing of names. The second one is about paths joined from the root and a
name without separators, which lead to the objects of that name.
-/

namespace GroupFlattening.Dataset

open ObjectPath (join split separator)

/-! ## Variables that read alike -/

/-- Whether reading cannot tell two variables apart. -/
structure Variable.ReadsAs (w v : Variable) : Prop where
  name : w.name = v.name
  type : w.type = v.type
  dimensions : w.dimensions = v.dimensions
  cell : w.cell = v.cell

namespace Variable

theorem ReadsAs.refl (v : Variable) : v.ReadsAs v := ⟨rfl, rfl, rfl, rfl⟩

theorem ReadsAs.read {w v : Variable} (h : w.ReadsAs v) (box : Box) : w.read box = v.read box := by
  unfold Variable.read
  rw [h.type, h.cell]

/-- Lists of variables that read alike have variables of the same names, and these read alike. -/
theorem find?_readsAs {ws vs : List Variable} (h : List.Forall₂ ReadsAs ws vs) (name : String) :
    ((ws.find? fun w => w.name == name) = none ∧ (vs.find? fun v => v.name == name) = none) ∨
      ∃ w v, (ws.find? fun w => w.name == name) = some w ∧
        (vs.find? fun v => v.name == name) = some v ∧ w.ReadsAs v := by
  induction h with
  -- along both lists; the variables at each place have the same name, so both searches stop there
  | nil => exact Or.inl ⟨rfl, rfl⟩
  | cons halike _ ih =>
    rw [List.find?_cons, List.find?_cons, halike.name]
    split
    · exact Or.inr ⟨_, _, rfl, rfl, halike⟩
    · exact ih

end Variable

/-! ## The root group -/

/-- A dataset with no group but the root. -/
def IsFlat (d : Dataset) : Prop := d.groups.size = 1

/-- The root group. -/
def root (d : Dataset) : Group := d.group rootId

/-- The dataset with its root group replaced. -/
def withRoot (d : Dataset) (g : Group) : Dataset := d.changeGroup rootId fun _ => g

/-- A dataset whose root has no groups inside is flat. -/
theorem WellFormed.isFlat {d : Dataset} (hd : d.WellFormed)
    (h : d.groups.children rootId = []) : d.IsFlat := by
  refine Nat.le_antisymm (Nat.le_of_not_lt fun hlt => ?_) hd.root_lt
  -- the parent of the second group can only be the root
  obtain ⟨p, hp⟩ := hd.rooted 1 hlt (by decide)
  obtain rfl : p = rootId := Nat.lt_one_iff.mp (Forest.parent?_lt hp)
  have hmem := Forest.mem_children_iff.mpr hp
  rw [h] at hmem
  cases hmem

@[simp] theorem groupNames_root (d : Dataset) : d.groupNames ObjectPath.root =
    .ok ((d.groups.children rootId).map fun c => (d.group c).name) := by
  rw [groupNames, groupId_root]
  rfl

/-- A change of the root is a change of the group that stands there. -/
theorem changeGroup_withRoot (d : Dataset) (g : Group) (change : Group → Group) :
    (d.withRoot g).changeGroup rootId change = d.withRoot (change g) := by
  simp only [withRoot, changeGroup, Forest.modify_modify]
  rfl

namespace IsFlat

variable {base : Dataset} (hb : base.IsFlat) {g : Group}

include hb

/-- The root of the dataset is the group that was put there. -/
theorem root_withRoot : (base.withRoot g).root = g :=
  group_changeGroup_self base (hb ▸ Nat.zero_lt_one) _

/-- Putting its own root in place leaves a flat dataset as it is. -/
theorem withRoot_root : base.withRoot base.root = base := by
  have hgroups : base.groups.modify rootId (fun _ => base.root) = base.groups := by
    -- node by node; the only node is the root
    apply Forest.ext
    apply Array.ext_getElem?
    intro i
    simp only [Forest.modify, Forest.getElem?_relabel]
    by_cases hi : rootId = i
    · subst hi
      have hlt : rootId < base.groups.nodes.size := Nat.lt_of_lt_of_eq Nat.zero_lt_one hb.symm
      simp [root, group, Forest.label?, Array.getElem?_eq_getElem hlt]
    · simp [hi]
  show { base with groups := base.groups.modify rootId fun _ => base.root } = base
  rw [hgroups]

/-- A flat dataset with another root is flat. -/
theorem withRoot : (base.withRoot g).IsFlat := by
  rw [IsFlat, Dataset.withRoot, size_changeGroup]
  exact hb

/-- A flat dataset has no groups inside groups. -/
theorem child?_eq_none (id : Nat) (name : String) : base.child? id name = none := by
  cases h : base.child? id name with
  | none => rfl
  | some c =>
    have hc := (child?_eq_some h).1
    have hpos := Forest.lt_of_mem_children hc
    have hlt := Forest.lt_size_of_mem_children hc
    rw [hb] at hlt
    omega

/-- Which paths lead to a group does not depend on what the root holds. -/
theorem groupId_withRoot (path : String) :
    (base.withRoot g).groupId path = base.groupId path := by
  have hchild : (base.withRoot g).child? = base.child? := by
    funext id name
    rw [hb.withRoot.child?_eq_none, hb.child?_eq_none]
  simp only [groupId, descend?, hchild]

/-- A path that leads to a group of a flat dataset leads to the root. -/
theorem groupId_eq {path : String} {id : Nat} (h : base.groupId path = .ok id) : id = rootId := by
  rw [groupId_eq_ok_iff, descend?] at h
  cases hnames : ObjectPath.components path with
  | nil =>
    rw [hnames] at h
    exact (Option.some.inj h).symm
  | cons name rest =>
    rw [hnames, List.foldlM_cons, hb.child?_eq_none] at h
    cases h

/-! ## Accepted writes -/

section Writes

variable {d' : Dataset} {path name : String} {value : AttributeValue}

/-- A group attribute that is set is set in the root. -/
theorem setGroupAttribute
    (h : setGroupAttribute path name value (base.withRoot g) = .ok () d') :
    d' = base.withRoot { g with attributes := g.attributes.set name value } := by
  obtain ⟨id, hid, heq⟩ := checked_eq_ok_iff.mp h
  obtain rfl := hb.withRoot.groupId_eq hid
  rw [changeGroup_withRoot] at heq
  exact (Prod.mk.inj heq).2.symm

/-- A dimension that is created is new and stands behind the other dimensions of the root. -/
theorem createDimension {size : Option Nat}
    (h : createDimension path name size (base.withRoot g) = .ok () d') :
    name ∉ g.dimensions.map (·.name) ∧
      d' = base.withRoot { g with dimensions := g.dimensions ++ [Dimension.create name size] } := by
  obtain ⟨id, hid, heq⟩ := checked_eq_ok_iff.mp h
  obtain ⟨hid, hnew⟩ := checkDimension_eq_ok_iff.mp hid
  obtain rfl := hb.withRoot.groupId_eq hid
  rw [appendDimension, changeGroup_withRoot] at heq
  exact ⟨by rwa [← root, hb.root_withRoot] at hnew, (Prod.mk.inj heq).2.symm⟩

/-- A variable that is created is new and stands behind the other variables of the root. -/
theorem createVariable {definition : VariableDefinition}
    (h : createVariable path definition (base.withRoot g) = .ok () d') :
    definition.name ∉ g.vars.map (·.name) ∧
      ∃ shape, (base.withRoot g).shapeOf definition.dimensions = .ok shape ∧
        d' = base.withRoot { g with vars := g.vars ++ [.ofDefinition definition shape] } := by
  obtain ⟨⟨id, shape⟩, hcheck, heq⟩ := checked_eq_ok_iff.mp h
  obtain ⟨hid, hfree, hshape⟩ := checkVariable_eq_ok_iff.mp hcheck
  obtain rfl := hb.withRoot.groupId_eq hid
  have hd' := (Prod.mk.inj heq).2
  rw [changeGroup_withRoot] at hd'
  refine ⟨?_, shape, hshape, hd'.symm⟩
  -- the check looks at variables and groups, but there are no groups
  have hroot : (base.withRoot g).group rootId = g := hb.root_withRoot
  simp only [isNameTaken, hroot, Bool.or_eq_false_iff] at hfree
  simpa using hfree.1

/-- A variable that is found by a path is one of the root. -/
theorem findVariable {id : Nat} {v : Variable}
    (h : (base.withRoot g).findVariable path = .ok (id, v)) :
    id = rootId ∧ g.vars.find? (fun w => w.name == (split path).2) = some v := by
  obtain ⟨hid, hfind⟩ := findVariable_eq_ok_iff.mp h
  obtain rfl := hb.withRoot.groupId_eq hid
  exact ⟨rfl, by rwa [← root, hb.root_withRoot] at hfind⟩

/-- A variable attribute that is set changes the variable that the path leads to, and nothing else.
-/
theorem setVariableAttribute
    (h : setVariableAttribute path name value (base.withRoot g) = .ok () d') :
    ∃ v, g.vars.find? (fun w => w.name == (split path).2) = some v ∧
      d' = base.withRoot { g with
        vars := changeFirst (fun w => w.name == v.name)
          (fun w => { w with attributes := w.attributes.set name value }) g.vars } := by
  obtain ⟨⟨id, v⟩, hfind, heq⟩ := checked_eq_ok_iff.mp h
  obtain ⟨rfl, hv⟩ := hb.findVariable hfind
  have hd' := (Prod.mk.inj heq).2
  rw [changeVariable, changeGroup_withRoot] at hd'
  exact ⟨v, hv, hd'.symm⟩

/-- Growing a dimension of a flat dataset changes at most the dimensions of the root. -/
theorem growDimension (axis : String × Nat) :
    ∃ dims, growDimension (base.withRoot g) axis =
      base.withRoot { g with dimensions := dims } := by
  simp only [Dataset.growDimension]
  cases hid : (base.withRoot g).groupId (split axis.1).1 with
  | error fault => exact ⟨g.dimensions, rfl⟩
  | ok id =>
    obtain rfl := hb.withRoot.groupId_eq hid
    exact ⟨_, changeGroup_withRoot ..⟩

/-- Growing dimensions changes nothing but the dimensions of the root. -/
theorem foldl_growDimension (axes : List (String × Nat)) :
    ∃ dims, axes.foldl Dataset.growDimension (base.withRoot g) =
      base.withRoot { g with dimensions := dims } := by
  induction axes generalizing g with
  | nil => exact ⟨g.dimensions, rfl⟩
  | cons axis rest ih =>
    obtain ⟨dims, hdims⟩ := hb.growDimension (g := g) axis
    rw [List.foldl_cons, hdims]
    exact ih

/-- Data that is written leaves the attributes of the root alone. -/
theorem writeData {selection : Selection} {data : Buffer}
    (h : writeData path selection data (base.withRoot g) = .ok () d') :
    ∃ dims vars, d' = base.withRoot { g with dimensions := dims, vars := vars } := by
  obtain ⟨⟨id, v, box⟩, hcheck, heq⟩ := checked_eq_ok_iff.mp h
  obtain ⟨rfl, -⟩ := hb.findVariable (checkWrite_eq_ok_iff.mp hcheck).1
  obtain ⟨dims, hdims⟩ := hb.foldl_growDimension (g := g) (v.dimensions.zip box.stop)
  rw [← (Prod.mk.inj heq).2, store, hdims]
  exact ⟨dims, _, changeGroup_withRoot ..⟩

end Writes

/-! ## Paths of root objects -/

section Paths

variable {name : String} (hname : separator ∉ name.toList)

include hname

/-- A dimension is found by its name below the root. -/
theorem dimension_join {dim : Dimension} :
    (base.withRoot g).dimension (join ObjectPath.root name) = .ok dim ↔
      g.dimensions.find? (fun x => x.name == name) = some dim := by
  have hroot : (base.withRoot g).group rootId = g := hb.root_withRoot
  rw [dimension_eq_ok_iff, ObjectPath.split_join_root hname]
  simp [hroot]

/-- A variable is found by its name below the root. -/
theorem findVariable_join {v : Variable} :
    (base.withRoot g).findVariable (join ObjectPath.root name) = .ok (rootId, v) ↔
      g.vars.find? (fun w => w.name == name) = some v := by
  have hroot : (base.withRoot g).group rootId = g := hb.root_withRoot
  rw [findVariable_eq_ok_iff, ObjectPath.split_join_root hname]
  simp [hroot]

omit hb in
/-- Growing a dimension of the root changes the dimensions of this name and no other ones. -/
theorem growDimension_join (hnodup : (g.dimensions.map (·.name)).Nodup) (size : Nat) :
    Dataset.growDimension (base.withRoot g) (join ObjectPath.root name, size) =
      base.withRoot { g with dimensions := g.dimensions.map (Dimension.grown [(name, size)]) } := by
  simp only [Dataset.growDimension, ObjectPath.split_join_root hname, groupId_root]
  rw [changeDimension, changeGroup_withRoot, changeFirst_eq_map hnodup]
  congr 2
  refine List.map_congr_left fun dim _ => ?_
  simp only [Dimension.grown, List.foldl_cons, List.foldl_nil, beq_iff_eq]
  simp only [eq_comm]

/-- Setting an attribute of a variable of the root changes the variable of this name and no other
one. -/
theorem setVariableAttribute_join {d' : Dataset} {attr : String} {value : AttributeValue}
    (h : Dataset.setVariableAttribute (join ObjectPath.root name) attr value
      (base.withRoot g) = .ok () d') :
    name ∈ g.vars.map (·.name) ∧
      d' = base.withRoot { g with
        vars := changeFirst (fun w => w.name == name)
          (fun w => { w with attributes := w.attributes.set attr value }) g.vars } := by
  obtain ⟨v, hv, hd'⟩ := hb.setVariableAttribute h
  rw [ObjectPath.split_join_root hname] at hv
  have hvname : v.name = name := by simpa using List.find?_some hv
  exact ⟨hvname ▸ List.mem_map_of_mem (List.mem_of_find?_eq_some hv), hvname ▸ hd'⟩

/-- Data written to a variable of the root leaves all other variables alone. -/
theorem writeData_named {d' : Dataset} {selection : Selection} {data : Buffer}
    (h : Dataset.writeData (join ObjectPath.root name) selection data (base.withRoot g) =
      .ok () d') :
    ∃ dims change, d' = base.withRoot { g with
      dimensions := dims, vars := changeFirst (fun w => w.name == name) change g.vars } := by
  obtain ⟨⟨id, v, box⟩, hcheck, heq⟩ := checked_eq_ok_iff.mp h
  obtain ⟨rfl, hv⟩ := hb.findVariable (checkWrite_eq_ok_iff.mp hcheck).1
  rw [ObjectPath.split_join_root hname] at hv
  have hvname : v.name = name := by simpa using List.find?_some hv
  obtain ⟨dims, hdims⟩ := hb.foldl_growDimension (g := g) (v.dimensions.zip box.stop)
  rw [← (Prod.mk.inj heq).2, store, hdims, changeVariable, changeGroup_withRoot, hvname]
  exact ⟨dims, _, rfl⟩

end Paths

omit hb in
/-- Growing the dimensions of a variable grows each dimension to the largest size asked for. -/
theorem foldl_growDimension_join {flats : List String} (hflats : ∀ f ∈ flats, separator ∉ f.toList)
    (hnodup : (g.dimensions.map (·.name)).Nodup) (sizes : List Nat) :
    ((flats.map (join ObjectPath.root)).zip sizes).foldl Dataset.growDimension (base.withRoot g) =
      base.withRoot { g with
        dimensions := g.dimensions.map (Dimension.grown (flats.zip sizes)) } := by
  -- along the dimensions: one step makes the dimensions of one name grow, and names stay unique
  induction flats generalizing g sizes with
  | nil => simp
  | cons f rest ih =>
    cases sizes with
    | nil => simp
    | cons size sizes =>
      rw [List.map_cons, List.zip_cons_cons, List.foldl_cons,
        growDimension_join (hflats f List.mem_cons_self) hnodup,
        ih (fun x hx => hflats x (List.mem_cons_of_mem _ hx))]
      · rw [List.map_map]
        rfl
      · rw [List.map_map]
        simpa [Function.comp_def] using hnodup

/-- Data written to a variable of the root grows the dimensions of that variable, and changes the
data of that variable and nothing else. -/
theorem writeData_join {name : String} (hname : separator ∉ name.toList) {flats : List String}
    (hflats : ∀ f ∈ flats, separator ∉ f.toList) (hnodup : (g.dimensions.map (·.name)).Nodup)
    {v : Variable} (hv : g.vars.find? (fun w => w.name == name) = some v)
    (hdims : v.dimensions = flats.map (join ObjectPath.root)) {d' : Dataset}
    {selection : Selection} {data : Buffer}
    (h : Dataset.writeData (join ObjectPath.root name) selection data (base.withRoot g) =
      .ok () d') :
    ∃ shape stored, (base.withRoot g).shapeOf v.dimensions = .ok shape ∧
      d' = base.withRoot { g with
        dimensions := g.dimensions.map
          (Dimension.grown (flats.zip (selection.bounds shape).stop))
        vars := changeFirst (fun w => w.name == name)
          (fun w => { w.fill (selection.bounds shape) (data.cells w.type) with stored := stored })
          g.vars } := by
  obtain ⟨⟨id, w, box⟩, hcheck, heq⟩ := checked_eq_ok_iff.mp h
  obtain ⟨hfind, -, shape, hshape, rfl, -⟩ := checkWrite_eq_ok_iff.mp hcheck
  -- the variable that is written is the one of this name
  obtain ⟨rfl, hw⟩ := hb.findVariable hfind
  rw [ObjectPath.split_join_root hname, hv] at hw
  obtain rfl := Option.some.inj hw
  have hvname : v.name = name := by simpa using List.find?_some hv
  have hd' := (Prod.mk.inj heq).2
  simp only [store] at hd'
  -- the dimensions grow first, and then the data is stored
  rw [hdims, foldl_growDimension_join hflats hnodup, changeVariable, changeGroup_withRoot,
    hvname] at hd'
  exact ⟨shape, _, hshape, hd'.symm⟩

/-! ## What was there before -/

section Append

variable (hdims : base.root.dimensions <+: g.dimensions) (hvars : base.root.vars <+: g.vars)

include hdims in
/-- A dimension of the root is still found when others have been added behind it. -/
theorem dimension_append {path : String} {dim : Dimension} (h : base.dimension path = .ok dim) :
    (base.withRoot g).dimension path = .ok dim := by
  obtain ⟨id, hid, hfind⟩ := dimension_eq_ok_iff.mp h
  obtain rfl := hb.groupId_eq hid
  have hroot : (base.withRoot g).group rootId = g := hb.root_withRoot
  have hfind : base.root.dimensions.find? (fun x => x.name == (split path).2) = some dim := hfind
  refine dimension_eq_ok_iff.mpr ⟨rootId, (hb.groupId_withRoot _).trans hid, ?_⟩
  obtain ⟨dims, hdims⟩ := hdims
  rw [hroot, ← hdims, List.find?_append, hfind]
  rfl

include hvars in
/-- A variable of the root is still found when others have been added behind it. -/
theorem findVariable_append {path : String} {id : Nat} {v : Variable}
    (h : base.findVariable path = .ok (id, v)) :
    (base.withRoot g).findVariable path = .ok (id, v) := by
  obtain ⟨hid, hfind⟩ := findVariable_eq_ok_iff.mp h
  obtain rfl := hb.groupId_eq hid
  have hroot : (base.withRoot g).group rootId = g := hb.root_withRoot
  have hfind : base.root.vars.find? (fun w => w.name == (split path).2) = some v := hfind
  refine findVariable_eq_ok_iff.mpr ⟨(hb.groupId_withRoot _).trans hid, ?_⟩
  obtain ⟨vars, hvars⟩ := hvars
  rw [hroot, ← hvars, List.find?_append, hfind]
  rfl

include hdims hvars

/-- Data that could be read is read unchanged where dimensions and variables were only appended to
those of the root. -/
theorem readData_append {path : String} {selection : Selection} {data : Buffer}
    (hread : base.readData path selection = .ok data) :
    (base.withRoot g).readData path selection = .ok data := by
  obtain ⟨⟨v, box⟩, hcheck, hdata⟩ := Except.bind_eq_ok_iff.mp hread
  obtain ⟨⟨id, w⟩, hfind, hrest⟩ := Except.bind_eq_ok_iff.mp hcheck
  -- the variable and its shape are found as before, and its data is its own
  obtain ⟨shape, hshape, hbox⟩ := Except.bind_eq_ok_iff.mp hrest
  -- every dimension is found with the size it had
  have hshape' : (base.withRoot g).shapeOf w.dimensions = .ok shape := by
    refine shapeOf_eq_ok_iff.mpr ((shapeOf_eq_ok_iff.mp hshape).imp fun path size hdim => ?_)
    obtain ⟨dim, hdim, hsize⟩ := hdim
    exact ⟨dim, hb.dimension_append hdims hdim, hsize⟩
  rw [readData, Except.bind_eq_ok_iff]
  refine ⟨(v, box), ?_, hdata⟩
  exact Except.bind_eq_ok_iff.mpr ⟨(id, w), hb.findVariable_append hvars hfind,
    Except.bind_eq_ok_iff.mpr ⟨shape, hshape', hbox⟩⟩

end Append

/-! ## Datasets that read alike -/

section Alike

variable {g' : Group}

/-- Which dimensions are found depends on the dimensions of the root alone. -/
theorem dimension_congr (hdims : g'.dimensions = g.dimensions) :
    (base.withRoot g').dimension = (base.withRoot g).dimension := by
  funext path
  simp only [dimension, hb.groupId_withRoot]
  cases hid : base.groupId (split path).1 with
  | error fault => simp only [bind, Except.bind]
  | ok id =>
    obtain rfl := hb.groupId_eq hid
    have hroot : (base.withRoot g).group rootId = g := hb.root_withRoot
    have hroot' : (base.withRoot g').group rootId = g' := hb.root_withRoot
    simp only [bind, Except.bind, hroot, hroot', hdims]

/-- A path leads to variables that read alike, or fails alike. -/
theorem findVariable_congr (hvars : List.Forall₂ Variable.ReadsAs g'.vars g.vars) (path : String) :
    (∃ fault, (base.withRoot g').findVariable path = .error fault ∧
        (base.withRoot g).findVariable path = .error fault) ∨
      ∃ w v, (base.withRoot g').findVariable path = .ok (rootId, w) ∧
        (base.withRoot g).findVariable path = .ok (rootId, v) ∧ w.ReadsAs v := by
  simp only [Dataset.findVariable, hb.groupId_withRoot]
  cases hid : base.groupId (split path).1 with
  | error fault => exact Or.inl ⟨fault, rfl, rfl⟩
  | ok id =>
    obtain rfl := hb.groupId_eq hid
    have hroot : (base.withRoot g).group rootId = g := hb.root_withRoot
    have hroot' : (base.withRoot g').group rootId = g' := hb.root_withRoot
    simp only [bind, Except.bind, hroot, hroot']
    rcases Variable.find?_readsAs hvars (split path).2 with ⟨hw, hv⟩ | ⟨w, v, hw, hv, halike⟩
    · rw [hw, hv]
      exact Or.inl ⟨_, rfl, rfl⟩
    · rw [hw, hv]
      exact Or.inr ⟨w, v, rfl, rfl, halike⟩

/-- Flat datasets with the same dimensions, whose variables read alike, give the same data and the
same faults. -/
theorem readData_congr (hdims : g'.dimensions = g.dimensions)
    (hvars : List.Forall₂ Variable.ReadsAs g'.vars g.vars) (path : String)
    (selection : Selection) :
    (base.withRoot g').readData path selection = (base.withRoot g).readData path selection := by
  -- the shape follows from the dimensions, which are the same
  have hshape : (base.withRoot g').shapeOf = (base.withRoot g).shapeOf := by
    funext paths
    unfold shapeOf
    rw [hb.dimension_congr hdims]
  unfold readData checkRead
  rcases hb.findVariable_congr hvars path with ⟨fault, hw, hv⟩ | ⟨w, v, hw, hv, halike⟩
  · simp only [hw, hv, bind, Except.bind]
  · simp only [hw, hv, bind, Except.bind, hshape, halike.dimensions]
    -- both reads fail for the same reason or read the same part of the same data
    cases (base.withRoot g).shapeOf v.dimensions with
    | error fault => rfl
    | ok shape =>
      cases hfits : selection.fits shape with
      | true => simp [hfits, pure, Except.pure, halike.read]
      | false => simp [hfits, throw, throwThe, MonadExceptOf.throw]

end Alike

end IsFlat

end GroupFlattening.Dataset
