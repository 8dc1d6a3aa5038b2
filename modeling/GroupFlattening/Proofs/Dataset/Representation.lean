import GroupFlattening.Proofs.Dataset.Elements
import GroupFlattening.Proofs.Dataset.Extension
import GroupFlattening.Proofs.Dataset.Storage

/-!
# The Representation of Datasets

What is true of every reachable dataset as it is stored. Its groups form one tree, no two names that
have to differ are the same, every variable finds its dimensions, and its dense array fills a buffer
of its type that is nowhere longer than its current shape (`Intact`). Nothing that is looked up by
number is out of range, in the lists of groups and in the buffers (`InRange`): data is read, laid
out anew and written by walks that look every place up. And the buffer of a variable is zero when
the variable is created and changes by accepted writes only (`Evolves`).

That variables and groups inside one group do not share names is an invariant of its own
(`NamesApart`), kept by every operation because each looks for both kinds before it adds one.
-/

namespace GroupFlattening

/-! ## Buffers of an exact size -/

/-- Whether a buffer holds so many elements of a type, and nothing else. -/
def Buffer.Fills (type : ElementType) (count : Nat) : Buffer → Prop
  | bytes content => ¬ type.isVariableLength = true ∧ content.length = count * type.size
  | strings content => type.isVariableLength = true ∧ content.length = count

/-- As many elements as there are cells fill the buffer that is made of them. -/
theorem Buffer.fills_ofCells {type : ElementType} {cells : List Cell}
    (h : ∀ cell ∈ cells, cell.HasType type) : (ofCells type cells).Fills type cells.length := by
  rw [ofCells]
  split
  · next hvariable => exact ⟨hvariable, List.length_map _⟩
  · next hfixed =>
    -- a fixed type gives every element the same number of octets
    have hlength : ∀ part ∈ cells.map Cell.octets, part.length = type.size := by
      intro part hpart
      obtain ⟨cell, hcell, rfl⟩ := List.mem_map.mp hpart
      exact ((h cell hcell).bytes_octets hfixed).2
    refine ⟨hfixed, ?_⟩
    rw [List.flatMap, length_flatten_of_length_eq hlength, List.length_map]

namespace Dataset

open ObjectPath (split)

/-! ## Names of variables and groups -/

/-- No variable has the name of a group beside it. -/
def NamesApart (d : Dataset) : Prop :=
  ∀ id, ∀ v ∈ (d.group id).vars, ∀ c, d.groups.parent? c = some id → (d.group c).name ≠ v.name

namespace NamesApart

variable {d d' : Dataset}

/-- A new dataset has one group and no variable. -/
theorem create (location : String) (isNested : Bool) :
    (Dataset.create location isNested).NamesApart := by
  intro id v hv
  obtain ⟨path, hgroup⟩ := exists_group_create location isNested id
  rw [hgroup] at hv
  cases hv

/-- A name that is free is neither that of a variable nor that of a group. -/
theorem of_isNameTaken {id : Nat} {name : String} (h : d.isNameTaken id name = false) :
    (∀ v ∈ (d.group id).vars, v.name ≠ name) ∧
      ∀ c, d.groups.parent? c = some id → (d.group c).name ≠ name := by
  rw [isNameTaken, Bool.or_eq_false_iff] at h
  refine ⟨fun v hv hname => ?_, fun c hc hname => ?_⟩
  · have hno := List.any_eq_false.mp h.1 v hv
    simp [hname] at hno
  -- a group of this name would be found among the children
  · obtain ⟨c', hc'⟩ := exists_child? (Forest.mem_children_iff.mpr hc)
    rw [hname] at hc'
    rw [hc'] at h
    cases h.2

/-- Variables that keep their names stay apart from groups that keep theirs. -/
theorem mono (h : d.NamesApart) (hparents : ∀ c, d'.groups.parent? c = d.groups.parent? c)
    (hnames : ∀ c, (d'.group c).name = (d.group c).name)
    (hvars : ∀ id, ∀ w ∈ (d'.group id).vars, ∃ v ∈ (d.group id).vars, v.name = w.name) :
    d'.NamesApart := by
  intro id w hw c hc
  obtain ⟨v, hv, hname⟩ := hvars id w hw
  rw [hparents] at hc
  rw [hnames, ← hname]
  exact h id v hv c hc

/-- A new group keeps names apart, since its name is free among variables and groups. -/
theorem withGroup (h : d.NamesApart) {parent : Nat} {name path : String}
    (hparent : parent < d.groups.size) (hfree : d.isNameTaken parent name = false) :
    (d.withGroup parent name path).NamesApart := by
  have hbelow : ∀ p, some parent = some p → p < d.groups.size := by
    rintro p ⟨⟩
    exact hparent
  intro id v hv c hc
  rw [group_withGroup hparent] at hv ⊢
  change (d.groups.add _ _).parent? c = some id at hc
  rw [Forest.parent?_add hbelow] at hc
  -- only an old group has variables, and below it stands an old group or the new one
  split at hv
  · cases hv
  · split at hc
    · -- the group that is new
      next hnew =>
      obtain rfl := Option.some.inj hc
      rw [if_pos hnew]
      exact fun hname => (of_isNameTaken hfree).1 v hv hname.symm
    · next hold =>
      rw [if_neg hold]
      exact h id v hv c hc

/-- A change of one group keeps names apart if the group keeps its name and its variables keep
theirs or take free ones. -/
theorem changeGroup (h : d.NamesApart) {id : Nat} {change : Group → Group}
    (hname : (change (d.group id)).name = (d.group id).name)
    (hvars : ∀ w ∈ (change (d.group id)).vars, (∃ v ∈ (d.group id).vars, v.name = w.name) ∨
      d.isNameTaken id w.name = false) : (d.changeGroup id change).NamesApart := by
  intro i w hw c hc
  have hnames : ((d.changeGroup id change).group c).name = (d.group c).name := by
    rcases group_changeGroup_cases d id c change with hsame | ⟨rfl, hchanged⟩
    · rw [hsame]
    · rw [hchanged, hname]
  -- the children are the same groups under the same names, so only the variables can matter
  rw [parent?_changeGroup] at hc
  rw [hnames]
  rcases group_changeGroup_cases d id i change with hsame | ⟨rfl, hchanged⟩
  · rw [hsame] at hw
    exact h i w hw c hc
  · rw [hchanged] at hw
    rcases hvars w hw with ⟨v, hv, hsame⟩ | hfree
    · rw [← hsame]
      exact h i v hv c hc
    · exact (of_isNameTaken hfree).2 c hc

/-- Every operation keeps names apart: what it adds has a name that was free. -/
theorem of_effect (h : d.NamesApart) (hd : d.WellFormed) {change : Change}
    (heffect : Effect d change d') : d'.NamesApart := by
  cases heffect with
  | rejected => exact h
  | group path hid hfree => exact h.withGroup hid hfree
  | revised _ hname hpath hdims hvars =>
    -- a revised variable has the name it had
    refine h.changeGroup hname fun w hw => Or.inl ?_
    obtain ⟨v, hv, hrevises⟩ := Forall₂.exists_left hvars hw
    exact ⟨v, hv, hrevises.keeps.name.symm⟩
  | «variable» hid hfree hshape =>
    refine h.changeGroup rfl fun w hw => ?_
    -- a variable is an old one or the new one, whose name was free
    rcases List.mem_append.mp hw with hw | hw
    · exact Or.inl ⟨w, hw, rfl⟩
    · obtain rfl := List.mem_singleton.mp hw
      exact Or.inr hfree
  | @data _ _ data id v box hcheck =>
    -- writing data changes the layouts of variables, the sizes of dimensions, and no name
    have hgroup := group_store hd (checkWrite_eq_ok_iff.mp hcheck).1 box data
    refine h.mono (tree_store d id v box data).2 (fun c => by rw [hgroup]; rfl) fun i w hw => ?_
    rw [hgroup] at hw
    simp only at hw
    split at hw
    · obtain ⟨u, hu, rfl⟩ := List.mem_map.mp hw
      refine ⟨u, hu, ?_⟩
      split
      · next hname => exact beq_iff_eq.mp hname
      · rfl
    · exact ⟨w, hw, rfl⟩

end NamesApart

/-- In a reachable dataset a variable and a group inside the same group have different names. -/
theorem Reachable.namesApart {d : Dataset} (h : d.Reachable) : d.NamesApart := by
  induction h with
  | create location isNested => exact .create location isNested
  | change change hd ih => exact ih.of_effect hd.wellFormed (change.effect hd.wellFormed)

/-! ## Dense arrays -/

/-- The dense array of a variable in its buffer. -/
def Variable.storage (v : Variable) : Storage := v.layout.storage

/-- What a variable holds are cells of its type. -/
theorem Variable.Holds.hasType_layout {v : Variable} {shape : Shape} (h : v.Holds shape) :
    v.layout.HasType := by
  intro cell hcell
  obtain ⟨index, -, rfl⟩ := List.mem_map.mp hcell
  exact h.hasType index

/-- The buffer of a variable has as many elements as its stored shape. -/
theorem Variable.Holds.fills {v : Variable} {shape : Shape} (h : v.Holds shape) :
    v.storage.buffer.Fills v.type v.stored.volume := by
  have hfills := Buffer.fills_ofCells h.hasType_layout
  rwa [v.layout.length_elements] at hfills

/-- A revision of a variable does not touch its storage. -/
theorem Variable.Revises.storage_eq {v w : Variable} (h : v.Revises w) : w.storage = v.storage := by
  rw [h]
  rfl

section Access

variable {d : Dataset} (hd : d.WellFormed) (hs : d.WellStored) {path : String} {id : Nat}
  {v : Variable} (hfind : d.findVariable path = .ok (id, v))

include hd hs hfind

/-- The stored shape has an axis for every dimension. -/
theorem length_stored : v.stored.length = (d.currentShape v).length :=
  (holds_of_findVariable hd hs hfind).2.stored_le.length_eq

/-- Data that can be read is read from the buffer, and no place is out of range. -/
theorem read?_of_readData {selection : Selection} {data : Buffer}
    (h : d.readData path selection = .ok data) :
    v.storage.read? (selection.bounds (d.currentShape v)) = some data := by
  obtain ⟨hshape, hholds⟩ := holds_of_findVariable hd hs hfind
  have hstored := length_stored hd hs hfind
  have hfits : selection.fits (d.currentShape v) = true := by
    rw [readData_eq hfind hshape] at h
    split at h
    · next hfits => exact hfits
    · cases h
  -- the walk needs a start and a count for every axis, of the whole variable as of a box
  have hranks : (selection.bounds (d.currentShape v)).start.length = v.stored.length ∧
      (selection.bounds (d.currentShape v)).count.length = v.stored.length := by
    cases selection with
    | all => simp [Selection.bounds, Box.whole, hstored]
    | box box =>
      obtain ⟨hrank, hstop⟩ := Box.fits_iff.mp hfits
      have hlength := hstop.length_eq
      rw [Box.stop, List.length_zipWith] at hlength
      simp only [Selection.bounds]
      omega
  rw [eq_read_of_readData hfind h, ← Variable.read_layout hholds]
  exact Layout.read?_storage hholds.hasType_layout hranks.1 hranks.2

/-- Data that is accepted is written to the buffer, and no place is out of range. -/
theorem write?_written {selection : Selection} {data : Buffer} {box : Box}
    (hcheck : checkWrite path selection data d = .ok (id, v, box)) :
    v.storage.write? ((d.store id v box data).currentShape v) box data =
      some (d.written v box data).storage := by
  obtain ⟨hshape, hholds⟩ := holds_of_findVariable hd hs hfind
  obtain ⟨-, hsuits, shape, hshape', -, ⟨hstart, hlength⟩, hcount, -⟩ :=
    checkWrite_eq_ok_iff.mp hcheck
  have hrank : shape.length = v.dimensions.length := by
    rw [shape_eq_of_shapeOf hshape', List.length_map]
  have hends : box.stop.length = v.dimensions.length := by
    rw [Box.stop, List.length_zipWith, hstart, hlength, Nat.min_self, hrank]
  have hstored : v.stored.length = ((d.store id v box data).currentShape v).length := by
    rw [length_stored hd hs hfind, currentShape, currentShape, List.length_map, List.length_map]
  -- data is written after the shape has grown, so no place of the box is outside
  have hinside : ∀ index ∈ box.indices,
      Shape.Within ((d.store id v box data).currentShape v) index :=
    fun index hindex => Box.within_of_mem_indices hindex (stop_le_currentShape hd hfind hends)
  have hlayout := layout_written hd hfind hholds hsuits (hstart.trans hrank)
    (hlength.trans hrank) hcount
  rw [Variable.storage, Variable.storage, hlayout]
  exact Layout.write?_storage hholds.hasType_layout hstored (hstart.trans hlength.symm) hinside
    hsuits hcount

end Access

/-! ## What is stored -/

/-- The facts about a dataset as it is stored. -/
structure Intact (d : Dataset) : Prop where
  /-- The groups form one tree with the first group as its root. -/
  root_lt : rootId < d.groups.size
  root : ∀ id, rootId ∉ d.groups.children id
  parent : ∀ c < d.groups.size, c ≠ rootId →
    ∃ p < c, ∀ id, c ∈ d.groups.children id ↔ id = p
  children : ∀ id, (d.groups.children id).Nodup
  /-- Names that have to differ do. -/
  attributes : ∀ id, ((d.group id).attributes.map (·.1)).Nodup
  dimensions : ∀ id, ((d.group id).dimensions.map (·.name)).Nodup
  members : ∀ id, ((d.group id).vars.map (·.name) ++
    (d.groups.children id).map fun c => (d.group c).name).Nodup
  variableAttributes : ∀ id, ∀ v ∈ (d.group id).vars, (v.attributes.map (·.1)).Nodup
  /-- Every dimension of a variable is found in its place. -/
  resolved : ∀ id, ∀ v ∈ (d.group id).vars, ∀ path ∈ v.dimensions, ∃ i k dim,
    d.dimensionAt? path = some (i, k) ∧ (d.group i).dimensions[k]? = some dim ∧
      d.dimension path = .ok dim
  /-- The stored shape has the rank of the variable and is nowhere longer than the current one. -/
  stored : ∀ id, ∀ v ∈ (d.group id).vars, ∃ shape, d.shapeOf v.dimensions = .ok shape ∧
    v.stored.length = v.dimensions.length ∧ List.Forall₂ (· ≤ ·) v.stored shape
  /-- The buffer has the kind of the type and the size of the stored shape. -/
  buffers : ∀ id, ∀ v ∈ (d.group id).vars, v.storage.shape = v.stored ∧
    v.storage.buffer.Fills v.type v.stored.volume

/-- Nothing that is looked up by number is out of range, whatever the arguments of an operation. -/
structure InRange (d : Dataset) : Prop where
  groups : ∀ path id, d.groupId path = .ok id → id < d.groups.size
  children : ∀ id, ∀ c ∈ d.groups.children id, c < d.groups.size
  /-- All variables of a group can be listed. -/
  infos : ∀ path id, d.groupId path = .ok id → ∃ infos, d.variableInfos path = .ok infos
  /-- A box of the rank of a variable ends somewhere on every axis. -/
  ends : ∀ path id v (box : Box), d.findVariable path = .ok (id, v) →
    box.start.length = v.dimensions.length → box.count.length = v.dimensions.length →
      ∀ axis < v.dimensions.length, (box.end? axis).isSome
  /-- Data that can be read is read from the buffer. -/
  reads : ∀ path selection data, d.readData path selection = .ok data →
    ∃ id v, d.findVariable path = .ok (id, v) ∧
      v.storage.read? (selection.bounds (d.currentShape v)) = some data
  /-- Data that is accepted is written to the buffer. -/
  writes : ∀ path selection data d', writeData path selection data d = .ok () d' →
    ∃ id v w, d.findVariable path = .ok (id, v) ∧ d'.findVariable path = .ok (id, w) ∧
      v.storage.write? (d'.currentShape v) (selection.bounds (d.currentShape v)) data =
        some w.storage

/-- What becomes of buffers in an operation. -/
structure Evolves (d : Dataset) (change : Change) (d' : Dataset) : Prop where
  /-- A buffer is kept, or it is that of the variable that data is written to. -/
  kept : ∀ (id k : Nat) v, (d.group id).vars[k]? = some v →
    ∃ w, (d'.group id).vars[k]? = some w ∧
      (w.storage = v.storage ∨ ∃ path selection data, change = .data path selection data ∧
        d.findVariable path = .ok (id, v) ∧
          v.storage.write? (d'.currentShape v) (selection.bounds (d.currentShape v)) data =
            some w.storage)
  /-- The buffer of a variable that is new is zero. -/
  created : ∀ (id k : Nat) w, (d'.group id).vars[k]? = some w → (d.group id).vars[k]? = none →
    w.storage = Storage.zeroed w.type w.stored ∧ d.shapeOf w.dimensions = .ok w.stored

namespace Reachable

variable {d : Dataset}

/-- No two members of a group share a name, be they variables or groups. -/
theorem nodup_members (hd : d.Reachable) (id : Nat) : ((d.group id).vars.map (·.name) ++
    (d.groups.children id).map fun c => (d.group c).name).Nodup := by
  have hform := hd.wellFormed
  rw [List.nodup_append]
  refine ⟨(hform.groups id).vars, ?_, ?_⟩
  · refine List.Nodup.map_on (fun c hc c' hc' heq => hform.siblings id c c' hc hc' heq) ?_
    exact Forest.nodup_children d.groups id
  -- a variable and a group: the names are kept apart
  · intro name hname name' hname' heq
    obtain ⟨v, hv, rfl⟩ := List.mem_map.mp hname
    obtain ⟨c, hc, rfl⟩ := List.mem_map.mp hname'
    exact hd.namesApart id v hv c (Forest.mem_children_iff.mp hc) heq.symm

/-- Every reachable dataset is intact. -/
theorem intact (hd : d.Reachable) : d.Intact := by
  have hform := hd.wellFormed
  refine
    { root_lt := hform.root_lt
      root := fun id hroot => ?_
      parent := fun c hc hne => ?_
      children := Forest.nodup_children d.groups
      attributes := fun id => (hform.groups id).attributes
      dimensions := fun id => (hform.groups id).dimensions
      members := hd.nodup_members
      variableAttributes := fun id => (hform.groups id).variableAttributes
      resolved := fun id v hv path hpath => ?_
      stored := fun id v hv => ?_
      buffers := fun id v hv => ⟨rfl, (hd.wellStored id v hv).fills⟩ }
  -- nothing is above the root
  · rw [Forest.mem_children_iff, hform.parent?_root] at hroot
    cases hroot
  -- every other group is listed by its parent and by no other group
  · obtain ⟨p, hp⟩ := hform.rooted c hc hne
    refine ⟨p, Forest.parent?_lt hp, fun id => ?_⟩
    rw [Forest.mem_children_iff, hp, Option.some.injEq, eq_comm]
  -- the dimensions of a variable are found where they were when it was created
  · obtain ⟨dim, hdim⟩ := hform.resolved id v hv path hpath
    obtain ⟨i, k, hplace, hget⟩ := exists_dimensionAt? hdim
    exact ⟨i, k, dim, hplace, hget, hdim⟩
  -- what is stored is nowhere longer than the dimensions are now
  · have hle := (hd.wellStored id v hv).stored_le
    refine ⟨_, hform.shapeOf_eq hv, ?_, hle⟩
    rw [hle.length_eq, currentShape, List.length_map]

/-- Nothing that is looked up by number in a reachable dataset is missing. -/
theorem inRange (hd : d.Reachable) : d.InRange := by
  have hform := hd.wellFormed
  have hstored := hd.wellStored
  refine
    { groups := fun path id hid => hform.lt_size_of_groupId hid
      children := fun id c hc => Forest.lt_size_of_mem_children hc
      infos := fun path id hid => ?_
      ends := fun path id v box hfind hstart hcount axis haxis => ?_
      reads := fun path selection data hread => ?_
      writes := fun path selection data d' hwrite => ?_ }
  -- every variable of the group has a shape, so all of them can be listed
  · refine ⟨(d.group id).vars.map fun v => ⟨v.name, v.type, v.dimensions, d.currentShape v⟩, ?_⟩
    refine Except.bind_eq_ok_iff.mpr ⟨id, hid, Except.mapM_eq_ok_iff.mpr ?_⟩
    rw [List.forall₂_map_right_iff, List.forall₂_same]
    intro v hv
    rw [infoOf, hform.shapeOf_eq hv]
    rfl
  · rw [Box.end?_eq, Box.stop]
    simp [hstart, hcount, haxis]
  -- a read that is accepted is one whose walk finds every element
  · obtain ⟨⟨v, box⟩, hcheck, -⟩ := Except.bind_eq_ok_iff.mp hread
    obtain ⟨⟨id, w⟩, hfind, -⟩ := Except.bind_eq_ok_iff.mp hcheck
    exact ⟨id, w, hfind, read?_of_readData hform hstored hfind hread⟩
  -- so is a write, and the variable is found again with what has been written
  · obtain ⟨⟨id, v, box⟩, hcheck, heq⟩ := checked_eq_ok_iff.mp hwrite
    obtain ⟨-, rfl⟩ := Prod.mk.inj heq
    obtain ⟨hfind, -, shape, hshape, rfl, -⟩ := checkWrite_eq_ok_iff.mp hcheck
    obtain rfl : shape = d.currentShape v := shape_eq_of_shapeOf hshape
    have hfound := findVariable_store hform hfind (selection.bounds (d.currentShape v)) data hfind
    rw [if_pos ⟨rfl, rfl⟩] at hfound
    exact ⟨id, v, _, hfind, hfound, write?_written hform hstored hfind hcheck⟩

end Reachable

/-! ## How buffers evolve -/

section Evolution

variable {d d' : Dataset} {change : Change}

/-- Where no variable is added and none is written, buffers are kept. -/
theorem Evolves.of_kept (hvars : ∀ id, List.Forall₂ (fun v w : Variable => w.storage = v.storage)
    (d.group id).vars (d'.group id).vars) : d.Evolves change d' := by
  refine ⟨fun id k v hv => ?_, fun id k w hw hnone => ?_⟩
  · obtain ⟨w, hw, hsame⟩ := KeepsPlaces.of_forall₂ (hvars id) k v hv
    exact ⟨w, hw, Or.inl hsame⟩
  -- there are as many variables as before, so none of them is new
  · have hlt := (List.getElem?_eq_some_iff.mp hw).1
    have hge := List.getElem?_eq_none_iff.mp hnone
    rw [(hvars id).length_eq] at hge
    exact absurd hlt (Nat.not_lt.mpr hge)

/-- A new group has no variables, and the others keep theirs. -/
theorem vars_withGroup {parent : Nat} (hparent : parent < d.groups.size) (name path : String)
    (id : Nat) : ((d.withGroup parent name path).group id).vars = (d.group id).vars := by
  rw [group_withGroup hparent]
  split
  · next hnew =>
    rw [group_of_size_le (Nat.le_of_eq hnew.symm)]
    rfl
  · rfl

/-- A revision of a group evolves no buffer. -/
theorem evolves_revise {id : Nat} {revise : Group → Group}
    (hvars : List.Forall₂ Variable.Revises (d.group id).vars (revise (d.group id)).vars) :
    d.Evolves change (d.changeGroup id revise) := by
  apply Evolves.of_kept
  intro i
  rcases group_changeGroup_cases d id i revise with h | ⟨rfl, h⟩
  · rw [h, List.forall₂_same]
    intro v _
    rfl
  · rw [h]
    exact hvars.imp fun _ _ => Variable.Revises.storage_eq

/-- A variable that is added stands behind the others and holds zeros. -/
theorem evolves_addVariable {id : Nat} {definition : VariableDefinition} {shape : Shape}
    (hshape : d.shapeOf definition.dimensions = .ok shape) :
    d.Evolves change (d.changeGroup id fun g =>
      { g with vars := g.vars ++ [Variable.ofDefinition definition shape] }) := by
  refine ⟨fun i k v hv => ⟨v, ?_, Or.inl rfl⟩, fun i k w hw hnone => ?_⟩
  all_goals rcases group_changeGroup_cases d id i (fun g =>
      { g with vars := g.vars ++ [Variable.ofDefinition definition shape] }) with h | ⟨rfl, h⟩
  -- variables that were there, in other groups and in the one that changes
  · rw [h, hv]
  · rw [h]
    exact (List.getElem?_append_left (List.getElem?_eq_some_iff.mp hv).1).trans hv
  -- a variable that was not there can only be the one that is added
  · rw [h, hnone] at hw
    cases hw
  · rw [h, List.getElem?_append_right (List.getElem?_eq_none_iff.mp hnone)] at hw
    obtain rfl := List.mem_singleton.mp (List.mem_of_getElem? hw)
    refine ⟨?_, hshape⟩
    rw [Variable.storage, Variable.layout_ofDefinition, Layout.storage_zeroed]
    rfl

/-- Writing data evolves the buffer of the variable that is written, by this write, and no other
one. -/
theorem evolves_store (hd : d.WellFormed) (hs : d.WellStored) {path : String}
    {selection : Selection} {data : Buffer} {id : Nat} {v : Variable} {box : Box}
    (hcheck : checkWrite path selection data d = .ok (id, v, box)) :
    d.Evolves (.data path selection data) (d.store id v box data) := by
  obtain ⟨hfind, -, shape, hshape, rfl, -⟩ := checkWrite_eq_ok_iff.mp hcheck
  obtain rfl : shape = d.currentShape v := shape_eq_of_shapeOf hshape
  have hgroup := group_store hd hfind (selection.bounds (d.currentShape v)) data
  refine ⟨fun i k w hw => ?_, fun i k w hw hnone => ?_⟩
  · rw [hgroup]
    simp only
    split
    · next hi =>
      subst hi
      rw [List.getElem?_map, hw, Option.map_some]
      refine ⟨_, rfl, ?_⟩
      split
      · next hname =>
        -- the variable of this name is the one that is written
        obtain rfl := hd.eq_of_name (mem_vars_of_findVariable hfind) (List.mem_of_getElem? hw)
          (beq_iff_eq.mp hname)
        exact Or.inr ⟨path, selection, data, rfl, hfind, write?_written hd hs hfind hcheck⟩
      · exact Or.inl rfl
    · exact ⟨w, hw, Or.inl rfl⟩
  -- no variable is added
  · rw [hgroup] at hw
    simp only at hw
    split at hw
    · rw [List.getElem?_map, hnone] at hw
      cases hw
    · rw [hnone] at hw
      cases hw

/-- Whatever an operation does, buffers evolve by accepted writes only. -/
theorem Effect.evolves (hd : d.WellFormed) (hs : d.WellStored) (h : Effect d change d') :
    d.Evolves change d' := by
  cases h with
  | rejected => exact .of_kept fun id => List.forall₂_same.mpr fun v _ => rfl
  | group path hid hfree =>
    apply Evolves.of_kept
    intro id
    rw [vars_withGroup hid, List.forall₂_same]
    intro v _
    rfl
  | revised _ hname hpath hdims hvars => exact evolves_revise hvars
  | «variable» hid hfree hshape => exact evolves_addVariable hshape
  | data hcheck => exact evolves_store hd hs hcheck

end Evolution

/-- A reachable dataset is intact, nothing that its operations look up by number is out of range,
and every later dataset extends it: dimensions do not become smaller, and every path that leads to a
dimension leads to the same one for good. Buffers are zero at first and change by accepted writes.
-/
theorem representation_of_reachable {d : Dataset} (hd : d.Reachable) :
    d.Intact ∧ d.InRange ∧
      (∀ changes, d.Extends (d.applyAll changes) ∧ ∀ path place,
        d.dimensionAt? path = some place → (d.applyAll changes).dimensionAt? path = some place) ∧
      ∀ change, d.Evolves change (change.apply d) := by
  refine ⟨hd.intact, hd.inRange, fun changes => ?_, fun change => ?_⟩
  · have hextends := hd.wellFormed.extends_applyAll changes
    exact ⟨hextends, fun path place hplace => hextends.dimensionAt?_eq hplace⟩
  · exact (change.effect hd.wellFormed).evolves hd.wellFormed hd.wellStored

/-- A third column of heights moves the second row in the buffer of the heights; the buffer of the
widths stays as it is, and shorter than the columns. -/
theorem grid_represented : grid.Reachable ∧ grid.Intact ∧ grid.InRange ∧
    ∃ d', Change.apply grid (.data "/height" (.box ⟨[0, 2], [2, 1]⟩) (.bytes [5, 6])) = d' ∧
      grid.Extends d' ∧
      (d'.group rootId).vars.map Variable.storage =
        [⟨.byte, [2, 3], .bytes [1, 2, 5, 3, 4, 6]⟩, ⟨.byte, [2], .bytes [0, 0]⟩] ∧
      (d'.shapeOf ["/column"]).toOption = some [3] ∧
      grid.dimensionAt? "/column" = some (rootId, 1) ∧
      d'.dimensionAt? "/column" = some (rootId, 1) := by
  have hgrid : grid.Reachable := (Reachable.create "grid" true).applyAll _
  obtain ⟨hintact, hrange, hlater, -⟩ := representation_of_reachable hgrid
  obtain ⟨hextends, hplaces⟩ :=
    hlater [.data "/height" (.box ⟨[0, 2], [2, 1]⟩) (.bytes [5, 6])]
  have hplace : grid.dimensionAt? "/column" = some (rootId, 1) := by decide +kernel
  exact ⟨hgrid, hintact, hrange, _, rfl, hextends, by decide +kernel, by decide +kernel, hplace,
    hplaces _ _ hplace⟩

end Dataset

end GroupFlattening
