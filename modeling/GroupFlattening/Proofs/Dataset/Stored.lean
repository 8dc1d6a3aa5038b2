import GroupFlattening.Proofs.Dataset.Cells
import GroupFlattening.Proofs.Dataset.Growth

/-!
# What Variables Hold

The cells of a variable are of its type and lie inside the shape that it was last written with, and
that shape is nowhere longer than the current sizes of its dimensions (`Variable.Holds`). This is so
in every reachable dataset (`Reachable.wellStored`): no operation makes a dimension smaller or takes
it away (`Outgrows`), and data is written inside the shape that its write leaves behind.
-/

namespace GroupFlattening.Dataset

open ObjectPath (split)

/-! ## Current shapes -/

/-- The current sizes of the dimensions of a variable. -/
def currentShape (d : Dataset) (v : Variable) : Shape := v.dimensions.map d.sizeOf

/-- The dimensions of a variable are all found, so it has a current shape. -/
theorem WellFormed.shapeOf_eq {d : Dataset} (hd : d.WellFormed) {id : Nat} {v : Variable}
    (hv : v ∈ (d.group id).vars) : d.shapeOf v.dimensions = .ok (d.currentShape v) := by
  refine shapeOf_eq_ok_iff.mpr ?_
  unfold currentShape
  rw [List.forall₂_map_right_iff, List.forall₂_same]
  intro path hpath
  obtain ⟨dim, hdim⟩ := hd.resolved id v hv path hpath
  exact ⟨dim, hdim, (sizeOf_of_dimension hdim).symm⟩

/-- Data is read as it is held if the selection fits the shape, and refused otherwise. -/
theorem readData_eq {d : Dataset} {path : String} {id : Nat} {v : Variable} {shape : Shape}
    (hfind : d.findVariable path = .ok (id, v)) (hshape : d.shapeOf v.dimensions = .ok shape)
    (selection : Selection) :
    d.readData path selection =
      if selection.fits shape then .ok (v.read (selection.bounds shape))
      else .error (.data (.outside path selection shape)) := by
  unfold readData checkRead
  cases hfits : selection.fits shape with
  | true => simp [hfind, hshape, hfits, bind, Except.bind, pure, Except.pure]
  | false => simp [hfind, hshape, hfits, bind, Except.bind, throw, throwThe, MonadExceptOf.throw]

/-- Data that could be read is what the variable holds in its current shape. -/
theorem eq_read_of_readData {d : Dataset} {path : String} {id : Nat} {v : Variable}
    (hfind : d.findVariable path = .ok (id, v)) {selection : Selection} {data : Buffer}
    (hread : d.readData path selection = .ok data) :
    data = v.read (selection.bounds (d.currentShape v)) := by
  obtain ⟨⟨w, box⟩, hcheck, hpure⟩ := Except.bind_eq_ok_iff.mp hread
  -- the variable that is read is the one that is found
  obtain ⟨⟨i, u⟩, hfound, hrest⟩ := Except.bind_eq_ok_iff.mp hcheck
  obtain ⟨rfl, rfl⟩ := Prod.mk.inj (Except.ok.inj (hfind.symm.trans hfound))
  obtain ⟨shape, hshape, -⟩ := Except.bind_eq_ok_iff.mp hrest
  rw [readData_eq hfind hshape] at hread
  split at hread
  · rw [← Except.ok.inj hread, shape_eq_of_shapeOf hshape]
    rfl
  · cases hread

/-- Every dimension of the first dataset is there in the second one and no smaller. -/
def Outgrows (d' d : Dataset) : Prop :=
  ∀ path dim, d.dimension path = .ok dim → ∃ dim', d'.dimension path = .ok dim' ∧
    dim.size ≤ dim'.size

/-- The shape of a variable is nowhere shorter in a dataset that outgrows the first one. -/
theorem Outgrows.shape_le {d d' : Dataset} (h : d'.Outgrows d) (hd : d.WellFormed) {id : Nat}
    {v : Variable} (hv : v ∈ (d.group id).vars) :
    List.Forall₂ (· ≤ ·) (d.currentShape v) (d'.currentShape v) := by
  unfold currentShape
  rw [List.forall₂_map_left_iff, List.forall₂_map_right_iff, List.forall₂_same]
  intro path hpath
  obtain ⟨dim, hdim⟩ := hd.resolved id v hv path hpath
  obtain ⟨dim', hdim', hle⟩ := h path dim hdim
  rw [sizeOf_of_dimension hdim, sizeOf_of_dimension hdim']
  exact hle

/-! ## Operations make no dimension smaller -/

section ChangeGroup

variable {d : Dataset} {id : Nat} {change : Group → Group}

/-- Changing what a group holds, and appending to its dimensions at most, keeps all dimensions. -/
theorem dimension_changeGroup (hname : (change (d.group id)).name = (d.group id).name)
    (hdims : (d.group id).dimensions <+: (change (d.group id)).dimensions) {path : String}
    {dim : Dimension} (h : d.dimension path = .ok dim) :
    (d.changeGroup id change).dimension path = .ok dim := by
  obtain ⟨i, hi, hfound⟩ := dimension_eq_ok_iff.mp h
  refine dimension_eq_ok_iff.mpr ⟨i, (groupId_changeGroup hname _).trans hi, ?_⟩
  rcases group_changeGroup_cases d id i change with hsame | ⟨rfl, hchanged⟩
  · rw [hsame]
    exact hfound
  -- the search stops at the same dimension, in front of those that were added
  · obtain ⟨more, hmore⟩ := hdims
    rw [hchanged, ← hmore, List.find?_append, hfound]
    rfl

/-- Adding dimensions to a group makes no dimension shorter. -/
theorem outgrows_changeGroup (hname : (change (d.group id)).name = (d.group id).name)
    (hdims : (d.group id).dimensions <+: (change (d.group id)).dimensions) :
    (d.changeGroup id change).Outgrows d :=
  fun _ dim h => ⟨dim, dimension_changeGroup hname hdims h, Nat.le_refl _⟩

end ChangeGroup

/-- Writing data makes no dimension shorter. -/
theorem outgrows_store {d : Dataset} (hd : d.WellFormed) {path : String} {id : Nat} {v : Variable}
    (hfind : d.findVariable path = .ok (id, v)) (box : Box) (data : Buffer) :
    (d.store id v box data).Outgrows d := by
  intro q dim hdim
  obtain ⟨i, -, hstored⟩ := dimension_store hd hfind box data hdim
  exact ⟨_, hstored, Dimension.size_le_size_grown _ dim⟩

/-! ## What a variable holds -/

/-- The cells of a variable are of its type and lie inside the shape that it was last written with,
which is nowhere longer than the given shape. -/
structure Variable.Holds (v : Variable) (shape : Shape) : Prop where
  stored_le : List.Forall₂ (· ≤ ·) v.stored shape
  within_stored : ∀ index ∈ v.cells, v.stored.Within index
  hasType : ∀ index, (v.cell index).HasType v.type

namespace Variable.Holds

variable {v : Variable} {shape : Shape}

/-- What holds within a shape holds within a longer one. -/
theorem mono (h : v.Holds shape) {shape' : Shape} (hle : List.Forall₂ (· ≤ ·) shape shape') :
    v.Holds shape' := by
  refine ⟨(Forall₂.comp h.stored_le hle).imp fun a c hbetween => ?_, h.within_stored, h.hasType⟩
  obtain ⟨b, hab, hbc⟩ := hbetween
  exact Nat.le_trans hab hbc

/-- Outside its shape a variable is zero. -/
theorem cell_eq_zero (h : v.Holds shape) {index : Index} (hindex : ¬ shape.Within index) :
    v.cell index = Cell.zero v.type := by
  have hnone : index ∉ v.cells := fun hmem =>
    hindex ((h.within_stored index hmem).mono h.stored_le)
  rw [Variable.cell, Std.ExtTreeMap.getD_eq_fallback hnone]

/-- A new variable holds nothing. -/
theorem ofDefinition (definition : VariableDefinition) (shape : Shape) :
    (Variable.ofDefinition definition shape).Holds shape := by
  refine ⟨List.forall₂_refl _, fun index hindex => ?_, fun index => ?_⟩
  · exact absurd hindex Std.ExtTreeMap.not_mem_empty
  · rw [cell_ofDefinition]
    exact Cell.hasType_zero definition.type

end Variable.Holds

/-! ## Data that was written -/

section Store

variable {d : Dataset} (hd : d.WellFormed) {path : String} {id : Nat} {v : Variable} {box : Box}
  {data : Buffer}

/-- The sizes after a write are those to which the dimensions have grown. -/
theorem sizeOf_store (d : Dataset) (id : Nat) (v : Variable) (box : Box) (data : Buffer) :
    (d.store id v box data).sizeOf =
      ((v.dimensions.zip box.stop).foldl growDimension d).sizeOf := by
  have hgroupId : ∀ q, (d.store id v box data).groupId q =
      ((v.dimensions.zip box.stop).foldl growDimension d).groupId q := by
    intro q
    apply groupId_changeGroup
    rfl
  -- the cells of a variable play no part in finding a dimension
  have hdimensions : ∀ i, ((d.store id v box data).group i).dimensions =
      (((v.dimensions.zip box.stop).foldl growDimension d).group i).dimensions := by
    intro i
    unfold store changeVariable
    rcases group_changeGroup_cases ((v.dimensions.zip box.stop).foldl growDimension d) id i _ with
      h | ⟨rfl, h⟩
    · rw [h]
    · rw [h]
  funext q
  simp only [sizeOf, dimension, hgroupId, hdimensions]

/-- A variable that is written gets its current shape. -/
theorem stored_written (d : Dataset) (id : Nat) (v : Variable) (box : Box) (data : Buffer) :
    (d.written v box data).stored = (d.store id v box data).currentShape v := by
  unfold written currentShape
  rw [sizeOf_store]

variable (hfind : d.findVariable path = .ok (id, v))

include hd hfind

/-- Data ends inside the shape that its write leaves behind. -/
theorem stop_le_currentShape (hlength : box.stop.length = v.dimensions.length) :
    List.Forall₂ (· ≤ ·) box.stop ((d.store id v box data).currentShape v) := by
  have hv : v ∈ (d.group id).vars := mem_vars_of_findVariable hfind
  have haxes : ∀ axis ∈ v.dimensions.zip box.stop,
      axis.2 ≤ (d.store id v box data).sizeOf axis.1 := by
    intro axis haxis
    obtain ⟨dim, hdim⟩ := hd.resolved id v hv axis.1 (List.of_mem_zip haxis).1
    obtain ⟨i, hi, hgrown⟩ := dimension_store hd hfind box data hdim
    rw [sizeOf_of_dimension hgrown]
    -- the axis runs along the dimension that its path leads to
    have hname : dim.name = (split axis.1).2 := by
      obtain ⟨_, _, hfound⟩ := dimension_eq_ok_iff.mp hdim
      simpa using List.find?_some hfound
    have hmem : ((split axis.1).2, axis.2) ∈ d.axesIn i (v.dimensions.zip box.stop) := by
      refine List.mem_map.mpr ⟨axis, List.mem_filter.mpr ⟨haxis, ?_⟩, rfl⟩
      simp [hi, Except.toOption]
    have hle := Dimension.le_size_grown hmem hname.symm
    exact hle
  unfold currentShape
  rw [List.forall₂_map_right_iff]
  -- axis by axis, as the dimensions and the ends of the box are listed
  generalize box.stop = stop at hlength haxes
  generalize v.dimensions = dimensions at hlength haxes
  induction dimensions generalizing stop with
  | nil =>
    rw [List.length_eq_zero_iff.mp hlength]
    exact .nil
  | cons path rest ih =>
    cases stop with
    | nil => cases hlength
    | cons n stop =>
      rw [List.zip_cons_cons, List.forall_mem_cons] at haxes
      exact .cons haxes.1 (ih stop (Nat.succ.inj hlength) haxes.2)

/-- A variable that data was written to holds cells of its type inside its current shape. -/
theorem holds_written (hv : v.Holds (d.currentShape v)) (hsuits : data.suits v.type = true)
    (hstart : box.start.length = v.dimensions.length)
    (hlength : box.count.length = v.dimensions.length)
    (hcount : data.elementCount v.type = box.count.volume) :
    (d.written v box data).Holds ((d.store id v box data).currentShape v) := by
  have hmem : v ∈ (d.group id).vars := mem_vars_of_findVariable hfind
  have hrank : box.start.length = box.count.length := hstart.trans hlength.symm
  have hstop : box.stop.length = v.dimensions.length := by
    simp [Box.stop, hstart, hlength]
  have hcells : (data.cells v.type).length = box.count.volume :=
    (Buffer.length_cells v.type data).trans hcount
  refine ⟨?_, fun index hindex => ?_, fun index => ?_⟩
  · rw [stored_written d id]
    exact List.forall₂_refl _
  · rw [stored_written d id]
    -- a place that was filled before, or one of the box
    rcases Variable.mem_fill hindex with hindex | hindex
    · have hgrown := (outgrows_store hd hfind box data).shape_le hd hmem
      exact ((hv.within_stored index hindex).mono hv.stored_le).mono hgrown
    · exact Box.within_of_mem_indices hindex (stop_le_currentShape hd hfind hstop)
  -- a cell is one of the data, which suit the type, or one that was there
  · show ((v.fill box (data.cells v.type)).cell index).HasType v.type
    rcases Variable.cell_fill_cases (v := v) hrank hcells index with hcell | hcell
    · exact Buffer.hasType_of_mem_cells hsuits hcell
    · rw [hcell]
      exact hv.hasType index

end Store

/-! ## Every reachable dataset -/

/-- What all variables of a dataset hold lies inside their current shapes. -/
def WellStored (d : Dataset) : Prop :=
  ∀ id, ∀ v ∈ (d.group id).vars, v.Holds (d.currentShape v)

namespace WellStored

variable {d : Dataset}

/-- An operation that makes no dimension smaller keeps what variables hold, if it leaves each
variable alone but for its attributes, or if it brings along a variable that is as it should be. -/
theorem step {d' : Dataset} (hs : d.WellStored) (hd : d.WellFormed) (hgrown : d'.Outgrows d)
    (hvars : ∀ id, ∀ v' ∈ (d'.group id).vars, v'.Holds (d'.currentShape v') ∨
      ∃ v ∈ (d.group id).vars, v' = { v with attributes := v'.attributes }) :
    d'.WellStored := by
  intro id v' hv'
  rcases hvars id v' hv' with h | ⟨v, hv, heq⟩
  · exact h
  · have hold := (hs id v hv).mono (hgrown.shape_le hd hv)
    rw [heq]
    exact ⟨hold.stored_le, hold.within_stored, hold.hasType⟩

/-- A new dataset stores nothing. -/
theorem create (location : String) (isNested : Bool) :
    (Dataset.create location isNested).WellStored := by
  intro id v hv
  obtain ⟨path, hgroup⟩ := exists_group_create location isNested id
  rw [hgroup] at hv
  cases hv

/-- Changing a group keeps what variables hold, if its dimensions stay where they are. -/
theorem changeGroup (hs : d.WellStored) (hd : d.WellFormed) {id : Nat} {change : Group → Group}
    (hname : (change (d.group id)).name = (d.group id).name)
    (hdims : (d.group id).dimensions <+: (change (d.group id)).dimensions)
    (hvars : ∀ v' ∈ (change (d.group id)).vars,
      v'.Holds ((d.changeGroup id change).currentShape v') ∨
        ∃ v ∈ (d.group id).vars, v' = { v with attributes := v'.attributes }) :
    (d.changeGroup id change).WellStored := by
  refine hs.step hd (outgrows_changeGroup hname hdims) fun i v' hv' => ?_
  rcases group_changeGroup_cases d id i change with h | ⟨rfl, h⟩
  · rw [h] at hv'
    exact Or.inr ⟨v', hv', rfl⟩
  · rw [h] at hv'
    exact hvars v' hv'

/-- A new group holds no variables. -/
theorem createGroup (hs : d.WellStored) (hd : d.WellFormed) (parent name : String) :
    (stateAfter (createGroup parent name d)).WellStored := by
  refine stateAfter_checked hs fun id hcheck => ?_
  have hparent := hd.lt_size_of_groupId (checkGroup_eq_ok_iff.mp hcheck).2.1
  show (d.withGroup id name (ObjectPath.join (d.group id).path name)).WellStored
  refine hs.step hd (fun path dim h => ⟨dim, dimension_withGroup hparent h, Nat.le_refl _⟩)
    fun i v hv => ?_
  rw [group_withGroup hparent] at hv
  split at hv
  · cases hv
  · exact Or.inr ⟨v, hv, rfl⟩

/-- A new dimension changes the shape of no variable. -/
theorem appendDimension (hs : d.WellStored) (hd : d.WellFormed) (id : Nat) (dim : Dimension) :
    (d.appendDimension id dim).WellStored := by
  refine hs.changeGroup hd rfl (List.prefix_append ..) fun v hv => ?_
  exact Or.inr ⟨v, hv, rfl⟩

/-- A new variable holds nothing yet, within the shape that its dimensions have. -/
theorem createVariable (hs : d.WellStored) (hd : d.WellFormed) (path : String)
    (definition : VariableDefinition) :
    (stateAfter (createVariable path definition d)).WellStored := by
  refine stateAfter_checked hs fun ⟨id, shape⟩ hcheck => ?_
  have hshape := shapeOf_eq_ok_iff.mp (checkVariable_eq_ok_iff.mp hcheck).2.2
  refine hs.changeGroup hd rfl (List.prefix_refl _) fun v hv => ?_
  rcases List.mem_append.mp hv with hv | hv
  · exact Or.inr ⟨v, hv, rfl⟩
  · obtain rfl := List.mem_singleton.mp hv
    left
    -- the dimensions have the sizes that they were found with
    have hsizes : (d.changeGroup id fun g =>
        { g with vars := g.vars ++ [.ofDefinition definition shape] }).shapeOf
          definition.dimensions = .ok shape := by
      refine shapeOf_eq_ok_iff.mpr (hshape.imp fun p size hdim => ?_)
      obtain ⟨dim, hdim, hsize⟩ := hdim
      exact ⟨dim, dimension_changeGroup rfl (List.prefix_refl _) hdim, hsize⟩
    have hcurrent := shape_eq_of_shapeOf hsizes
    show (Variable.ofDefinition definition shape).Holds (definition.dimensions.map _)
    rw [← hcurrent]
    exact .ofDefinition definition shape

/-- What is written lies within the shape that the write leaves behind. -/
theorem writeData (hs : d.WellStored) (hd : d.WellFormed) (path : String) (selection : Selection)
    (data : Buffer) : (stateAfter (writeData path selection data d)).WellStored := by
  refine stateAfter_checked hs fun ⟨id, v, box⟩ hcheck => ?_
  obtain ⟨hfind, hsuits, shape, hshape, -, ⟨hstart, hlength⟩, hcount, -⟩ :=
    checkWrite_eq_ok_iff.mp hcheck
  have hv : v ∈ (d.group id).vars := mem_vars_of_findVariable hfind
  have hrank : shape.length = v.dimensions.length := by
    rw [shape_eq_of_shapeOf hshape, List.length_map]
  refine hs.step hd (outgrows_store hd hfind box data) fun i w hw => ?_
  rw [group_store hd hfind] at hw
  simp only at hw
  split at hw
  · next hi =>
    subst hi
    -- the variable that is written, or another one of the same group
    obtain ⟨u, hu, rfl⟩ := List.mem_map.mp hw
    split
    · exact Or.inl (holds_written hd hfind (hs i v hv) hsuits (hstart.trans hrank)
        (hlength.trans hrank) hcount)
    · exact Or.inr ⟨u, hu, rfl⟩
  · exact Or.inr ⟨w, hw, rfl⟩

/-- Every operation keeps what variables hold. -/
theorem apply (hs : d.WellStored) (hd : d.WellFormed) (change : Change) :
    (change.apply d).WellStored := by
  cases change with
  -- one case for each operation; a refused one changes nothing
  | group parent name => exact hs.createGroup hd parent name
  | dimension path name size =>
    exact stateAfter_checked hs fun id _ => hs.appendDimension hd id _
  | sizedDimension path dim =>
    exact stateAfter_checked hs fun id _ => hs.appendDimension hd id dim
  | «variable» path definition => exact hs.createVariable hd path definition
  | groupAttribute path name value =>
    refine stateAfter_checked hs fun id _ => hs.changeGroup hd rfl (List.prefix_refl _) ?_
    intro v hv
    exact Or.inr ⟨v, hv, rfl⟩
  | variableAttribute path name value =>
    refine stateAfter_checked hs fun a _ => hs.changeGroup hd rfl (List.prefix_refl _) ?_
    intro v hv
    rcases mem_changeFirst hv with hv | ⟨w, hw, rfl⟩
    · exact Or.inr ⟨v, hv, rfl⟩
    · exact Or.inr ⟨w, hw, rfl⟩
  | data path selection data => exact hs.writeData hd path selection data

end WellStored

/-- What the variables of a reachable dataset hold lies inside their current shapes. -/
theorem Reachable.wellStored {d : Dataset} (h : d.Reachable) : d.WellStored := by
  induction h with
  | create location isNested => exact WellStored.create location isNested
  | change change hd ih => exact ih.apply hd.wellFormed change

end GroupFlattening.Dataset
