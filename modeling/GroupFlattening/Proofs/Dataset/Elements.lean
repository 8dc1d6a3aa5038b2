import GroupFlattening.Proofs.Dataset.Layout

/-!
# Datasets as Stores of Arrays

Seen from outside, a variable is an array: at every index of its current shape it has an element,
the one that is read there (`element?`). Reading a selection gives the elements at its indices, and
data that is accepted sets the elements of a box, makes dimensions as long as it needs them, and
leaves everything else as it is; where a variable has become longer it is zero
(`refines_total_arrays`). That the dense layout of a variable may lag behind its dimensions, and is
moved by the next write, is not to be seen.
-/

namespace GroupFlattening.Dataset

open ObjectPath (split)

/-! ## Reading elements -/

/-- The element of a variable at an index, as it is read on its own; there is none outside the
current shape of the variable. -/
def element? (d : Dataset) (path : String) (index : Index) : Option Cell := do
  let (_, v) ← (d.findVariable path).toOption
  let data ← (d.readData path (.box (.single index))).toOption
  (data.cells v.type).head?

section View

variable {d : Dataset} (hd : d.WellFormed) (hs : d.WellStored) {path : String} {id : Nat}
  {v : Variable} (hfind : d.findVariable path = .ok (id, v))

include hd hs hfind

/-- A variable that is found has a current shape and holds its data within it. -/
theorem holds_of_findVariable :
    d.shapeOf v.dimensions = .ok (d.currentShape v) ∧ v.Holds (d.currentShape v) := by
  have hv : v ∈ (d.group id).vars := mem_vars_of_findVariable hfind
  exact ⟨hd.shapeOf_eq hv, hs id v hv⟩

/-- A variable has an element at every index of its current shape, and nowhere else. -/
theorem element?_eq (index : Index) :
    d.element? path index =
      if (d.currentShape v).Within index then some (v.cell index) else none := by
  obtain ⟨hshape, hholds⟩ := holds_of_findVariable hd hs hfind
  have hread : v.read (Box.single index) = Buffer.ofCells v.type [v.cell index] := by
    unfold Variable.read
    rw [Box.indices_single]
    rfl
  -- the buffer of one cell is read back as this cell
  have hcells : (Buffer.ofCells v.type [v.cell index]).cells v.type = [v.cell index] := by
    apply Buffer.cells_ofCells
    intro cell hcell
    rw [List.mem_singleton.mp hcell]
    exact hholds.hasType index
  unfold element?
  rw [readData_eq hfind hshape, hfind]
  simp only [Selection.fits, Selection.bounds, Box.fits_single]
  split
  · simp [Except.toOption, hread, hcells]
  · simp [Except.toOption]

/-- Reading gives the elements at the selected indices, in row-major order. They are taken from the
layout of the variable, padded with zeros. -/
theorem readData_of_fits {selection : Selection}
    (hfits : selection.fits (d.currentShape v) = true) :
    ∃ cells, List.Forall₂ (fun index cell => d.element? path index = some cell)
        (selection.bounds (d.currentShape v)).indices cells ∧
      v.layout.read (selection.bounds (d.currentShape v)) = Buffer.ofCells v.type cells ∧
      d.readData path selection = .ok (Buffer.ofCells v.type cells) := by
  obtain ⟨hshape, hholds⟩ := holds_of_findVariable hd hs hfind
  -- what is selected lies inside the shape, as the whole variable or as a box that fits
  have hwithin : ∀ index ∈ (selection.bounds (d.currentShape v)).indices,
      (d.currentShape v).Within index := by
    intro index hindex
    cases selection with
    | all =>
      show Shape.Within _ index
      rw [Selection.bounds, Box.indices_whole] at hindex
      exact Shape.mem_indices_iff.mp hindex
    | box box => exact Box.within_of_mem_indices hindex (Box.fits_iff.mp hfits).2
  refine ⟨(selection.bounds (d.currentShape v)).indices.map v.cell, ?_, ?_, ?_⟩
  · rw [List.forall₂_map_right_iff, List.forall₂_same]
    intro index hindex
    rw [element?_eq hd hs hfind, if_pos (hwithin index hindex)]
  · exact Variable.read_layout hholds _
  · rw [readData_eq hfind hshape, if_pos hfits]
    rfl

end View

/-! ## Writing elements -/

/-- What becomes of a dataset when data is written to a box of a variable, as far as dimensions and
elements are concerned. -/
structure StoresBox (d : Dataset) (id : Nat) (v : Variable) (box : Box) (data : Buffer)
    (d' : Dataset) : Prop where
  /-- Paths lead to the same groups. -/
  groups : ∀ path, d'.groupId path = d.groupId path
  /-- A dimension reaches the ends of the axes of the variable that run along it; every other
  dimension is as it was. -/
  dimensions : ∀ i, (d'.group i).dimensions =
    (d.group i).dimensions.map (Dimension.grown (d.axesIn i (v.dimensions.zip box.stop)))
  /-- Paths lead to the same variables, and these differ in what they hold at most. -/
  vars : ∀ path i w, d.findVariable path = .ok (i, w) → ∃ stored cells,
    d'.findVariable path = .ok (i, { w with stored := stored, cells := cells })
  /-- The variable has the elements of the data in the box, in row-major order. -/
  written : ∀ path, d.findVariable path = .ok (id, v) → ∀ (k : Nat) (index : Index),
    box.indices[k]? = some index →
      ∃ cell, (data.cells v.type)[k]? = some cell ∧ d'.element? path index = some cell
  /-- Every other element is kept, those of the variable outside the box and those of every other
  variable. -/
  kept : ∀ path i w, d.findVariable path = .ok (i, w) → ∀ index : Index,
    (i = id → w.name = v.name → index ∉ box.indices) →
      ∀ cell, d.element? path index = some cell → d'.element? path index = some cell
  /-- Elements that are new and not in the box are zero. -/
  new : ∀ path i w, d.findVariable path = .ok (i, w) → ∀ index : Index,
    (i = id → w.name = v.name → index ∉ box.indices) → d.element? path index = none →
      ∀ cell, d'.element? path index = some cell → cell = Cell.zero w.type
  /-- The layout of the variable has moved to its new shape and has the data in the box; every other
  layout is as it was, even where a dimension has grown. -/
  layouts : ∀ path i w, d.findVariable path = .ok (i, w) → ∃ w',
    d'.findVariable path = .ok (i, w') ∧ w'.layout =
      if i = id ∧ w.name = v.name then v.layout.write (d'.currentShape v) box (data.cells v.type)
      else w.layout

section Store

variable {d : Dataset} (hd : d.WellFormed) {path : String} {id : Nat} {v : Variable} {box : Box}
  {data : Buffer} (hfind : d.findVariable path = .ok (id, v))

include hd hfind

/-- Variables of one group that have one name are the same. -/
theorem eq_of_findVariable {q : String} {w : Variable} (hq : d.findVariable q = .ok (id, w))
    (hname : w.name = v.name) : w = v := by
  have hwmem := mem_vars_of_findVariable hq
  have hvmem := mem_vars_of_findVariable hfind
  have hunique := find?_eq_some_of_nodup (hd.groups id).vars hwmem
  rw [hname, find?_eq_some_of_nodup (hd.groups id).vars hvmem] at hunique
  exact (Option.some.inj hunique).symm

section Found

variable {q : String} {i : Nat} {w : Variable} (hq : d.findVariable q = .ok (i, w))

include hq

/-- A variable holds what it held before, except for the box that was written. -/
theorem cell_written_of_outside {index : Index}
    (houtside : i = id → w.name = v.name → index ∉ box.indices) :
    (if i = id ∧ w.name = v.name then d.written v box data else w).cell index = w.cell index := by
  split
  · next hsame =>
    obtain ⟨rfl, hname⟩ := hsame
    obtain rfl := eq_of_findVariable hd hfind hq hname
    exact Variable.cell_fill_of_not_mem (houtside rfl rfl)
  · rfl

/-- After data was written every variable is found again, with other cells at most. -/
theorem exists_findVariable_store : ∃ stored cells,
    (d.store id v box data).findVariable q =
      .ok (i, { w with stored := stored, cells := cells }) := by
  rw [findVariable_store hd hfind box data hq]
  split
  · next hsame =>
    obtain ⟨rfl, hname⟩ := hsame
    obtain rfl := eq_of_findVariable hd hfind hq hname
    exact ⟨_, _, rfl⟩
  · exact ⟨w.stored, w.cells, rfl⟩

/-- After data was written the elements of a variable are those of its cells, of the written ones
for the variable that was written. -/
theorem element?_store (hd' : (d.store id v box data).WellFormed)
    (hs' : (d.store id v box data).WellStored) (index : Index) :
    (d.store id v box data).element? q index =
      if ((d.store id v box data).currentShape w).Within index then
        some ((if i = id ∧ w.name = v.name then d.written v box data else w).cell index)
      else none := by
  rw [element?_eq hd' hs' (findVariable_store hd hfind box data hq)]
  -- the dimensions of a variable do not depend on what it holds
  have hdims : (if i = id ∧ w.name = v.name then d.written v box data else w).dimensions =
      w.dimensions := by
    split
    · next hsame =>
      obtain ⟨rfl, hname⟩ := hsame
      rw [eq_of_findVariable hd hfind hq hname]
      rfl
    · rfl
  have hshape : (d.store id v box data).currentShape
      (if i = id ∧ w.name = v.name then d.written v box data else w) =
      (d.store id v box data).currentShape w := by
    unfold currentShape
    rw [hdims]
  rw [hshape]

end Found

section Fields

variable (hs : d.WellStored) (hd' : (d.store id v box data).WellFormed)
  (hs' : (d.store id v box data).WellStored)

include hd' hs'

/-- In the box the variable has the elements of the data, in row-major order. -/
theorem element?_store_of_mem (hstart : box.start.length = v.dimensions.length)
    (hlength : box.count.length = v.dimensions.length)
    (hcount : data.elementCount v.type = box.count.volume) {q : String}
    (hq : d.findVariable q = .ok (id, v)) {k : Nat} {index : Index}
    (hindex : box.indices[k]? = some index) :
    ∃ cell, (data.cells v.type)[k]? = some cell ∧
      (d.store id v box data).element? q index = some cell := by
  have hstop : box.stop.length = v.dimensions.length := by
    simp [Box.stop, hstart, hlength]
  -- as many cells are given as the box has places
  have hcells : (data.cells v.type).length = box.count.volume :=
    (Buffer.length_cells v.type data).trans hcount
  have hk : k < (data.cells v.type).length := by
    rw [hcells, ← Box.length_indices]
    exact (List.getElem?_eq_some_iff.mp hindex).1
  have hcell : (data.cells v.type)[k]? = some (data.cells v.type)[k] :=
    List.getElem?_eq_getElem hk
  -- the box ends inside the shape that the write leaves behind
  have hwithin : Shape.Within ((d.store id v box data).currentShape v) index :=
    Box.within_of_mem_indices (List.mem_of_getElem? hindex)
      (stop_le_currentShape hd hfind hstop)
  have hfilled : (d.written v box data).cell index = (data.cells v.type)[k] :=
    Variable.cell_fill_of_getElem? (hstart.trans hlength.symm) hcells hindex hcell
  refine ⟨_, hcell, ?_⟩
  rw [element?_store hd hfind hq hd' hs', if_pos hwithin, if_pos ⟨rfl, rfl⟩, hfilled]

variable {q : String} {i : Nat} {w : Variable} (hq : d.findVariable q = .ok (i, w)) {index : Index}
  (houtside : i = id → w.name = v.name → index ∉ box.indices) {cell : Cell}

include hs hq houtside

/-- An element outside the box is kept. -/
theorem element?_store_of_some (hcell : d.element? q index = some cell) :
    (d.store id v box data).element? q index = some cell := by
  have hw := mem_vars_of_findVariable hq
  rw [element?_eq hd hs hq] at hcell
  split at hcell
  -- the shape has become longer at most, and the place is not in the box
  · next hwithin =>
    have hgrown := hwithin.mono ((outgrows_store hd hfind box data).shape_le hd hw)
    rw [element?_store hd hfind hq hd' hs', if_pos hgrown,
      cell_written_of_outside hd hfind hq houtside]
    exact hcell
  · cases hcell

/-- An element outside the box that is new is zero. -/
theorem element?_store_of_none (hnone : d.element? q index = none)
    (hcell : (d.store id v box data).element? q index = some cell) : cell = Cell.zero w.type := by
  obtain ⟨-, hholds⟩ := holds_of_findVariable hd hs hq
  rw [element?_eq hd hs hq] at hnone
  rw [element?_store hd hfind hq hd' hs', cell_written_of_outside hd hfind hq houtside] at hcell
  split at hnone
  · cases hnone
  -- a place that is new and not in the box has never been filled
  · next hout =>
    split at hcell
    · rw [← Option.some.inj hcell, hholds.cell_eq_zero hout]
    · cases hcell

end Fields

/-- Data that is accepted is stored in its box, and nothing else is changed. -/
theorem storesBox_store (hs : d.WellStored) (hd' : (d.store id v box data).WellFormed)
    (hs' : (d.store id v box data).WellStored)
    (hstart : box.start.length = v.dimensions.length)
    (hlength : box.count.length = v.dimensions.length)
    (hsuits : data.suits v.type = true) (hcount : data.elementCount v.type = box.count.volume) :
    StoresBox d id v box data (d.store id v box data) := by
  obtain ⟨-, hholds⟩ := holds_of_findVariable hd hs hfind
  have hlayout := layout_written hd hfind hholds hsuits hstart hlength hcount
  refine
    { groups := groupId_store d id v box data
      dimensions := fun i => by rw [group_store hd hfind]; rfl
      vars := fun q i w hq => exists_findVariable_store hd hfind hq
      written := fun q hq k index hindex => ?_
      kept := fun q i w hq index houtside cell hcell => ?_
      new := fun q i w hq index houtside hnone cell hcell => ?_
      layouts := fun q i w hq => ⟨_, findVariable_store hd hfind box data hq, ?_⟩ }
  · exact element?_store_of_mem hd hfind hd' hs' hstart hlength hcount hq hindex
  · exact element?_store_of_some hd hfind hs hd' hs' hq houtside hcell
  · exact element?_store_of_none hd hfind hs hd' hs' hq houtside hnone hcell
  · split
    · exact hlayout
    · rfl

end Store

/-! ## The whole store -/

/-- A reachable dataset is a store of arrays: a variable has an element of its type at every index
of its current shape and nowhere else, every selection that lies inside is read from its layout as
the elements at the selected indices, and data that is accepted sets the elements in its box and
changes no other. -/
theorem refines_total_arrays {d : Dataset} (hd : d.Reachable) :
    (∀ path id v, d.findVariable path = .ok (id, v) →
      ∃ shape, d.shapeOf v.dimensions = .ok shape ∧
        (∀ index, (d.element? path index).isSome ↔ shape.Within index) ∧
        (∀ index cell, d.element? path index = some cell → cell.HasType v.type) ∧
        ∀ selection, selection.fits shape = true →
          ∃ cells, List.Forall₂ (fun index cell => d.element? path index = some cell)
              (selection.bounds shape).indices cells ∧
            v.layout.read (selection.bounds shape) = Buffer.ofCells v.type cells ∧
            d.readData path selection = .ok (Buffer.ofCells v.type cells)) ∧
    ∀ path selection data d', writeData path selection data d = .ok () d' →
      d'.Reachable ∧ ∃ id v shape, d.findVariable path = .ok (id, v) ∧
        d.shapeOf v.dimensions = .ok shape ∧
        StoresBox d id v (selection.bounds shape) data d' := by
  have hform := hd.wellFormed
  have hstored := hd.wellStored
  refine ⟨fun path id v hfind => ?_, fun path selection data d' hwrite => ?_⟩
  · obtain ⟨hshape, hholds⟩ := holds_of_findVariable hform hstored hfind
    refine ⟨d.currentShape v, hshape, fun index => ?_, fun index cell hcell => ?_,
      fun selection hfits => readData_of_fits hform hstored hfind hfits⟩
    · rw [element?_eq hform hstored hfind]
      -- there is an element just inside the shape
      split <;> simp [*]
    · rw [element?_eq hform hstored hfind] at hcell
      split at hcell
      · rw [← Option.some.inj hcell]
        exact hholds.hasType index
      · cases hcell
  · have hd' : d'.Reachable := by
      have happly := hd.change (.data path selection data)
      rwa [Change.apply, hwrite] at happly
    refine ⟨hd', ?_⟩
    obtain ⟨⟨id, v, box⟩, hcheck, heq⟩ := checked_eq_ok_iff.mp hwrite
    obtain ⟨hfind, hsuits, shape, hshape, rfl, ⟨hstart, hlength⟩, hcount, -⟩ :=
      checkWrite_eq_ok_iff.mp hcheck
    obtain ⟨-, rfl⟩ := Prod.mk.inj heq
    have hrank : shape.length = v.dimensions.length := by
      rw [shape_eq_of_shapeOf hshape, List.length_map]
    exact ⟨id, v, shape, hfind, hshape, storesBox_store hform hfind hstored hd'.wellFormed
      hd'.wellStored (hstart.trans hrank) (hlength.trans hrank) hsuits hcount⟩

/-- Heights over rows and columns, both of which can grow, and widths of the columns. -/
def grid : Dataset :=
  (Dataset.create "grid" true).applyAll
    [.sizedDimension "/" ⟨"row", 2, true⟩, .sizedDimension "/" ⟨"column", 2, true⟩,
      .variable "/" ⟨"height", .byte, ["/row", "/column"], none⟩,
      .variable "/" ⟨"width", .byte, ["/column"], none⟩,
      .data "/height" .all (.bytes [1, 2, 3, 4])]

/-- A third column of heights moves the second row in the data that is read, and leaves the width of
the new column zero. -/
theorem grid_written : grid.Reachable ∧ ∃ d',
    writeData "/height" (.box ⟨[0, 2], [2, 1]⟩) (.bytes [5, 6]) grid = .ok () d' ∧
    (d'.readData "/height" .all).toOption = some (.bytes [1, 2, 5, 3, 4, 6]) ∧
    (d'.readData "/width" .all).toOption = some (.bytes [0, 0, 0]) ∧
    ∃ id v shape, grid.findVariable "/height" = .ok (id, v) ∧
      grid.shapeOf v.dimensions = .ok shape ∧
      StoresBox grid id v ⟨[0, 2], [2, 1]⟩ (.bytes [5, 6]) d' := by
  have hgrid : grid.Reachable := (Reachable.create "grid" true).applyAll _
  have hsucceeds : EStateM.succeedsWith (fun (_ : Unit) (d' : Dataset) =>
      decide ((d'.readData "/height" .all).toOption = some (.bytes [1, 2, 5, 3, 4, 6]) ∧
        (d'.readData "/width" .all).toOption = some (.bytes [0, 0, 0])))
      (writeData "/height" (.box ⟨[0, 2], [2, 1]⟩) (.bytes [5, 6]) grid) = true := by
    decide +kernel
  obtain ⟨⟨⟩, d', hwrite, hread⟩ := EStateM.exists_of_succeedsWith _ hsucceeds
  obtain ⟨hheight, hwidth⟩ := of_decide_eq_true hread
  obtain ⟨-, hstores⟩ := (refines_total_arrays hgrid).2 _ _ _ d' hwrite
  exact ⟨hgrid, d', hwrite, hheight, hwidth, hstores⟩

end GroupFlattening.Dataset
