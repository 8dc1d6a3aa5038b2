import GroupFlattening.Proofs.Dataset.Stored

/-!
# Data That Is Read Back

Data that was accepted is there afterwards in the box that it was written to, however much the
dimensions had to grow for it (`readData_store`). What is there are the complete elements of the
buffer. The elements are counted by a division that leaves a remainder, so a buffer with some bytes
more is accepted as well and these are lost: a buffer is read back as it was written just when it
consists of complete elements (`readData_of_writeData`).
-/

namespace GroupFlattening.Dataset

/-- A box that was filled is read as the cells that it was filled with. -/
theorem Variable.read_fill {v : Variable} {box : Box} {cells : List Cell}
    (hbox : box.start.length = box.count.length) (hcells : cells.length = box.count.volume) :
    (v.fill box cells).read box = Buffer.ofCells v.type cells := by
  have hlength : (box.indices.map (v.fill box cells).cell).length = cells.length := by
    rw [List.length_map, Box.length_indices, hcells]
  -- the box is read in the order in which it was filled
  have hread : box.indices.map (v.fill box cells).cell = cells := by
    refine List.ext_getElem hlength fun k hk hk' => ?_
    rw [List.length_map] at hk
    rw [List.getElem_map]
    exact cell_fill_of_getElem? hbox hcells (List.getElem?_eq_getElem hk)
      (List.getElem?_eq_getElem hk')
  rw [read, hread]
  rfl

section Store

variable {d : Dataset} (hd : d.WellFormed) {path : String} {id : Nat} {v : Variable} {box : Box}
  {data : Buffer} (hfind : d.findVariable path = .ok (id, v))

include hd hfind

/-- The complete elements of a buffer are read in the box where it was stored. -/
theorem readData_store (hd' : (d.store id v box data).WellFormed)
    (hstart : box.start.length = v.dimensions.length)
    (hlength : box.count.length = v.dimensions.length) (hsuits : data.suits v.type = true)
    (hcount : data.elementCount v.type = box.count.volume) :
    (d.store id v box data).readData path (.box box) = .ok (data.whole v.type) := by
  have hfound : (d.store id v box data).findVariable path = .ok (id, d.written v box data) := by
    rw [findVariable_store hd hfind box data hfind, if_pos ⟨rfl, rfl⟩]
  -- the dimensions have grown far enough for the box
  have hstop : box.stop.length = v.dimensions.length := by
    simp [Box.stop, hstart, hlength]
  have hrank : box.start.length = box.count.length := hstart.trans hlength.symm
  have hfits : (Selection.box box).fits
      ((d.store id v box data).currentShape (d.written v box data)) = true :=
    Box.fits_iff.mpr ⟨hrank, stop_le_currentShape hd hfind hstop⟩
  have hcells : (data.cells v.type).length = box.count.volume :=
    (Buffer.length_cells v.type data).trans hcount
  rw [readData_eq hfound (hd'.shapeOf_eq (mem_vars_of_findVariable hfound)), if_pos hfits]
  calc Except.ok ((d.written v box data).read box)
      = .ok (Buffer.ofCells v.type (data.cells v.type)) :=
        congrArg Except.ok (Variable.read_fill (v := v) hrank hcells)
    _ = .ok (data.whole v.type) := congrArg Except.ok (Buffer.ofCells_cells hsuits)

end Store

/-- Data that was accepted is read back from its box without the bytes behind its last complete
element, and so as it was written if and only if there are none. -/
theorem readData_of_writeData {d d' : Dataset} (hd : d.Reachable) {path : String}
    {selection : Selection} {data : Buffer}
    (hwrite : writeData path selection data d = .ok () d') :
    ∃ id v shape, d.findVariable path = .ok (id, v) ∧ d.shapeOf v.dimensions = .ok shape ∧
      d'.readData path (.box (selection.bounds shape)) = .ok (data.whole v.type) ∧
      (d'.readData path (.box (selection.bounds shape)) = .ok data ↔ data.IsWhole v.type) := by
  have hd' : d'.WellFormed := by
    have happly := (hd.change (.data path selection data)).wellFormed
    rwa [Change.apply, hwrite] at happly
  -- what the check of the write has found out is what the read needs
  obtain ⟨⟨id, v, box⟩, hcheck, heq⟩ := checked_eq_ok_iff.mp hwrite
  obtain ⟨hfind, hsuits, shape, hshape, rfl, ⟨hstart, hlength⟩, hcount, -⟩ :=
    checkWrite_eq_ok_iff.mp hcheck
  obtain ⟨-, rfl⟩ := Prod.mk.inj heq
  have hrank : shape.length = v.dimensions.length := by
    rw [shape_eq_of_shapeOf hshape, List.length_map]
  -- the bounds were taken from the shape before the write, so they are a box in the new one
  have hread := readData_store hd.wellFormed hfind hd' (hstart.trans hrank) (hlength.trans hrank)
    hsuits hcount
  refine ⟨id, v, shape, hfind, hshape, hread, ?_⟩
  rw [hread, Except.ok.injEq, Buffer.whole_eq_self_iff]

/-- The level of the water, hour by hour. -/
def gauge : Dataset :=
  (Dataset.create "gauge" true).applyAll
    [.dimension "/" "hour" none, .variable "/" ⟨"level", .short, ["/hour"], none⟩]

/-- Two levels behind the end of the hours are read back. -/
theorem gauge_read_back : gauge.Reachable ∧ ∃ d',
    writeData "/level" (.box ⟨[3], [2]⟩) (.bytes [1, 2, 3, 4]) gauge = .ok () d' ∧
    ∃ id v shape, gauge.findVariable "/level" = .ok (id, v) ∧
      gauge.shapeOf v.dimensions = .ok shape ∧
      d'.readData "/level" (.box ⟨[3], [2]⟩) =
        .ok ((Buffer.bytes [1, 2, 3, 4]).whole v.type) ∧
      (d'.readData "/level" (.box ⟨[3], [2]⟩) = .ok (.bytes [1, 2, 3, 4]) ↔
        (Buffer.bytes [1, 2, 3, 4]).IsWhole v.type) := by
  have hgauge : gauge.Reachable := (Reachable.create "gauge" true).applyAll _
  have hsucceeds : EStateM.succeedsWith (fun (_ : Unit) (_ : Dataset) => true)
      (writeData "/level" (.box ⟨[3], [2]⟩) (.bytes [1, 2, 3, 4]) gauge) = true := by
    decide +kernel
  obtain ⟨⟨⟩, d', hwrite, -⟩ := EStateM.exists_of_succeedsWith _ hsucceeds
  exact ⟨hgauge, d', hwrite, readData_of_writeData hgauge hwrite⟩

/-- Of five bytes for two levels the last one is accepted and lost. -/
theorem gauge_byte_lost : gauge.Reachable ∧ ∃ d',
    writeData "/level" (.box ⟨[3], [2]⟩) (.bytes [1, 2, 3, 4, 5]) gauge = .ok () d' ∧
    d'.readData "/level" (.box ⟨[3], [2]⟩) = .ok (.bytes [1, 2, 3, 4]) ∧
    d'.readData "/level" (.box ⟨[3], [2]⟩) ≠ .ok (.bytes [1, 2, 3, 4, 5]) := by
  have hsucceeds : EStateM.succeedsWith (fun (_ : Unit) (d' : Dataset) =>
      decide ((d'.readData "/level" (.box ⟨[3], [2]⟩)).toOption = some (.bytes [1, 2, 3, 4])))
      (writeData "/level" (.box ⟨[3], [2]⟩) (.bytes [1, 2, 3, 4, 5]) gauge) = true := by
    decide +kernel
  obtain ⟨⟨⟩, d', hwrite, hread⟩ := EStateM.exists_of_succeedsWith _ hsucceeds
  have hread := Except.toOption_eq_some_iff.mp (of_decide_eq_true hread)
  refine ⟨(Reachable.create "gauge" true).applyAll _, d', hwrite, hread, fun hother => ?_⟩
  have hsame := Except.ok.inj (hread.symm.trans hother)
  exact absurd hsame (by decide)

end GroupFlattening.Dataset
