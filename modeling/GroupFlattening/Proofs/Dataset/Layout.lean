import GroupFlattening.Proofs.Dataset.Stored

/-!
# Dense Layouts

A variable keeps its cells by their indices, and most of them not at all. The other way to keep them
is a dense array in row-major order, of the shape that the variable was last written with. Such an
array has to be laid out anew when the variable has become longer on some axis (`Layout.relayout`),
and it is padded with zeros when it is read while it lags behind (`Layout.read`). Every variable has
one dense layout (`Variable.layout`): creating, reading and writing the variable is creating,
reading and writing its layout (`layout_ofDefinition`, `read_layout`, `layout_written`).
-/

namespace GroupFlattening.Dataset

/-- The elements of an array in row-major order. -/
structure Layout where
  /-- The type of the elements. -/
  type : ElementType
  /-- The lengths of the axes. -/
  shape : Shape
  /-- One element for each index of the shape. -/
  elements : List Cell
  length_elements : elements.length = shape.volume

namespace Layout

/-- An array of zeros. -/
def zeroed (type : ElementType) (shape : Shape) : Layout :=
  ⟨type, shape, List.replicate shape.volume (Cell.zero type), List.length_replicate ..⟩

/-- The element at an index, zero outside the shape. -/
def element (l : Layout) (index : Index) : Cell :=
  if l.shape.Within index then l.elements.getD (l.shape.offset index) (Cell.zero l.type)
  else Cell.zero l.type

/-- The array with another element at an index of its shape. -/
def set (l : Layout) (index : Index) (cell : Cell) : Layout :=
  { l with
    elements := l.elements.set (l.shape.offset index) cell
    length_elements := by rw [List.length_set, l.length_elements] }

/-- The array with other elements, set one after the other. -/
def setAll (l : Layout) (entries : List (Index × Cell)) : Layout :=
  entries.foldl (fun l entry => l.set entry.1 entry.2) l

/-- The data in a box, padded with zeros. -/
def read (l : Layout) (box : Box) : Buffer := Buffer.ofCells l.type (box.indices.map l.element)

/-- The array moved to another shape, with the elements that both shapes have. -/
def relayout (l : Layout) (shape : Shape) : Layout :=
  (zeroed l.type shape).setAll
    ((Shape.indices (List.zipWith min l.shape shape)).map fun index => (index, l.element index))

/-- The array in a shape, to which it is moved if it has another one. -/
def inShape (l : Layout) (shape : Shape) : Layout :=
  if l.shape = shape then l else l.relayout shape

/-- The array in a shape, with cells in a box. -/
def write (l : Layout) (shape : Shape) (box : Box) (cells : List Cell) : Layout :=
  (l.inShape shape).setAll (box.indices.zip cells)

/-! ## Single elements -/

variable {l : Layout} {index : Index}

theorem element_of_within (h : l.shape.Within index) :
    l.element index = l.elements.getD (l.shape.offset index) (Cell.zero l.type) :=
  if_pos h

theorem element_of_not_within (h : ¬ l.shape.Within index) : l.element index = Cell.zero l.type :=
  if_neg h

/-- An array is given by its elements. -/
theorem ext_element {l' : Layout} (htype : l.type = l'.type) (hshape : l.shape = l'.shape)
    (h : ∀ index, l.shape.Within index → l.element index = l'.element index) : l = l' := by
  obtain ⟨type, shape, elements, hlength⟩ := l
  obtain ⟨type', shape', elements', hlength'⟩ := l'
  obtain rfl : type = type' := htype
  obtain rfl : shape = shape' := hshape
  suffices helements : elements = elements' by subst helements; rfl
  -- two lists of one length, compared number by number
  apply List.ext_getElem (hlength.trans hlength'.symm)
  intro k hk hk'
  -- the element with this number is the one at the index of the number
  have hvolume : k < shape.volume := hlength ▸ hk
  have hwithin := Shape.within_unrank hvolume
  have helement := h (shape.unrank k) hwithin
  rw [element_of_within hwithin, element_of_within hwithin] at helement
  simpa [Shape.offset_unrank hvolume, hk, hk'] using helement

theorem element_zeroed (type : ElementType) (shape : Shape) (index : Index) :
    (zeroed type shape).element index = Cell.zero type := by
  by_cases h : shape.Within index
  · have hlt := Shape.offset_lt h
    rw [element_of_within (l := zeroed type shape) h]
    simp [zeroed, hlt]
  · rw [element_of_not_within (l := zeroed type shape) h]
    rfl

/-- Setting an element changes that element and no other. -/
theorem element_set {other : Index} (h : l.shape.Within index) (hother : l.shape.Within other)
    (cell : Cell) :
    (l.set other cell).element index = if index = other then cell else l.element index := by
  have hlt : l.shape.offset index < l.elements.length := by
    rw [l.length_elements]
    exact Shape.offset_lt h
  rw [element_of_within (l := l) h, element_of_within (l := l.set other cell) h]
  show (l.elements.set (l.shape.offset other) cell).getD (l.shape.offset index)
    (Cell.zero l.type) = _
  by_cases heq : index = other
  · subst heq
    simp [hlt]
  · -- different indices have different numbers
    have hne : l.shape.offset other ≠ l.shape.offset index := by
      intro hoffset
      apply heq
      rw [← Shape.unrank_offset h, ← hoffset, Shape.unrank_offset hother]
    simp [heq, hne]

/-! ## Many elements -/

theorem shape_setAll (l : Layout) (entries : List (Index × Cell)) :
    (l.setAll entries).shape = l.shape := by
  induction entries generalizing l with
  | nil => rfl
  | cons entry rest ih => exact ih (l.set entry.1 entry.2)

theorem type_setAll (l : Layout) (entries : List (Index × Cell)) :
    (l.setAll entries).type = l.type := by
  induction entries generalizing l with
  | nil => rfl
  | cons entry rest ih => exact ih (l.set entry.1 entry.2)

/-- Setting the elements at some indices to what a function has there changes no other element. -/
theorem element_setAll_map {indices : List Index} (hindices : ∀ i ∈ indices, l.shape.Within i)
    (f : Index → Cell) (h : l.shape.Within index) :
    (l.setAll (indices.map fun i => (i, f i))).element index =
      if index ∈ indices then f index else l.element index := by
  induction indices generalizing l with
  -- along the indices: what is set last counts, but equal indices get equal elements
  | nil => rfl
  | cons i rest ih =>
    rw [List.forall_mem_cons] at hindices
    have hrest := ih (l := l.set i (f i)) hindices.2 h
    rw [element_set h hindices.1] at hrest
    show ((l.set i (f i)).setAll (rest.map fun i => (i, f i))).element index = _
    rw [hrest]
    by_cases hmem : index ∈ rest
    · simp [hmem]
    · by_cases heq : index = i
      · simp [heq]
      · simp [hmem, heq]

/-- The overlap of two shapes has the indices that both have. -/
theorem within_overlap {shape shape' : Shape} (hlength : shape.length = shape'.length) :
    Shape.Within (List.zipWith min shape shape') index ↔
      shape.Within index ∧ shape'.Within index := by
  -- axis by axis, both shapes and the index at once
  induction shape generalizing shape' index with
  | nil =>
    rw [List.length_eq_zero_iff.mp hlength.symm]
    simp
  | cons n shape ih =>
    cases shape' with
    | nil => cases hlength
    | cons n' shape' =>
      cases index with
      | nil => simp [Shape.Within]
      | cons i index =>
        simp only [List.zipWith_cons_cons, Shape.Within, ih (Nat.succ.inj hlength),
          Nat.lt_min]
        exact and_and_and_comm

/-- Laying an array out anew moves its elements and pads with zeros. -/
theorem element_relayout {shape : Shape} (hlength : l.shape.length = shape.length)
    (h : shape.Within index) : (l.relayout shape).element index = l.element index := by
  have hoverlap : ∀ i ∈ Shape.indices (List.zipWith min l.shape shape), shape.Within i :=
    fun i hi => ((within_overlap hlength).mp (Shape.mem_indices_iff.mp hi)).2
  unfold relayout
  rw [element_setAll_map (l := zeroed l.type shape) hoverlap l.element h, element_zeroed]
  split
  · rfl
  · next hmem =>
    -- an index that is not in the overlap is new
    have hnew : ¬ l.shape.Within index := fun hold =>
      hmem (Shape.mem_indices_iff.mpr ((within_overlap hlength).mpr ⟨hold, h⟩))
    rw [element_of_not_within hnew]

example : ((⟨.byte, [2, 2], [.bytes [1], .bytes [2], .bytes [3], .bytes [4]], rfl⟩ :
    Layout).relayout [2, 3]).elements =
      [.bytes [1], .bytes [2], .bytes [0], .bytes [3], .bytes [4], .bytes [0]] := by decide

theorem shape_inShape (l : Layout) (shape : Shape) : (l.inShape shape).shape = shape := by
  unfold inShape
  split
  · next hsame => exact hsame
  · exact shape_setAll (zeroed l.type shape) _

theorem type_inShape (l : Layout) (shape : Shape) : (l.inShape shape).type = l.type := by
  unfold inShape
  split
  · rfl
  · exact type_setAll (zeroed l.type shape) _

theorem element_inShape {shape : Shape} (hlength : l.shape.length = shape.length)
    (h : shape.Within index) : (l.inShape shape).element index = l.element index := by
  unfold inShape
  split
  · rfl
  · exact element_relayout hlength h

end Layout

/-! ## Layouts of variables -/

namespace Variable

/-- The dense layout of a variable. -/
def layout (v : Variable) : Layout :=
  ⟨v.type, v.stored, v.stored.indices.map v.cell, by simp [Shape.indices]⟩

variable {v : Variable} {shape : Shape}

/-- The layout has the element of the variable at every index. -/
theorem element_layout (hv : v.Holds shape) (index : Index) :
    v.layout.element index = v.cell index := by
  by_cases hindex : v.stored.Within index
  -- inside the stored shape the dense list has the cell at its number
  · have hlt := Shape.offset_lt hindex
    rw [Layout.element_of_within (l := v.layout) hindex]
    show (v.stored.indices.map v.cell).getD (v.stored.offset index) _ = _
    simp [Shape.indices, hlt, Shape.unrank_offset hindex]
  -- outside of it nothing was ever filled
  · have hstored : v.Holds v.stored :=
      ⟨List.forall₂_refl _, hv.within_stored, hv.hasType⟩
    rw [Layout.element_of_not_within (l := v.layout) hindex, hstored.cell_eq_zero hindex]
    rfl

/-- A variable that is created has a layout of zeros. -/
theorem layout_ofDefinition (definition : VariableDefinition) (shape : Shape) :
    (ofDefinition definition shape).layout = Layout.zeroed definition.type shape := by
  apply Layout.ext_element
  · rfl
  · rfl
  intro index _
  rw [element_layout (.ofDefinition definition shape), cell_ofDefinition, Layout.element_zeroed]

theorem read_layout (hv : v.Holds shape) (box : Box) : v.layout.read box = v.read box := by
  have hcells : v.layout.element = v.cell := funext (element_layout hv)
  unfold Layout.read Variable.read
  rw [hcells]
  rfl

/-- The cells of data, with the indices at which the filled variable holds them. -/
theorem zip_indices_eq_map {box : Box} {cells : List Cell}
    (hbox : box.start.length = box.count.length) (hcells : cells.length = box.count.volume) :
    box.indices.zip cells =
      box.indices.map fun index => (index, (v.fill box cells).cell index) := by
  apply List.ext_getElem
  · simp [Box.length_indices, hcells]
  · intro k hk hk'
    rw [List.length_map] at hk'
    -- the cell with this number is the one that the box is filled with there
    have hlt : k < cells.length := by
      rw [hcells, ← Box.length_indices]
      exact hk'
    have hcell := cell_fill_of_getElem? (v := v) hbox hcells (List.getElem?_eq_getElem hk')
      (List.getElem?_eq_getElem hlt)
    rw [List.getElem_zip, List.getElem_map, hcell]

end Variable

/-! ## Data that is written -/

section Store

variable {d : Dataset} (hd : d.WellFormed) {path : String} {id : Nat} {v : Variable}
  (hfind : d.findVariable path = .ok (id, v)) {box : Box} {data : Buffer}

include hd hfind

/-- Writing data to a variable is laying its array out in the new shape of the variable and writing
the cells of the data to the box. -/
theorem layout_written (hv : v.Holds (d.currentShape v)) (hsuits : data.suits v.type = true)
    (hstart : box.start.length = v.dimensions.length)
    (hlength : box.count.length = v.dimensions.length)
    (hcount : data.elementCount v.type = box.count.volume) :
    (d.written v box data).layout =
      v.layout.write ((d.store id v box data).currentShape v) box (data.cells v.type) := by
  have hholds := holds_written hd hfind hv hsuits hstart hlength hcount
  have hends : box.stop.length = v.dimensions.length := by
    simp [Box.stop, hstart, hlength]
  have hstop : List.Forall₂ (· ≤ ·) box.stop ((d.store id v box data).currentShape v) :=
    stop_le_currentShape hd hfind hends
  have hrank : v.stored.length = ((d.store id v box data).currentShape v).length := by
    rw [List.Forall₂.length_eq hv.stored_le, currentShape, currentShape, List.length_map,
      List.length_map]
  -- only the shape after the write matters from here on
  generalize hnew : (d.store id v box data).currentShape v = shape at hholds hstop hrank
  have hstored : (d.written v box data).layout.shape = shape :=
    (stored_written d id v box data).trans hnew
  have hshape := v.layout.shape_inShape shape
  have hinside : ∀ index ∈ box.indices, (v.layout.inShape shape).shape.Within index := by
    intro index hindex
    rw [hshape]
    exact Box.within_of_mem_indices hindex hstop
  unfold Layout.write
  rw [Variable.zip_indices_eq_map (v := v) (hstart.trans hlength.symm)
    ((Buffer.length_cells v.type data).trans hcount)]
  -- element by element: the type, the shape, and what is inside or outside the box
  apply Layout.ext_element
  · rw [Layout.type_setAll, Layout.type_inShape]
    rfl
  · rw [Layout.shape_setAll, hshape, hstored]
  · intro index hindex
    rw [hstored] at hindex
    rw [Variable.element_layout hholds, Layout.element_setAll_map hinside _ (hshape.symm ▸ hindex)]
    split
    · rfl
    · next houtside =>
      rw [Layout.element_inShape hrank hindex, Variable.element_layout hv]
      exact Variable.cell_fill_of_not_mem houtside

end Store

end GroupFlattening.Dataset
