import GroupFlattening.Proofs.Buffer.Copy
import GroupFlattening.Proofs.Dataset.Layout
import GroupFlattening.Proofs.Shape.Walk

/-!
# Stored Buffers

The dense array of a variable is kept in a buffer. It is read, laid out anew and written by walks
over boxes that copy one element after the other (`Storage.read?`, `Storage.relayout?`,
`Storage.write?`). Every place in a buffer is looked up, and a place that is out of range makes the
walk fail.

On the buffer of an array whose elements are of its type no walk fails, and each does to the buffer
what the operation of its name does to the array (`read?_storage`, `relayout?_storage`,
`write?_storage`).
-/

namespace GroupFlattening.Dataset

/-! ## Arrays in buffers -/

/-- An array of elements of one type in a buffer. -/
structure Storage where
  /-- The type of the elements. -/
  type : ElementType
  /-- The lengths of the axes. -/
  shape : Shape
  /-- The elements in row-major order. -/
  buffer : Buffer
  deriving DecidableEq, Repr

namespace Storage

/-- An array of zeros. -/
def zeroed (type : ElementType) (shape : Shape) : Storage :=
  ⟨type, shape, Buffer.zeroed type shape.volume⟩

/-- The data with its element number `k` read from an index, if the index lies in the shape. -/
def readElement? (storage : Storage) (data : Buffer) (k : Nat) (index : Index) : Option Buffer :=
  if (index.zip storage.shape).all fun axis => decide (axis.1 < axis.2) then
    Buffer.copyElement? storage.type.size storage.buffer (storage.shape.linear index) data k
  else some data

/-- Reads the next element. -/
def readStep (storage : Storage) (state : Buffer × Nat) (index : Index) : Option (Buffer × Nat) :=
  (storage.readElement? state.1 state.2 index).map fun data => (data, state.2 + 1)

/-- The data in a box, padded with zeros. -/
def read? (storage : Storage) (box : Box) : Option Buffer :=
  (box.forEach? storage.readStep (Buffer.zeroed storage.type box.count.volume, 0)).map (·.1)

/-- Copies the element at an index to its place in another shape. -/
def moveStep (storage : Storage) (shape : Shape) (buffer : Buffer) (index : Index) :
    Option Buffer :=
  Buffer.copyElement? storage.type.size storage.buffer (storage.shape.linear index) buffer
    (shape.linear index)

/-- The array moved to another shape. -/
def relayout? (storage : Storage) (shape : Shape) : Option Storage :=
  let overlap := List.zipWith min storage.shape shape
  ((Box.mk (List.replicate shape.length 0) overlap).forEach? (storage.moveStep shape)
    (Buffer.zeroed storage.type shape.volume)).map fun buffer => { storage with shape, buffer }

/-- The array in a shape, to which it is moved if it has another one. -/
def inShape? (storage : Storage) (shape : Shape) : Option Storage :=
  if storage.shape = shape then some storage else storage.relayout? shape

/-- Copies the next element of the data to its place at an index. -/
def writeStep (storage : Storage) (data : Buffer) (state : Buffer × Nat) (index : Index) :
    Option (Buffer × Nat) :=
  (Buffer.copyElement? storage.type.size data state.2 state.1 (storage.shape.linear index)).map
    fun buffer => (buffer, state.2 + 1)

/-- The array with data in a box. -/
def fill? (storage : Storage) (box : Box) (data : Buffer) : Option Storage :=
  (box.forEach? (storage.writeStep data) (storage.buffer, 0)).map fun state =>
    { storage with buffer := state.1 }

/-- The array in a shape, with data in a box. -/
def write? (storage : Storage) (shape : Shape) (box : Box) (data : Buffer) : Option Storage :=
  (storage.inShape? shape).bind fun moved => moved.fill? box data

end Storage

namespace Layout

/-- The array in a buffer. -/
def storage (l : Layout) : Storage := ⟨l.type, l.shape, Buffer.ofCells l.type l.elements⟩

/-- Whether all elements of an array are of its type. -/
def HasType (l : Layout) : Prop := ∀ cell ∈ l.elements, cell.HasType l.type

variable {l : Layout} {index : Index}

@[simp] theorem type_storage (l : Layout) : l.storage.type = l.type := rfl

@[simp] theorem shape_storage (l : Layout) : l.storage.shape = l.shape := rfl

/-- A layout of the same type in the given shape is stored as its buffer. -/
theorem storage_eq {m : Layout} (htype : m.type = l.type) {shape : Shape}
    (hshape : m.shape = shape) : m.storage = ⟨l.type, shape, m.storage.buffer⟩ := by
  rw [← htype, ← hshape]
  rfl

theorem storage_zeroed (type : ElementType) (shape : Shape) :
    (zeroed type shape).storage = Storage.zeroed type shape := rfl

theorem hasType_zeroed (type : ElementType) (shape : Shape) : (zeroed type shape).HasType := by
  intro cell hcell
  rw [List.eq_of_mem_replicate hcell]
  exact Cell.hasType_zero type

theorem HasType.set (h : l.HasType) {cell : Cell} (hcell : cell.HasType l.type) (index : Index) :
    (l.set index cell).HasType := by
  intro c hc
  rcases List.mem_or_eq_of_mem_set hc with hc | rfl
  · exact h c hc
  · exact hcell

/-- Setting elements to cells of the type keeps all elements of the type. -/
theorem HasType.setAll (h : l.HasType) {entries : List (Index × Cell)}
    (hentries : ∀ entry ∈ entries, entry.2.HasType l.type) : (l.setAll entries).HasType := by
  induction entries generalizing l with
  | nil => exact h
  | cons entry rest ih =>
    rw [List.forall_mem_cons] at hentries
    exact ih (h.set hentries.1 entry.1) hentries.2

/-- The element at an index inside the shape stands at the number of the index. -/
theorem getElem?_elements (hindex : l.shape.Within index) :
    l.elements[l.shape.offset index]? = some (l.element index) := by
  have hlt : l.shape.offset index < l.elements.length := by
    rw [l.length_elements]
    exact Shape.offset_lt hindex
  rw [element_of_within hindex]
  simp [hlt]

theorem HasType.element (h : l.HasType) (index : Index) : (l.element index).HasType l.type := by
  by_cases hindex : l.shape.Within index
  · exact h _ (List.mem_of_getElem? (getElem?_elements hindex))
  · rw [element_of_not_within hindex]
    exact Cell.hasType_zero l.type

/-- Moving to another shape keeps all elements of the type. -/
theorem HasType.relayout (h : l.HasType) (shape : Shape) : (l.relayout shape).HasType := by
  apply (hasType_zeroed l.type shape).setAll
  intro entry hentry
  obtain ⟨index, -, rfl⟩ := List.mem_map.mp hentry
  exact h.element index

theorem HasType.inShape (h : l.HasType) (shape : Shape) : (l.inShape shape).HasType := by
  rw [Layout.inShape]
  split
  · exact h
  · exact h.relayout shape

/-- The buffer of an array has the element at an index under the number of the index. -/
theorem getElem?_cells (h : l.HasType) (hindex : l.shape.Within index) :
    (l.storage.buffer.cells l.type)[l.shape.linear index]? = some (l.element index) := by
  rw [storage, Buffer.cells_ofCells h, Shape.linear_eq_offset hindex.length_eq,
    getElem?_elements hindex]

/-- Copying an element to the number of an index sets the element at the index. -/
theorem copyElement?_set (h : l.HasType) {source : Buffer} (hsuits : source.suits l.type = true)
    {i : Nat} {cell : Cell} (hcell : (source.cells l.type)[i]? = some cell)
    (hindex : l.shape.Within index) :
    Buffer.copyElement? l.type.size source i l.storage.buffer (l.shape.linear index) =
      some (l.set index cell).storage.buffer := by
  have hlt : l.shape.offset index < l.elements.length := by
    rw [l.length_elements]
    exact Shape.offset_lt hindex
  rw [Shape.linear_eq_offset hindex.length_eq]
  exact Buffer.copyElement?_ofCells hsuits hcell h hlt

/-! ## Reading -/

/-- An index is inside a shape just if each of its numbers is below the length of its axis. -/
theorem all_lt_iff {shape : Shape} (h : index.length = shape.length) :
    ((index.zip shape).all fun axis => decide (axis.1 < axis.2)) = true ↔ shape.Within index := by
  rw [Shape.within_iff_forall₂, List.forall₂_iff_zip]
  simp [h]

/-- Reading an element puts it in the place of a zero. -/
theorem readElement?_eq (h : l.HasType) (hindex : index.length = l.shape.length)
    {done later : List Cell}
    (hcells : ∀ cell ∈ done ++ Cell.zero l.type :: later, cell.HasType l.type) :
    l.storage.readElement? (Buffer.ofCells l.type (done ++ Cell.zero l.type :: later)) done.length
        index =
      some (Buffer.ofCells l.type (done ++ l.element index :: later)) := by
  by_cases hwithin : l.shape.Within index
  -- an index inside the shape is copied over the zero
  · have hcopy := Buffer.copyElement?_ofCells (Buffer.suits_ofCells l.type l.elements)
      (getElem?_cells h hwithin) hcells (k := done.length) (by simp)
    rw [Storage.readElement?, shape_storage, if_pos ((all_lt_iff hindex).mpr hwithin)]
    refine hcopy.trans ?_
    simp
  · -- the zero that is there already
    rw [Storage.readElement?, shape_storage, if_neg (mt (all_lt_iff hindex).mp hwithin),
      element_of_not_within hwithin]

/-- What has been read is followed by zeros until the rest is read. -/
theorem foldlM_readStep (h : l.HasType) {rest : List Index}
    (hrest : ∀ index ∈ rest, index.length = l.shape.length) (done : List Cell)
    (hdone : ∀ cell ∈ done, cell.HasType l.type) :
    rest.foldlM l.storage.readStep
        (Buffer.ofCells l.type (done ++ List.replicate rest.length (Cell.zero l.type)),
          done.length) =
      some (Buffer.ofCells l.type (done ++ rest.map l.element), done.length + rest.length) := by
  induction rest generalizing done with
  -- by the indices that are left: `done` is read already, and zeros stand for the rest
  | nil => simp
  | cons index rest ih =>
    rw [List.forall_mem_cons] at hrest
    have hcells : ∀ cell ∈
        done ++ Cell.zero l.type :: List.replicate rest.length (Cell.zero l.type),
        cell.HasType l.type := by
      rw [List.forall_mem_append, ← List.replicate_succ]
      refine ⟨hdone, fun cell hcell => ?_⟩
      rw [List.eq_of_mem_replicate hcell]
      exact Cell.hasType_zero l.type
    have hdone' : ∀ cell ∈ done ++ [l.element index], cell.HasType l.type := by
      rw [List.forall_mem_append, List.forall_mem_singleton]
      exact ⟨hdone, h.element index⟩
    have hnext := ih hrest.2 _ hdone'
    rw [List.append_assoc, List.append_assoc, List.length_append, List.length_singleton] at hnext
    rw [List.foldlM_cons, List.length_cons, List.replicate_succ, Storage.readStep,
      readElement?_eq h hrest.1 hcells]
    refine hnext.trans ?_
    rw [Nat.add_assoc, Nat.add_comm 1]
    rfl

/-- Every element in a box is read, zero where the box ends behind the array. -/
theorem read?_storage (h : l.HasType) {box : Box} (hstart : box.start.length = l.shape.length)
    (hcount : box.count.length = l.shape.length) : l.storage.read? box = some (l.read box) := by
  have hrank : box.start.length = box.count.length := hstart.trans hcount.symm
  -- every index of the box has a number for every axis
  have hindices : ∀ index ∈ box.indices, index.length = l.shape.length := by
    intro index hindex
    rw [(Box.within_of_mem_indices hindex (List.forall₂_refl _)).length_eq]
    simp [Box.stop, hstart, hcount]
  have hread := foldlM_readStep h hindices [] (by simp)
  rw [Box.length_indices] at hread
  rw [Storage.read?, Box.forEach?_eq_foldlM hrank]
  refine (congrArg (Option.map (·.1)) hread).trans ?_
  rfl

/-! ## Moving -/

/-- Elements that are copied to the numbers of indices are set at the indices. -/
theorem foldlM_moveStep (h : l.HasType) {indices : List Index}
    (hsource : ∀ index ∈ indices, l.shape.Within index) {m : Layout} (hm : m.HasType)
    (htype : m.type = l.type) (htarget : ∀ index ∈ indices, m.shape.Within index) :
    indices.foldlM (l.storage.moveStep m.shape) m.storage.buffer =
      some (m.setAll (indices.map fun index => (index, l.element index))).storage.buffer := by
  induction indices generalizing m with
  -- by the indices that are left: the target has got the elements of those before
  | nil => rfl
  | cons index rest ih =>
    rw [List.forall_mem_cons] at hsource htarget
    have hcell : (l.element index).HasType m.type := htype ▸ h.element index
    have hstep : l.storage.moveStep m.shape m.storage.buffer index =
        some (m.set index (l.element index)).storage.buffer := by
      have hget := getElem?_cells h hsource.1
      rw [← htype] at hget
      have hcopy := copyElement?_set hm (htype ▸ Buffer.suits_ofCells l.type l.elements) hget
        htarget.1
      rw [← hcopy, Storage.moveStep, type_storage, shape_storage, htype]
    rw [List.foldlM_cons, hstep]
    exact ih hsource.2 (m := m.set index (l.element index)) (hm.set hcell index) htype htarget.2

/-- The elements that both shapes have are moved. -/
theorem relayout?_storage (h : l.HasType) {shape : Shape}
    (hlength : l.shape.length = shape.length) :
    l.storage.relayout? shape = some (l.relayout shape).storage := by
  have hzero : List.replicate shape.length 0 =
      (List.zipWith min l.shape shape).map fun _ => 0 := by
    rw [List.map_const', List.length_zipWith, hlength, Nat.min_self]
  have hrank : (List.replicate shape.length 0).length =
      (List.zipWith min l.shape shape).length := by
    simp [hlength]
  -- the overlap as a box from the origin is walked in the order of its indices
  have hindices : (Box.mk (List.replicate shape.length 0)
      (List.zipWith min l.shape shape)).indices =
        Shape.indices (List.zipWith min l.shape shape) := by
    rw [hzero]
    exact Box.indices_whole _
  have hoverlap : ∀ index ∈ Shape.indices (List.zipWith min l.shape shape),
      l.shape.Within index ∧ shape.Within index :=
    fun index hindex => (within_overlap hlength).mp (Shape.mem_indices_iff.mp hindex)
  have hmove := foldlM_moveStep h (fun index hindex => (hoverlap index hindex).1)
    (hasType_zeroed l.type shape) rfl (fun index hindex => (hoverlap index hindex).2)
  rw [Storage.relayout?]
  simp only [shape_storage, type_storage]
  rw [Box.forEach?_eq_foldlM hrank, hindices]
  refine (congrArg (Option.map _) hmove).trans (congrArg some ?_)
  exact (storage_eq (type_setAll (zeroed l.type shape) _)
    (shape_setAll (zeroed l.type shape) _)).symm

/-- Bringing a stored layout into a shape finds every element it looks up. -/
theorem inShape?_storage (h : l.HasType) {shape : Shape}
    (hlength : l.shape.length = shape.length) :
    l.storage.inShape? shape = some (l.inShape shape).storage := by
  rw [inShape, Storage.inShape?, shape_storage]
  split
  · rfl
  · exact relayout?_storage h hlength

/-! ## Writing -/

/-- Data is copied to the indices in its order. -/
theorem foldlM_writeStep (h : l.HasType) {data : Buffer} (hsuits : data.suits l.type = true)
    {indices : List Index} (hindices : ∀ index ∈ indices, l.shape.Within index) {k : Nat}
    (hk : k + indices.length = (data.cells l.type).length) :
    indices.foldlM (l.storage.writeStep data) (l.storage.buffer, k) =
      some ((l.setAll (indices.zip ((data.cells l.type).drop k))).storage.buffer,
        k + indices.length) := by
  induction indices generalizing l k with
  -- by the indices that are left, the next one getting the cell with the number `k`
  | nil => rfl
  | cons index rest ih =>
    rw [List.forall_mem_cons] at hindices
    rw [List.length_cons] at hk
    have hlt : k < (data.cells l.type).length := by omega
    have hcell : (data.cells l.type)[k]? = some (data.cells l.type)[k] :=
      List.getElem?_eq_getElem hlt
    have hset := h.set (Buffer.hasType_of_mem_cells hsuits (List.getElem_mem hlt)) index
    have hstep : l.storage.writeStep data (l.storage.buffer, k) index =
        some ((l.set index (data.cells l.type)[k]).storage.buffer, k + 1) :=
      congrArg (Option.map _) (copyElement?_set h hsuits hcell hindices.1)
    have hrest := ih (l := l.set index (data.cells l.type)[k]) hset hsuits hindices.2 (k := k + 1)
      (by show k + 1 + rest.length = (data.cells l.type).length; omega)
    rw [List.foldlM_cons, hstep, List.drop_eq_getElem_cons hlt, List.zip_cons_cons,
      List.length_cons]
    refine hrest.trans ?_
    rw [Nat.add_assoc, Nat.add_comm 1]
    rfl

/-- Data is written to its box once the array has its new shape. -/
theorem write?_storage (h : l.HasType) {shape : Shape} (hlength : l.shape.length = shape.length)
    {box : Box} (hrank : box.start.length = box.count.length)
    (hbox : ∀ index ∈ box.indices, shape.Within index) {data : Buffer}
    (hsuits : data.suits l.type = true) (hcount : data.elementCount l.type = box.count.volume) :
    l.storage.write? shape box data = some (l.write shape box (data.cells l.type)).storage := by
  have htype := l.type_inShape shape
  have hshape := l.shape_inShape shape
  have hinside : ∀ index ∈ box.indices, (l.inShape shape).shape.Within index := by
    rwa [hshape]
  have hwrite := foldlM_writeStep (h.inShape shape) (htype ▸ hsuits) hinside (k := 0)
    (by rw [htype, Nat.zero_add, Box.length_indices, Buffer.length_cells, hcount])
  rw [htype, List.drop_zero] at hwrite
  rw [Storage.write?, inShape?_storage h hlength, Option.bind_some, Storage.fill?,
    Box.forEach?_eq_foldlM hrank]
  refine (congrArg (Option.map _) hwrite).trans (congrArg some ?_)
  exact (storage_eq (type_setAll (l.inShape shape) _) (shape_setAll (l.inShape shape) _)).symm

end Layout

end GroupFlattening.Dataset
