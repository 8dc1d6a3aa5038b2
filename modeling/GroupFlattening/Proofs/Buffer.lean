import GroupFlattening.Buffer
import Mathlib.Data.List.TakeDrop

/-!
# Buffers and Their Cells

A buffer that suits a type is taken apart into cells of that type (`hasType_of_mem_cells`), and
cells of one type that are put together are found again when the buffer is taken apart
(`cells_ofCells`). The other way round, what is put together from the cells of a buffer lacks the
bytes that were left over behind the last complete element (`ofCells_cells`).
-/

namespace GroupFlattening

/-! ## Cells of a type -/

namespace Cell

variable {type : ElementType}

theorem hasType_zero (type : ElementType) : HasType type (zero type) := by
  unfold zero
  split
  · next hvariable => exact hvariable
  · next hfixed => exact ⟨hfixed, List.length_replicate⟩

/-- Elements of variable length are strings. -/
theorem HasType.text_string {cell : Cell} (h : HasType type cell)
    (hvariable : type.isVariableLength = true) : text cell.string = cell := by
  cases cell with
  | bytes content => exact absurd hvariable h.1
  | text content => rfl

/-- Elements of fixed length are bytes. -/
theorem HasType.bytes_octets {cell : Cell} (h : HasType type cell)
    (hfixed : ¬ type.isVariableLength = true) :
    bytes cell.octets = cell ∧ cell.octets.length = type.size := by
  cases cell with
  | bytes content => exact ⟨rfl, h.2⟩
  | text content => exact absurd h hfixed

end Cell

/-! ## Chunks -/

namespace Buffer

section Chunks

variable {α : Type} {size : Nat}

/-- A chunk has the length asked for, as long as there are items enough. -/
theorem length_of_mem_chunks {count : Nat} {items chunk : List α}
    (h : count * size ≤ items.length) (hchunk : chunk ∈ chunks size count items) :
    chunk.length = size := by
  induction count generalizing items with
  | zero => cases hchunk
  | succ count ih =>
    rw [Nat.succ_mul] at h
    rw [chunks, List.mem_cons] at hchunk
    rcases hchunk with rfl | hchunk
    · rw [List.length_take]
      omega
    · refine ih ?_ hchunk
      rw [List.length_drop]
      omega

/-- Parts of one length that are put together are the chunks of that length. -/
theorem chunks_flatten {parts : List (List α)} (h : ∀ part ∈ parts, part.length = size) :
    chunks size parts.length parts.flatten = parts := by
  induction parts with
  | nil => rfl
  | cons part rest ih =>
    rw [List.forall_mem_cons] at h
    rw [List.length_cons, chunks, List.flatten_cons, List.take_left' h.1, List.drop_left' h.1,
      ih h.2]

/-- Chunks that are put together are the items that they were cut from. -/
theorem flatten_chunks (count : Nat) (items : List α) :
    (chunks size count items).flatten = items.take (count * size) := by
  induction count generalizing items with
  | zero => simp [chunks]
  | succ count ih =>
    rw [chunks, List.flatten_cons, ih, Nat.succ_mul, Nat.add_comm, List.take_add]

theorem length_flatten_of_length_eq {parts : List (List α)}
    (h : ∀ part ∈ parts, part.length = size) : parts.flatten.length = parts.length * size := by
  rw [List.length_flatten, List.map_eq_replicate_iff.mpr h, List.sum_replicate_nat]

end Chunks

/-! ## Taking apart and putting together -/

variable {type : ElementType}

/-- The cells of a buffer that suits a type are of the type. -/
theorem hasType_of_mem_cells {buffer : Buffer} (hsuits : buffer.suits type = true) {cell : Cell}
    (hcell : cell ∈ buffer.cells type) : cell.HasType type := by
  cases buffer with
  | bytes content =>
    obtain ⟨chunk, hchunk, rfl⟩ := List.mem_map.mp hcell
    have hle : content.length / type.size * type.size ≤ content.length :=
      Nat.div_mul_le_self content.length type.size
    refine ⟨?_, length_of_mem_chunks hle hchunk⟩
    simpa [suits] using hsuits
  | strings content =>
    obtain ⟨text, -, rfl⟩ := List.mem_map.mp hcell
    exact hsuits

/-- Taking apart a buffer put together from cells gives the cells back. -/
theorem cells_ofCells {cells : List Cell} (h : ∀ cell ∈ cells, cell.HasType type) :
    (ofCells type cells).cells type = cells := by
  unfold ofCells
  split
  · next hvariable =>
    show (cells.map Cell.string).map Cell.text = cells
    rw [List.map_map]
    calc cells.map (Cell.text ∘ Cell.string)
        = cells.map id :=
          List.map_congr_left fun cell hcell => (h cell hcell).text_string hvariable
      _ = cells := List.map_id cells
  · next hfixed =>
    have hlength : ∀ part ∈ cells.map Cell.octets, part.length = type.size := by
      intro part hpart
      obtain ⟨cell, hcell, rfl⟩ := List.mem_map.mp hpart
      exact ((h cell hcell).bytes_octets hfixed).2
    -- as many chunks come out as cells went in
    have hcount : (cells.flatMap Cell.octets).length / type.size = cells.length := by
      rw [List.flatMap, length_flatten_of_length_eq hlength, List.length_map,
        Nat.mul_div_cancel _ type.size_pos]
    show (chunks type.size ((cells.flatMap Cell.octets).length / type.size)
      (cells.flatMap Cell.octets)).map Cell.bytes = cells
    have hchunks := chunks_flatten hlength
    rw [List.length_map] at hchunks
    rw [hcount, List.flatMap, hchunks, List.map_map]
    calc cells.map (Cell.bytes ∘ Cell.octets)
        = cells.map id :=
          List.map_congr_left fun cell hcell => ((h cell hcell).bytes_octets hfixed).1
      _ = cells := List.map_id cells

/-- A buffer without the bytes behind its last complete element. -/
def whole (type : ElementType) : Buffer → Buffer
  | bytes content => bytes (content.take (content.length / type.size * type.size))
  | strings content => strings content

/-- Whether a buffer consists of complete elements. -/
def IsWhole (type : ElementType) : Buffer → Prop
  | bytes content => type.size ∣ content.length
  | strings _ => True

/-- A buffer is whole if nothing is left over behind its last element. -/
theorem whole_eq_self_iff {buffer : Buffer} : buffer.whole type = buffer ↔ buffer.IsWhole type := by
  cases buffer with
  | bytes content =>
    rw [whole, IsWhole, bytes.injEq, List.take_eq_self_iff]
    constructor
    · intro hle
      have heq := Nat.le_antisymm (Nat.div_mul_le_self content.length type.size) hle
      exact heq ▸ Nat.dvd_mul_left ..
    · intro hdvd
      exact Nat.le_of_eq (Nat.div_mul_cancel hdvd).symm
  | strings content => exact iff_of_true rfl trivial

/-- Putting the cells of a buffer together gives all of it but the bytes that are left over. -/
theorem ofCells_cells {buffer : Buffer} (hsuits : buffer.suits type = true) :
    ofCells type (buffer.cells type) = buffer.whole type := by
  cases buffer with
  | bytes content =>
    -- what is cut into chunks and put together again is the part that fills chunks
    have hfixed : ¬ type.isVariableLength = true := by simpa [suits] using hsuits
    rw [cells, ofCells, if_neg hfixed, List.flatMap_map, whole, ← flatten_chunks]
    exact congrArg bytes List.flatMap_id
  | strings content =>
    have hvariable : type.isVariableLength = true := hsuits
    rw [cells, ofCells, if_pos hvariable, List.map_map, whole]
    exact congrArg strings (List.map_id content)

end Buffer

end GroupFlattening
