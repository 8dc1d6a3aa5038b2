import GroupFlattening.Proofs.Buffer
import Mathlib.Data.List.Basic

/-!
# Copying Elements Between Buffers

One element of a buffer is replaced by one of another buffer by their numbers (`copyElement?`). An
element of fixed width is the slice of bytes that its number points at, and a slice that ends behind
its buffer makes the copy fail. A copy succeeds where both elements are there, and then it is the
replacement of a cell (`copyElement?_ofCells`); bytes that are left over at the end of a buffer play
no part in it.
-/

namespace GroupFlattening

namespace Buffer

/-! ## Slices -/

/-- The items from `start` up to, but excluding, `stop`. -/
def slice? {α : Type} (items : List α) (start stop : Nat) : Option (List α) :=
  if start ≤ stop ∧ stop ≤ items.length then some ((items.take stop).drop start) else none

/-- The items with those from `start` up to `stop` replaced by as many others. -/
def splice? {α : Type} (items : List α) (start stop : Nat) (part : List α) : Option (List α) :=
  if start ≤ stop ∧ stop ≤ items.length ∧ part.length = stop - start then
    some (items.take start ++ (part ++ items.drop stop))
  else none

/-- The target with its element number `k` replaced by element number `i` of the source, where
elements that are bytes take `size` of them. -/
def copyElement? (size : Nat) (source : Buffer) (i : Nat) (target : Buffer) (k : Nat) :
    Option Buffer :=
  match source, target with
  | bytes content, bytes octets => do
    let part ← slice? content (i * size) ((i + 1) * size)
    let octets ← splice? octets (k * size) ((k + 1) * size) part
    pure (bytes octets)
  | strings content, strings texts => do
    let text ← content[i]?
    if k < texts.length then pure (strings (texts.set k text)) else none
  | _, _ => pure target

/-! ## Parts of one length -/

section Parts

variable {α : Type} {size : Nat} {parts : List (List α)}

/-- The chunk with the number `k` begins behind `k` chunks. -/
theorem getElem?_chunks {count k : Nat} (h : k < count) (items : List α) :
    (chunks size count items)[k]? = some ((items.drop (k * size)).take size) := by
  induction count generalizing k items with
  | zero => exact absurd h (Nat.not_lt_zero k)
  | succ count ih =>
    cases k with
    | zero => simp [chunks]
    | succ k =>
      rw [chunks, List.getElem?_cons_succ, ih (Nat.lt_of_succ_lt_succ h), List.drop_drop,
        Nat.succ_mul, Nat.add_comm size]

/-- The first parts take up their number times their length. -/
theorem take_flatten (h : ∀ part ∈ parts, part.length = size) (k : Nat) :
    parts.flatten.take (k * size) = (parts.take k).flatten := by
  induction parts generalizing k with
  | nil => simp
  | cons part rest ih =>
    rw [List.forall_mem_cons] at h
    cases k with
    | zero => simp
    | succ k =>
      rw [List.flatten_cons, List.take_succ_cons, List.flatten_cons, ← ih h.2, Nat.succ_mul,
        Nat.add_comm, ← h.1, List.take_length_add_append]

/-- What is left behind the first parts are the other parts. -/
theorem drop_flatten (h : ∀ part ∈ parts, part.length = size) (k : Nat) :
    parts.flatten.drop (k * size) = (parts.drop k).flatten := by
  induction parts generalizing k with
  | nil => simp
  | cons part rest ih =>
    rw [List.forall_mem_cons] at h
    cases k with
    | zero => simp
    | succ k =>
      rw [List.flatten_cons, List.drop_succ_cons, ← ih h.2, Nat.succ_mul, Nat.add_comm, ← h.1,
        List.drop_length_add_append]

/-- Replacing the items of one part replaces the part. -/
theorem splice?_flatten (h : ∀ part ∈ parts, part.length = size) {k : Nat} (hk : k < parts.length)
    {part : List α} (hpart : part.length = size) :
    splice? parts.flatten (k * size) ((k + 1) * size) part = some (parts.set k part).flatten := by
  -- the part stands between two multiples of the length
  have hroom : (k + 1) * size ≤ parts.flatten.length := by
    rw [length_flatten_of_length_eq h]
    exact Nat.mul_le_mul_right size hk
  have hpartLength : part.length = (k + 1) * size - k * size := by
    rw [Nat.succ_mul, Nat.add_sub_cancel_left, hpart]
  have hle : k * size ≤ (k + 1) * size := Nat.mul_le_mul_right size (Nat.le_succ k)
  rw [splice?, if_pos ⟨hle, hroom, hpartLength⟩, take_flatten h, drop_flatten h,
    List.set_eq_take_append_cons_drop, if_pos hk, List.flatten_append, List.flatten_cons]

end Parts

/-! ## Elements -/

variable {type : ElementType}

theorem suits_ofCells (type : ElementType) (cells : List Cell) :
    (ofCells type cells).suits type = true := by
  rw [ofCells]
  split
  · next hvariable => exact hvariable
  · next hfixed => simpa [suits] using hfixed

/-- The bytes of an element of a buffer. -/
theorem slice?_of_getElem?_cells {content : List UInt8} {i : Nat} {cell : Cell}
    (h : ((bytes content).cells type)[i]? = some cell) :
    ∃ part, cell = .bytes part ∧ part.length = type.size ∧
      slice? content (i * type.size) ((i + 1) * type.size) = some part := by
  rw [cells, List.getElem?_map, Option.map_eq_some_iff] at h
  obtain ⟨part, hpart, rfl⟩ := h
  have hi : i < content.length / type.size := by
    have hlt := (List.getElem?_eq_some_iff.mp hpart).1
    rwa [length_chunks] at hlt
  -- there is a whole chunk with this number
  have hroom : (i + 1) * type.size ≤ content.length :=
    (Nat.le_div_iff_mul_le type.size_pos).mp hi
  have hle : i * type.size ≤ (i + 1) * type.size := Nat.mul_le_mul_right _ (Nat.le_succ i)
  rw [getElem?_chunks hi] at hpart
  obtain rfl := Option.some.inj hpart
  refine ⟨_, rfl, ?_, ?_⟩
  · rw [List.length_take, List.length_drop]
    rw [Nat.succ_mul] at hroom
    omega
  · rw [slice?, if_pos ⟨hle, hroom⟩, List.drop_take, Nat.succ_mul, Nat.add_sub_cancel_left]

/-- Copying an element that is there to a place that is there replaces the element in that
place. -/
theorem copyElement?_ofCells {source : Buffer} (hsuits : source.suits type = true) {i : Nat}
    {cell : Cell} (hcell : (source.cells type)[i]? = some cell) {cells : List Cell}
    (hcells : ∀ c ∈ cells, c.HasType type) {k : Nat} (hk : k < cells.length) :
    copyElement? type.size source i (ofCells type cells) k =
      some (ofCells type (cells.set k cell)) := by
  cases source with
  | bytes content =>
    have hfixed : ¬ type.isVariableLength = true := by simpa [suits] using hsuits
    obtain ⟨part, rfl, hlength, hslice⟩ := slice?_of_getElem?_cells hcell
    -- every cell takes the same number of octets, so a part is found by its number
    have hparts : ∀ octets ∈ cells.map Cell.octets, octets.length = type.size := by
      intro octets hoctets
      obtain ⟨c, hc, rfl⟩ := List.mem_map.mp hoctets
      exact ((hcells c hc).bytes_octets hfixed).2
    have hsplice := splice?_flatten hparts (by simpa using hk) hlength
    rw [ofCells, if_neg hfixed, ofCells, if_neg hfixed, copyElement?, hslice, List.flatMap]
    simp only [Option.bind_eq_bind, Option.bind_some, hsplice, List.flatMap, List.map_set]
    rfl
  | strings content =>
    have hvariable : type.isVariableLength = true := hsuits
    rw [Buffer.cells, List.getElem?_map, Option.map_eq_some_iff] at hcell
    obtain ⟨text, htext, rfl⟩ := hcell
    rw [ofCells, if_pos hvariable, ofCells, if_pos hvariable, copyElement?, htext]
    simp [hk, List.map_set, Cell.string]

end Buffer

end GroupFlattening
