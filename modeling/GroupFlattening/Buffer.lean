import GroupFlattening.ElementType
import GroupFlattening.Decimal.Binary64

/-!
# Data Buffers

The elements that are read from or written to a variable, in row-major order: bytes for types of
fixed width, texts for strings. A buffer can be taken apart into cells, one per element, and put
together again. Numbers are stored with their least significant byte first.
-/

namespace GroupFlattening

/-- Elements of a variable as they are read and written. -/
inductive Buffer where
  /-- The bytes of elements of a fixed width, one element after the other. -/
  | bytes (content : List UInt8)
  /-- The texts of string elements. -/
  | strings (content : List String)
  deriving DecidableEq, Repr, Inhabited

/-- One element of a variable. -/
inductive Cell where
  /-- The bytes of an element of fixed width. -/
  | bytes (content : List UInt8)
  /-- A string element. -/
  | text (content : String)
  deriving DecidableEq, Repr, Inhabited

namespace Cell

/-- The element that a variable holds where nothing was written. -/
def zero (type : ElementType) : Cell :=
  if type.isVariableLength then .text "" else .bytes (List.replicate type.size 0)

/-- The bytes of an element of fixed width. -/
def octets : Cell → List UInt8
  | bytes content => content
  | text _ => []

/-- The text of a string element. -/
def string : Cell → String
  | bytes _ => ""
  | text content => content

/-- Whether the element is one of the given type. -/
def HasType (type : ElementType) : Cell → Prop
  | bytes content => ¬ type.isVariableLength ∧ content.length = type.size
  | text _ => type.isVariableLength

end Cell

namespace Buffer

/-- The first `count` chunks of `size` items. -/
def chunks {α : Type} (size : Nat) : Nat → List α → List (List α)
  | 0, _ => []
  | count + 1, items => items.take size :: chunks size count (items.drop size)

/-- The number of complete elements, where bytes are read as elements of `type`. -/
def elementCount (type : ElementType) : Buffer → Nat
  | bytes content => content.length / type.size
  | strings content => content.length

/-- Whether a buffer of this kind can hold elements of `type`. -/
def suits (type : ElementType) : Buffer → Bool
  | bytes _ => !type.isVariableLength
  | strings _ => type.isVariableLength

/-- The complete elements of a buffer; bytes left over at the end belong to none. -/
def cells (type : ElementType) : Buffer → List Cell
  | bytes content => (chunks type.size (content.length / type.size) content).map Cell.bytes
  | strings content => content.map Cell.text

/-- The buffer of the given elements of `type`. -/
def ofCells (type : ElementType) (cells : List Cell) : Buffer :=
  if type.isVariableLength then .strings (cells.map Cell.string)
  else .bytes (cells.flatMap Cell.octets)

/-- The buffer of `count` elements that were never written. -/
def zeroed (type : ElementType) (count : Nat) : Buffer :=
  ofCells type (List.replicate count (Cell.zero type))

/-- The `count` least significant bytes of `n`, the least significant one first. -/
def littleEndian (n : Nat) : Nat → List UInt8
  | 0 => []
  | count + 1 => UInt8.ofNat (n % 256) :: littleEndian (n / 256) count

/-- The number whose bytes are given, the least significant one first. -/
def ofLittleEndian (octets : List UInt8) : Nat :=
  octets.foldr (fun octet n => octet.toNat + 256 * n) 0

/-- The bytes of doubles. -/
def ofDoubles (values : List Binary64) : Buffer :=
  .bytes (values.flatMap fun x => littleEndian x.bits.toNat 8)

/-- The bytes of integers of thirty-two bits. -/
def ofInt32s (values : List Int32) : Buffer :=
  .bytes (values.flatMap fun x => littleEndian x.toUInt32.toNat 4)

/-- The doubles whose bytes fill the buffer exactly. -/
def toDoubles? : Buffer → Option (List Binary64)
  | bytes content =>
    if content.length % 8 = 0 then
      some ((chunks 8 (content.length / 8) content).map fun octets =>
        ⟨UInt64.ofNat (ofLittleEndian octets)⟩)
    else none
  | strings _ => none

theorem length_chunks {α : Type} (size count : Nat) (items : List α) :
    (chunks size count items).length = count := by
  induction count generalizing items with
  | zero => rfl
  | succ count ih => simp [chunks, ih]

/-- A buffer has as many cells as complete elements. -/
theorem length_cells (type : ElementType) (buffer : Buffer) :
    (buffer.cells type).length = buffer.elementCount type := by
  cases buffer <;> simp [cells, elementCount, length_chunks]

end Buffer

end GroupFlattening
