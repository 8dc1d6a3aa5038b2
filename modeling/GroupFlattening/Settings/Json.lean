import GroupFlattening.Fault
import GroupFlattening.Json.Value
import GroupFlattening.Settings.Basic

/-!
# Settings as JSON

Settings are written as an object with one field for each choice. When they are read, a missing
field takes its default, unknown fields are passed over, a field given twice is refused, and an
array may stand for the object, its items being the fields in order.
-/

namespace GroupFlattening.Settings

open Json (Value)

/-! ## Writing -/

/-- A slice shape as a value. -/
def shapeValue : Option Shape → Value
  | none => .null
  | some shape => .array (shape.map Value.ofNat)

/-- The map of slice shapes as a value. -/
def shapesValue : Option (SortedMap (Option Shape)) → Value
  | none => .null
  | some shapes =>
    .object (shapes.entries.map fun entry =>
      (entry.1.toList.map Json.TextUnit.ofChar, shapeValue entry.2))

/-- The names of the fields, in the order in which they are written. -/
def fieldNames : List String :=
  ["lax_mode", "copy_data", "copy_slice_shapes", "default_slice_bytes", "max_group_depth"]

/-- The settings as a value. -/
def toValue (settings : Settings) : Value :=
  let values :=
    [.boolean settings.laxMode, .boolean settings.copyData, shapesValue settings.sliceShapes,
      .ofNat settings.sliceBudget, .ofNat settings.depthLimit]
  .object ((fieldNames.map fun name => name.toList.map Json.TextUnit.ofChar).zip values)

/-- The settings as a text. -/
def toJson (settings : Settings) : String := String.ofList settings.toValue.written

/-! ## Reading -/

/-- The slice shape that a value stands for. -/
def shape? : Value → Option (Option Shape)
  | .null => some none
  | .array items => (items.mapM Value.nat?).map some
  | _ => none

/-- The map of slice shapes that a value stands for. -/
def shapes? : Value → Option (Option (SortedMap (Option Shape)))
  | .null => some none
  | .object fields => do
    let entries ← fields.mapM fun field => do
      let path ← Json.key? field.1
      let shape ← shape? field.2
      pure (path, shape)
    pure (some (SortedMap.ofList entries))
  | _ => none

/-- A field's value, or the default where the field is missing. -/
def field {α : Type} (fields : List (String × Value)) (name : String) (read : Value → Option α)
    (default : α) : Option α :=
  match fields.lookup name with
  | none => some default
  | some value => read value

/-- The settings of the given fields. -/
def ofFields? (fields : List (String × Value)) : Option Settings := do
  -- an unknown field may occur any number of times
  let known := (fields.map (·.1)).filter fieldNames.contains
  guard known.Nodup
  let defaults : Settings := {}
  let laxMode ← field fields "lax_mode" Value.bool? defaults.laxMode
  let copyData ← field fields "copy_data" Value.bool? defaults.copyData
  let sliceShapes ← field fields "copy_slice_shapes" shapes? defaults.sliceShapes
  let sliceBudget ← field fields "default_slice_bytes" Value.nat? defaults.sliceBudget
  let depthLimit ← field fields "max_group_depth" Value.nat? defaults.depthLimit
  pure { laxMode, copyData, sliceShapes, sliceBudget, depthLimit }

/-- The settings that a value stands for. -/
def ofValue? : Value → Option Settings
  | .object fields => do
    let named ← fields.mapM fun field => (Json.key? field.1).map (·, field.2)
    ofFields? named
  | .array items =>
    if items.length ≤ fieldNames.length then ofFields? (fieldNames.zip items) else none
  | _ => none

/-- The settings that a text stands for. -/
def ofJson (text : String) : Except Fault Settings :=
  match (Value.ofChars? text.toList).bind ofValue? with
  | some settings => .ok settings
  | none => .error (.settings "the text does not describe settings")

/-- The settings in the bytes of a file; a file that cannot be read has none. -/
def ofFile : Option ByteArray → Except Fault Settings
  | none => .error (.settings "the file cannot be read")
  | some bytes =>
    match String.fromUTF8? bytes with
    | some text => ofJson text
    | none => .error (.settings "the file does not hold text")

end GroupFlattening.Settings
