import GroupFlattening.Fault
import GroupFlattening.ObjectPath
import GroupFlattening.Store.Basic

/-!
# Provenance

A flat dataset records where its objects come from: for attributes, dimensions and variables a
list of records, each a flat name and a path. They are kept in three attributes of the root, each
a list of texts `flat name: /path`. A text is read by its first colon followed by a space; the
name in front must not be empty and the path behind must be absolute.
-/

namespace GroupFlattening

/-- Where the objects of one kind come from, in the order in which they were written. -/
structure Provenance where
  /-- Flat names and paths. -/
  records : List (String × String) := []
  deriving DecidableEq, Repr, Inhabited

namespace Provenance

/-- The provenance with one more record. -/
def push (provenance : Provenance) (flat path : String) : Provenance :=
  ⟨provenance.records ++ [(flat, path)]⟩

/-- The path that an object of this flat name comes from. -/
def path? (provenance : Provenance) (flat : String) : Option String :=
  (provenance.records.find? fun record => record.1 == flat).map (·.2)

/-- The flat name of the object with this path. -/
def flat? (provenance : Provenance) (path : String) : Option String :=
  (provenance.records.find? fun record => record.2 == path).map (·.1)

/-- Whether no flat name and no path occurs twice. -/
def isBijective (provenance : Provenance) : Bool :=
  decide (provenance.records.map (·.1)).Nodup && decide (provenance.records.map (·.2)).Nodup

/-! ## As an attribute -/

/-- What stands between a flat name and a path. -/
def recordSeparator : String := ": "

/-- A record as a text. -/
def recordText (record : String × String) : String := record.1 ++ recordSeparator ++ record.2

/-- The provenance as the value of an attribute. -/
def toAttribute (provenance : Provenance) : AttributeValue :=
  .texts (provenance.records.map recordText)

/-- What stands before and after the first colon followed by a space. -/
def cutAtSeparator : List Char → Option (List Char × List Char)
  | ':' :: ' ' :: rest => some ([], rest)
  | c :: rest => (cutAtSeparator rest).map fun (before, after) => (c :: before, after)
  | [] => none

/-- The record that a text stands for. -/
def record? (text : String) : Option (String × String) := do
  -- the separator may occur again in the path
  let (flat, path) ← cutAtSeparator text.toList
  if flat = [] ∨ path.head? ≠ some ObjectPath.separator then none
  else some (String.ofList flat, String.ofList path)

/-- The record that a text in an attribute stands for, or the fault of the text. -/
def readRecord (name text : String) : Except Fault (String × String) :=
  match record? text with
  | some record => .ok record
  | none => .error (.parse name text)

/-- The provenance that the value of an attribute stands for; a single text is one record. -/
def ofAttribute (name : String) : AttributeValue → Except Fault Provenance
  | .texts texts => Provenance.mk <$> texts.mapM (readRecord name)
  | .text text => Provenance.mk <$> [text].mapM (readRecord name)
  | value => .error (.parse name value.describe)

end Provenance

/-! ## All three kinds -/

/-- Where the attributes, dimensions and variables of a flat dataset come from. -/
structure ProvenanceMaps where
  /-- The attributes of groups. -/
  attributes : Provenance := {}
  /-- The dimensions. -/
  dimensions : Provenance := {}
  /-- The variables. -/
  vars : Provenance := {}
  deriving DecidableEq, Repr, Inhabited

namespace ProvenanceMaps

/-- The root attribute for attributes of groups. -/
def attributesName : String := "__flattener_name_mapping_attributes"

/-- The root attribute for dimensions. -/
def dimensionsName : String := "__flattener_name_mapping_dimensions"

/-- The root attribute for variables. -/
def variablesName : String := "__flattener_name_mapping_variables"

/-- Whether none of the maps holds a name or a path twice. -/
def isBijective (maps : ProvenanceMaps) : Bool :=
  maps.attributes.isBijective && maps.dimensions.isBijective && maps.vars.isBijective

/-- Writes the maps to the root of a dataset. -/
def write {σ : Type} [Writable σ] (maps : ProvenanceMaps) : EStateM StoreFault σ Unit := do
  Writable.setGroupAttribute ObjectPath.root attributesName maps.attributes.toAttribute
  Writable.setGroupAttribute ObjectPath.root dimensionsName maps.dimensions.toAttribute
  Writable.setGroupAttribute ObjectPath.root variablesName maps.vars.toAttribute

/-- The maps with the one replaced that an attribute holds. -/
def readAttribute (maps : ProvenanceMaps) (entry : String × AttributeValue) :
    Except Fault ProvenanceMaps := do
  if entry.1 = attributesName then
    pure { maps with attributes := ← Provenance.ofAttribute entry.1 entry.2 }
  else if entry.1 = dimensionsName then
    pure { maps with dimensions := ← Provenance.ofAttribute entry.1 entry.2 }
  else if entry.1 = variablesName then
    pure { maps with vars := ← Provenance.ofAttribute entry.1 entry.2 }
  else pure maps

/-- The maps at the root of a dataset; an attribute that is missing leaves its map empty. -/
def read {σ : Type} [Readable σ] (dataset : σ) : Except Fault ProvenanceMaps := do
  let attributes ← (Readable.groupAttributes dataset ObjectPath.root).mapError Fault.store
  attributes.foldlM readAttribute {}

end ProvenanceMaps

end GroupFlattening
