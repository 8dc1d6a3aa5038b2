import GroupFlattening.Flatten.Replacement
import GroupFlattening.Provenance
import GroupFlattening.Settings.Basic
import GroupFlattening.Shape.Slices

/-!
# Transfer

The single steps that carry a nested dataset over into the root group of another one: the
attributes and dimensions of a group, a variable with its attributes, the data of a variable, and
last the provenance of everything written. The steps act on the output and on the provenance
gathered so far, and both outlive a failure.
-/

namespace GroupFlattening

/-- An output and where its objects come from. -/
structure Transfer (σ : Type) where
  /-- The dataset that is written. -/
  output : σ
  /-- The provenance of what has been written. -/
  provenance : ProvenanceMaps := {}

/-- A step of a transfer. -/
abbrev TransferM (σ : Type) := EStateM Fault (Transfer σ)

namespace Transfer

variable {ι σ : Type} [Readable ι] [Writable σ]

/-! ## Elementary steps -/

/-- A read of the input. -/
def fromInput {α : Type} (read : Except StoreFault α) : TransferM σ α := fun transfer =>
  match read with
  | .ok a => .ok a transfer
  | .error fault => .error (.store fault) transfer

/-- A computation that touches neither dataset. -/
def compute {α : Type} (result : Except Fault α) : TransferM σ α := fun transfer =>
  match result with
  | .ok a => .ok a transfer
  | .error fault => .error fault transfer

/-- A write to the output. -/
def onOutput {α : Type} (write : EStateM StoreFault σ α) : TransferM σ α := fun transfer =>
  match write transfer.output with
  | .ok a output => .ok a { transfer with output }
  | .error fault output => .error (.store fault) { transfer with output }

/-- A change of the provenance. -/
def record (change : ProvenanceMaps → ProvenanceMaps) : TransferM σ Unit := fun transfer =>
  .ok () { transfer with provenance := change transfer.provenance }

/-! ## Groups -/

/-- Writes an attribute of a group to the root of the output. -/
def groupAttribute (group : String) (entry : String × AttributeValue) : TransferM σ Unit := do
  let flat := flatName group entry.1
  onOutput (Writable.setGroupAttribute ObjectPath.root flat entry.2)
  record fun maps =>
    { maps with attributes := maps.attributes.push flat (ObjectPath.join group entry.1) }

/-- Creates a dimension of a group in the root of the output. -/
def dimension (group : String) (dimension : Dimension) : TransferM σ Unit := do
  let flat := flatName group dimension.name
  onOutput (Writable.createDimension ObjectPath.root flat dimension.creationSize)
  record fun maps =>
    { maps with dimensions := maps.dimensions.push flat (ObjectPath.join group dimension.name) }

/-- Carries over the attributes and dimensions of a group, and lists its variables. -/
def group (input : ι) (path : String) : TransferM σ (List VariableInfo) := do
  let attributes ← fromInput (Readable.groupAttributes input path)
  attributes.forM (groupAttribute path)
  let dimensions ← fromInput (Readable.dimensions input path)
  dimensions.forM (dimension path)
  fromInput (Readable.variableInfos input path)

/-! ## Variables -/

/-- An attribute whose references have to be replaced. -/
structure Pending where
  /-- The path of the variable. -/
  owner : String
  /-- The path of its flat copy. -/
  flatOwner : String
  /-- The name of the attribute. -/
  name : String
  /-- The text of the attribute. -/
  value : String
  /-- The rule of the attribute. -/
  rule : ReferenceRule
  deriving DecidableEq, Repr, Inhabited

/-- Where a pending attribute stands. -/
def Pending.site (pending : Pending) : ReferenceSite :=
  ⟨pending.owner, pending.name, pending.rule⟩

/-- A variable that has been created. -/
structure Created where
  /-- The path of the variable. -/
  path : String
  /-- The path of its flat copy. -/
  flatPath : String
  /-- The attributes whose references have to be replaced. -/
  pending : List Pending
  deriving DecidableEq, Repr, Inhabited

/-- The path in the output of a dimension of a variable. -/
def flatDimension (names : NameTable) (owner path : String) : Except Fault String :=
  match names.dimensions.find? path with
  | some flat => .ok (ObjectPath.join ObjectPath.root flat)
  | none => .error (.store (.notFound (.dimensionOf path owner)))

/-- The attribute as one whose references have to be replaced, if a rule governs it. -/
def pending? (path flatPath : String) (entry : String × AttributeValue) :
    Except Fault (Option Pending) :=
  match ReferenceRule.forAttribute? entry.1 with
  | none => .ok none
  | some rule => do
    let value ← entry.2.referenceText entry.1
    pure (some ⟨path, flatPath, entry.1, value, rule⟩)

/-- Sets an attribute of a variable of the output. -/
def setAttribute (flatPath name : String) (value : AttributeValue) : TransferM σ Unit :=
  onOutput (Writable.setVariableAttribute flatPath name value)

/-- Carries over an attribute of a variable as it is. -/
def variableAttribute (path flatPath : String) (entry : String × AttributeValue) :
    TransferM σ (Option Pending) := do
  -- a value that cannot hold references is a fault before it is set
  let pending ← compute (pending? path flatPath entry)
  setAttribute flatPath entry.1 entry.2
  pure pending

/-- Creates the flat copy of a variable with all its attributes as they are; the fill value is
part of the creation. -/
def createVariable (input : ι) (names : NameTable) (group : String) (info : VariableInfo) :
    TransferM σ Created := do
  let path := ObjectPath.join group info.name
  let flat := flatName group info.name
  let flatPath := ObjectPath.join ObjectPath.root flat
  let dimensions ← compute (info.dimensions.mapM (flatDimension names path))
  let attributes ← fromInput (Readable.variableAttributes input path)
  onOutput (Writable.createVariable ObjectPath.root
    { name := flat, type := info.type, dimensions,
      fillValue := Attributes.find? attributes fillValueName })
  record fun maps => { maps with vars := maps.vars.push flat path }
  -- the fill value is already there, as part of the creation
  let others := attributes.filter fun entry => entry.1 != fillValueName
  let pending ← others.mapM (variableAttribute path flatPath)
  pure { path, flatPath, pending := pending.filterMap id }

/-! ## Data -/

/-- Carries over one part of the data of a variable to its place in the copy. -/
def dataPart (input : ι) (path flatPath : String) (part place : Selection) :
    TransferM σ Unit := do
  let data ← fromInput (Readable.readData input path part)
  onOutput (Writable.writeData flatPath place data)

/-- Carries over the data of a variable, whole or in slices, unless there is none or data is not
to be copied. -/
def data (input : ι) (settings : Settings) (path flatPath : String) (info : VariableInfo) :
    TransferM σ Unit :=
  if ¬ settings.copyData ∨ 0 ∈ info.shape then pure ()
  else
    match settings.sliceShapeFor path info.shape info.type.size with
    -- unlimited dimensions of the copy are still empty, so the whole is written as a box
    | none => dataPart input path flatPath .all (.box (Box.whole info.shape))
    | some sliceShape =>
      if sliceShape.length ≠ info.shape.length ∨ 0 ∈ sliceShape then
        throw (.configuration (.sliceShapeMisfit sliceShape path info.shape))
      else
        (SliceGrid.mk info.shape sliceShape).forSlices fun box =>
          dataPart input path flatPath (.box box) (.box box)

/-! ## Provenance -/

/-- Writes the provenance to the output. -/
def finish : TransferM σ ProvenanceMaps := do
  let transfer ← get
  onOutput transfer.provenance.write
  pure transfer.provenance

end Transfer

end GroupFlattening
