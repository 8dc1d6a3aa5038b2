import GroupFlattening.Dataset.Read

/-!
# Writing a Dataset

Every write first checks its arguments against the dataset and changes it only when nothing can
fail any more. Data written past the end of an unlimited dimension makes the dimension grow; the
variable that is written takes its current shape, the others follow when they are written
themselves.
-/

namespace GroupFlattening.Dataset

/-- A write that checks the dataset and then changes it. -/
def checked {α β : Type} (check : Dataset → Except StoreFault α)
    (change : Dataset → α → β × Dataset) : EStateM StoreFault Dataset β := fun dataset =>
  match check dataset with
  | .error fault => .error fault dataset
  | .ok a => .ok (change dataset a).1 (change dataset a).2

/-! ## Groups and dimensions -/

/-- The group in which a group of this name can be created. -/
def checkGroup (parent name : String) (dataset : Dataset) : Except StoreFault Nat := do
  unless dataset.isNested do
    throw (.unsupported (.groupInFlat dataset.location name))
  let id ← dataset.groupId parent
  if dataset.isNameTaken id name then
    throw (.alreadyExists (ObjectPath.join (dataset.group id).path name))
  pure id

/-- Creates a group inside a group and gives its path. -/
def createGroup (parent name : String) : EStateM StoreFault Dataset String :=
  checked (checkGroup parent name) fun dataset id =>
    let path := ObjectPath.join (dataset.group id).path name
    (path, { dataset with groups := dataset.groups.add (some id) (Group.empty name path) })

/-- The group in which a dimension of this name can be created. -/
def checkDimension (group name : String) (dataset : Dataset) : Except StoreFault Nat := do
  let id ← dataset.groupId group
  if (dataset.group id).dimensions.any fun dimension => dimension.name == name then
    throw (.alreadyExists (ObjectPath.join group name))
  pure id

/-- The dataset with a dimension appended to those of a group. -/
def appendDimension (dataset : Dataset) (id : Nat) (dimension : Dimension) : Dataset :=
  dataset.changeGroup id fun group =>
    { group with dimensions := group.dimensions ++ [dimension] }

/-- Creates a dimension; one without a size is unlimited and empty. -/
def createDimension (group name : String) (size : Option Nat) : EStateM StoreFault Dataset Unit :=
  checked (checkDimension group name) fun dataset id =>
    ((), dataset.appendDimension id (Dimension.create name size))

/-- Creates a dimension of the given size and gives its path. -/
def addDimension (group : String) (dimension : Dimension) : EStateM StoreFault Dataset String :=
  checked (checkDimension group dimension.name) fun dataset id =>
    (ObjectPath.join group dimension.name, dataset.appendDimension id dimension)

/-! ## Variables and attributes -/

/-- The group in which a variable can be created, and the sizes of its dimensions. -/
def checkVariable (group : String) (definition : VariableDefinition) (dataset : Dataset) :
    Except StoreFault (Nat × Shape) := do
  let id ← dataset.groupId group
  if dataset.isNameTaken id definition.name then
    throw (.alreadyExists (ObjectPath.join group definition.name))
  let shape ← dataset.shapeOf definition.dimensions
  pure (id, shape)

/-- A variable of the given shape that holds zeros. -/
def Variable.ofDefinition (definition : VariableDefinition) (shape : Shape) : Variable :=
  { name := definition.name
    type := definition.type
    dimensions := definition.dimensions
    attributes := definition.fillValue.toList.map fun value => (fillValueName, value)
    stored := shape
    cells := ∅ }

/-- Creates a variable that holds zeros. -/
def createVariable (group : String) (definition : VariableDefinition) :
    EStateM StoreFault Dataset Unit :=
  checked (checkVariable group definition) fun dataset (id, shape) =>
    ((), dataset.changeGroup id fun g =>
      { g with vars := g.vars ++ [Variable.ofDefinition definition shape] })

/-- Creates a variable without a fill value and gives its path. -/
def addVariable (group name : String) (type : ElementType) (dimensions : List String) :
    EStateM StoreFault Dataset String := do
  createVariable group { name, type, dimensions, fillValue := none }
  pure (ObjectPath.join group name)

/-- Sets an attribute of a group. -/
def setGroupAttribute (group name : String) (value : AttributeValue) :
    EStateM StoreFault Dataset Unit :=
  checked (fun dataset => dataset.groupId group) fun dataset id =>
    ((), dataset.changeGroup id fun g => { g with attributes := g.attributes.set name value })

/-- Sets an attribute of a variable. -/
def setVariableAttribute (path name : String) (value : AttributeValue) :
    EStateM StoreFault Dataset Unit :=
  checked (fun dataset => dataset.findVariable path) fun dataset (id, v) =>
    ((), dataset.changeVariable id v.name fun v =>
      { v with attributes := v.attributes.set name value })

/-! ## Data -/

/-- The variable with the given cells in a box, in row-major order. -/
def Variable.fill (v : Variable) (box : Box) (cells : List Cell) : Variable :=
  { v with
    cells := (box.indices.zip cells).foldl (fun all entry => all.insert entry.1 entry.2) v.cells }

/-- Refuses an axis on which the box ends behind a dimension that cannot grow. -/
def checkAxis (path : String) (dataset : Dataset) (axis : String × Nat) :
    Except StoreFault Unit := do
  let dimension ← dataset.dimension axis.1
  if dimension.size < axis.2 ∧ ¬ dimension.isUnlimited then
    throw (.data (.fixedSize path axis.2 axis.1 dimension.size))

/-- The variable to write to and the box to write, if the data suits them. -/
def checkWrite (path : String) (selection : Selection) (data : Buffer) (dataset : Dataset) :
    Except StoreFault (Nat × Variable × Box) := do
  let (id, v) ← dataset.findVariable path
  unless data.suits v.type do
    throw (.data (.kindMismatch path v.type))
  let shape ← dataset.shapeOf v.dimensions
  let box := selection.bounds shape
  -- the box may end behind the shape, where a dimension can grow
  unless box.start.length = shape.length ∧ box.count.length = shape.length do
    throw (.data (.rankMismatch path shape.length))
  unless data.elementCount v.type = box.count.volume do
    throw (.data (.countMismatch path box.count.volume (data.elementCount v.type)))
  (v.dimensions.zip box.stop).forM (checkAxis path dataset)
  pure (id, v, box)

/-- The dataset with a dimension grown to reach at least the given size. -/
def growDimension (dataset : Dataset) (axis : String × Nat) : Dataset :=
  let (group, name) := ObjectPath.split axis.1
  match dataset.groupId group with
  | .ok id =>
    dataset.changeDimension id name fun dimension =>
      { dimension with size := max dimension.size axis.2 }
  | .error _ => dataset

/-- The size of a dimension, zero if there is none. -/
def sizeOf (dataset : Dataset) (path : String) : Nat :=
  match dataset.dimension path with
  | .ok dimension => dimension.size
  | .error _ => 0

/-- The dataset with the dimensions of a variable grown to hold the box, and its cells there set. -/
def store (dataset : Dataset) (id : Nat) (v : Variable) (box : Box) (data : Buffer) : Dataset :=
  let grown := (v.dimensions.zip box.stop).foldl growDimension dataset
  let shape := v.dimensions.map grown.sizeOf
  -- other variables that share a grown dimension keep the shape they have
  grown.changeVariable id v.name fun v =>
    { v.fill box (data.cells v.type) with stored := shape }

/-- Writes the selected data of a variable. -/
def writeData (path : String) (selection : Selection) (data : Buffer) :
    EStateM StoreFault Dataset Unit :=
  checked (checkWrite path selection data) fun dataset (id, v, box) =>
    ((), dataset.store id v box data)

/-- Writes all data of a variable. -/
def putData (path : String) (data : Buffer) : EStateM StoreFault Dataset Unit :=
  writeData path .all data

instance : Writable Dataset where
  createDimension := createDimension
  createVariable := createVariable
  setGroupAttribute := setGroupAttribute
  setVariableAttribute := setVariableAttribute
  writeData := writeData

end GroupFlattening.Dataset
