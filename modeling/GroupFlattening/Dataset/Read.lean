import GroupFlattening.Dataset.Basic

/-!
# Reading a Dataset

Listings of groups and the data of variables. A selection is read cell by cell; cells that were
never written are zero.
-/

namespace GroupFlattening.Dataset

/-- The cell of a variable at an index. -/
def Variable.cell (v : Variable) (index : Index) : Cell := v.cells.getD index (Cell.zero v.type)

/-- The data of a variable in a box. -/
def Variable.read (v : Variable) (box : Box) : Buffer :=
  Buffer.ofCells v.type (box.indices.map v.cell)

/-- What a dataset can do: everything, groups only if it is nested. -/
def capabilities (dataset : Dataset) : List Capability :=
  [.readMetadata, .readData, .writeMetadata, .writeData] ++
    if dataset.isNested then [.groups] else []

/-- The names of the groups inside a group. -/
def groupNames (dataset : Dataset) (path : String) : Except StoreFault (List String) := do
  let id ← dataset.groupId path
  pure ((dataset.groups.children id).map fun c => (dataset.group c).name)

/-- The attributes of a group. -/
def groupAttributes (dataset : Dataset) (path : String) : Except StoreFault Attributes := do
  let id ← dataset.groupId path
  pure (dataset.group id).attributes

/-- The dimensions of a group. -/
def dimensions (dataset : Dataset) (path : String) : Except StoreFault (List Dimension) := do
  let id ← dataset.groupId path
  pure (dataset.group id).dimensions

/-- A variable as it is listed. -/
def infoOf (dataset : Dataset) (v : Variable) : Except StoreFault VariableInfo := do
  let shape ← dataset.shapeOf v.dimensions
  pure { name := v.name, type := v.type, dimensions := v.dimensions, shape := shape }

/-- The variables of a group. -/
def variableInfos (dataset : Dataset) (path : String) : Except StoreFault (List VariableInfo) := do
  let id ← dataset.groupId path
  (dataset.group id).vars.mapM dataset.infoOf

/-- The attributes of a variable. -/
def variableAttributes (dataset : Dataset) (path : String) : Except StoreFault Attributes := do
  let (_, v) ← dataset.findVariable path
  pure v.attributes

/-- The variable to read from and the box to read, if the selection lies inside the variable. -/
def checkRead (dataset : Dataset) (path : String) (selection : Selection) :
    Except StoreFault (Variable × Box) := do
  let (_, v) ← dataset.findVariable path
  let shape ← dataset.shapeOf v.dimensions
  if selection.fits shape then pure (v, selection.bounds shape)
  else throw (.data (.outside path selection shape))

/-- The selected data of a variable. -/
def readData (dataset : Dataset) (path : String) (selection : Selection) :
    Except StoreFault Buffer := do
  let (v, box) ← dataset.checkRead path selection
  pure (v.read box)

/-- An attribute of a group. -/
def groupAttribute? (dataset : Dataset) (path name : String) : Option AttributeValue :=
  (dataset.groupAttributes path).toOption.bind (Attributes.find? · name)

/-- An attribute of a variable. -/
def variableAttribute? (dataset : Dataset) (path name : String) : Option AttributeValue :=
  (dataset.variableAttributes path).toOption.bind (Attributes.find? · name)

instance : Readable Dataset where
  name _ := "memory"
  location := location
  capabilities := capabilities
  groupNames := groupNames
  groupAttributes := groupAttributes
  dimensions := dimensions
  variableInfos := variableInfos
  variableAttributes := variableAttributes
  readData := readData

end GroupFlattening.Dataset
