import GroupFlattening.Attribute
import GroupFlattening.Buffer
import GroupFlattening.Dimension
import GroupFlattening.Fault

/-!
# Datasets as Stores

A dataset is addressed by paths: groups, their attributes, dimensions and variables, and the data
of variables by selections. `Readable` is what flattening needs of its input, `Writable` what it
needs of its output. A write acts on the dataset as a state that outlives a failure; a kind of
dataset without some write leaves it out and refuses it.
-/

namespace GroupFlattening

/-- A variable as its dataset lists it. -/
structure VariableInfo where
  /-- The name within the group. -/
  name : String
  /-- The type of the elements. -/
  type : ElementType
  /-- The paths of the dimensions, outermost first. -/
  dimensions : List String
  /-- The current sizes of the dimensions. -/
  shape : Shape
  deriving DecidableEq, Repr, Inhabited

/-- The number of dimensions. -/
def VariableInfo.rank (info : VariableInfo) : Nat := info.dimensions.length

/-- A variable as it is to be created. -/
structure VariableDefinition where
  /-- The name within the group. -/
  name : String
  /-- The type of the elements. -/
  type : ElementType
  /-- The paths of dimensions that exist, outermost first. -/
  dimensions : List String
  /-- The fill value, which cannot be set later. -/
  fillValue : Option AttributeValue
  deriving DecidableEq, Repr, Inhabited

/-- The attribute that holds the fill value of a variable. -/
def fillValueName : String := "_FillValue"

/-- Datasets that can be read. -/
class Readable (σ : Type) where
  /-- The kind of dataset. -/
  name : σ → String
  /-- Where the dataset is stored; two datasets of one location are the same. -/
  location : σ → String
  /-- What the dataset can do. -/
  capabilities : σ → List Capability
  /-- The names of the groups inside a group, in the order of their creation. -/
  groupNames : σ → (group : String) → Except StoreFault (List String)
  /-- The attributes of a group. -/
  groupAttributes : σ → (group : String) → Except StoreFault Attributes
  /-- The dimensions of a group. -/
  dimensions : σ → (group : String) → Except StoreFault (List Dimension)
  /-- The variables of a group. -/
  variableInfos : σ → (group : String) → Except StoreFault (List VariableInfo)
  /-- The attributes of a variable. -/
  variableAttributes : σ → (path : String) → Except StoreFault Attributes
  /-- The selected data of a variable. -/
  readData : σ → (path : String) → Selection → Except StoreFault Buffer

/-- Whether a dataset can do something. -/
def Readable.supports {σ : Type} [Readable σ] (dataset : σ) (capability : Capability) : Bool :=
  (Readable.capabilities dataset).contains capability

/-- The refusal of an operation that a dataset does not have. -/
def Readable.refuse {σ : Type} [Readable σ] (operation : Operation) : EStateM StoreFault σ Unit :=
  fun dataset => .error (.unsupported (.operation (Readable.name dataset) operation)) dataset

/-- Datasets that can be written. -/
class Writable (σ : Type) extends Readable σ where
  /-- Creates a dimension; one without a size is unlimited. -/
  createDimension (group name : String) (size : Option Nat) : EStateM StoreFault σ Unit :=
    Readable.refuse .createDimension
  /-- Creates a variable that holds zeros. -/
  createVariable (group : String) (definition : VariableDefinition) : EStateM StoreFault σ Unit :=
    Readable.refuse .createVariable
  /-- Sets an attribute of a group. -/
  setGroupAttribute (group name : String) (value : AttributeValue) : EStateM StoreFault σ Unit :=
    Readable.refuse .setGroupAttribute
  /-- Sets an attribute of a variable. -/
  setVariableAttribute (path name : String) (value : AttributeValue) :
      EStateM StoreFault σ Unit :=
    Readable.refuse .setVariableAttribute
  /-- Writes the selected data of a variable. -/
  writeData (path : String) (selection : Selection) (data : Buffer) : EStateM StoreFault σ Unit :=
    Readable.refuse .writeData

end GroupFlattening
