import GroupFlattening.ElementType
import GroupFlattening.Shape.Selection
import GroupFlattening.Store.Capability

/-!
# Faults

What can go wrong, as causes: each constructor holds what the fault is about, and one function per
type puts it into words.
-/

namespace GroupFlattening

/-! ## Faults of a dataset -/

/-- An object that is not there. -/
inductive MissingObject where
  /-- Nothing has this path. -/
  | path (path : String)
  /-- A dimension of a variable has no flat counterpart. -/
  | dimensionOf (dimension owner : String)
  deriving DecidableEq, Repr

/-- The object, as messages name it. -/
def MissingObject.message : MissingObject → String
  | path p => p
  | dimensionOf dimension owner => "dimension " ++ dimension ++ " of " ++ owner

/-- Why an operation is not supported. -/
inductive Unsupported where
  /-- A flat dataset has no groups but the root. -/
  | groupInFlat (location group : String)
  /-- The kind of dataset has no such operation. -/
  | operation (store : String) (name : Operation)
  deriving DecidableEq, Repr

/-- The cause in words. -/
def Unsupported.message : Unsupported → String
  | groupInFlat location group => location ++ ": flat dataset cannot hold group " ++ group
  | .operation store name => store ++ ": " ++ name.label ++ " not supported"

/-- Why data cannot be read or written. -/
inductive DataFault where
  /-- The selection does not lie inside the variable. -/
  | outside (target : String) (selection : Selection) (shape : Shape)
  /-- Bytes were given for strings, or strings for numbers. -/
  | kindMismatch (target : String) (type : ElementType)
  /-- The selection has another number of axes than the variable. -/
  | rankMismatch (target : String) (rank : Nat)
  /-- The buffer has more or fewer elements than are selected. -/
  | countMismatch (target : String) (expected actual : Nat)
  /-- The selection ends behind a dimension that cannot grow. -/
  | fixedSize (target : String) (stop : Nat) (dimension : String) (size : Nat)
  deriving DecidableEq, Repr

/-- The cause in words. -/
def DataFault.message : DataFault → String
  | outside target selection shape =>
    target ++ ": selection " ++ selection.describe ++ " outside shape " ++
      Selection.describeNumbers shape
  | kindMismatch target type => target ++ ": buffer kind does not match " ++ type.label
  | rankMismatch target rank =>
    target ++ ": selection rank does not match rank " ++ toString rank
  | countMismatch target expected actual =>
    target ++ ": expected " ++ toString expected ++ " elements, got " ++ toString actual
  | fixedSize target stop dimension size =>
    target ++ ": write to " ++ toString stop ++ " exceeds fixed dimension " ++ dimension ++
      " of size " ++ toString size

/-- Why an operation on a dataset failed. -/
inductive StoreFault where
  /-- The storage behind the dataset failed. -/
  | io (text : String)
  /-- The dataset has no such operation. -/
  | unsupported (cause : Unsupported)
  /-- An object is not there. -/
  | notFound (object : MissingObject)
  /-- An object of this path is there already. -/
  | alreadyExists (path : String)
  /-- The data or the selection does not suit the variable. -/
  | data (cause : DataFault)
  deriving DecidableEq, Repr

/-- The words for an operation that a dataset does not have. -/
def StoreFault.unsupportedMessage (cause : String) : String :=
  "backend operation not supported: " ++ cause

/-- The words for data that does not suit a variable. -/
def StoreFault.dataMessage (cause : String) : String := "data error: " ++ cause

/-- The cause in words. -/
def StoreFault.message : StoreFault → String
  | io text => "backend I/O error: " ++ text
  | unsupported cause => unsupportedMessage cause.message
  | notFound object => "object not found: " ++ object.message
  | alreadyExists path => "duplicate name: " ++ path
  | data cause => dataMessage cause.message

/-! ## Faults of flattening -/

/-- The two datasets that take part. -/
inductive Side where
  | input
  | output
  deriving DecidableEq, Repr

/-- The word for a side. -/
def Side.label : Side → String
  | input => "input"
  | output => "output"

/-- Why an input, an output and settings do not go together. -/
inductive Misconfiguration where
  /-- Input and output are one dataset. -/
  | sameDataset (location : String)
  /-- A dataset lacks a capability that is needed. -/
  | incapable (side : Side) (capability : Capability)
  /-- The output has groups. -/
  | outputHoldsGroups (location : String)
  /-- A variable was not there when the input was surveyed. -/
  | missingFromSnapshot (target : String)
  /-- The slices asked for do not suit the variable. -/
  | sliceShapeMisfit (sliceShape : Shape) (target : String) (shape : Shape)
  deriving DecidableEq, Repr

/-- The cause in words. -/
def Misconfiguration.message : Misconfiguration → String
  | sameDataset location => "input and output are the same dataset: " ++ location
  | incapable side capability => side.label ++ " backend cannot " ++ capability.task
  | outputHoldsGroups location => "output " ++ location ++ " already contains groups"
  | missingFromSnapshot target => "variable " ++ target ++ " missing from snapshot"
  | sliceShapeMisfit sliceShape target shape =>
    "slice shape " ++ Selection.describeNumbers sliceShape ++ " does not fit " ++ target ++
      " of shape " ++ Selection.describeNumbers shape

/-- Why flattening failed. -/
inductive Fault where
  /-- Input, output and settings do not go together. -/
  | configuration (cause : Misconfiguration)
  /-- The value of an attribute is not of the expected form. -/
  | parse (name value : String)
  /-- A reference designates nothing. -/
  | unresolvedReference (owner name reference : String)
  /-- A reference designates several objects equally well. -/
  | ambiguousReference (owner name reference : String) (candidates : List String)
  /-- A group is nested too deeply. -/
  | groupDepthExceeded (path : String) (limit : Nat)
  /-- Settings could not be read. -/
  | settings (text : String)
  /-- An operation on a dataset failed. -/
  | store (cause : StoreFault)
  deriving DecidableEq, Repr

/-- The words for settings and datasets that do not go together. -/
def Fault.configurationMessage (cause : String) : String :=
  "invalid flatten configuration: " ++ cause

/-- A reference and where it stands, as messages show it. -/
def Fault.referenceAt (owner name reference : String) : String :=
  "reference \x60" ++ reference ++ "\x60 in attribute \x60" ++ name ++ "\x60 of " ++ owner

/-- The cause in words. -/
def Fault.message : Fault → String
  | configuration cause => configurationMessage cause.message
  | parse name value =>
    "cannot parse attribute \x60" ++ name ++ "\x60 value " ++ Text.quoted value
  | unresolvedReference owner name reference =>
    "unresolved " ++ referenceAt owner name reference
  | ambiguousReference owner name reference candidates =>
    "ambiguous " ++ referenceAt owner name reference ++ ": candidates " ++
      Text.bracketed (candidates.map Text.quoted)
  | groupDepthExceeded path limit =>
    "group " ++ path ++ " exceeds maximum nesting depth " ++ toString limit
  | settings text => "cannot load flatten configuration: " ++ text
  | store cause => cause.message

end GroupFlattening
