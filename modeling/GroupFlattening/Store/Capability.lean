/-!
# Capabilities and Operations

What a dataset can be asked for: the capabilities that it advertises as a whole, and the single
operations by which a reader or a writer addresses it.
-/

namespace GroupFlattening

/-- What a dataset can do. -/
inductive Capability where
  /-- List groups, dimensions, variables and attributes. -/
  | readMetadata
  /-- Read the data of variables. -/
  | readData
  /-- Create dimensions, variables and attributes. -/
  | writeMetadata
  /-- Write the data of variables. -/
  | writeData
  /-- Hold groups inside groups. -/
  | groups
  deriving DecidableEq, Repr, Inhabited

/-- The task that a capability stands for, in messages. -/
def Capability.task : Capability → String
  | readMetadata => "read metadata"
  | readData => "read data"
  | writeMetadata => "write metadata"
  | writeData => "write data"
  | groups => "hold groups"

/-- The operations on a dataset. -/
inductive Operation where
  | groupNames
  | groupAttributes
  | dimensions
  | variableInfos
  | variableAttributes
  | readData
  | createDimension
  | createVariable
  | setGroupAttribute
  | setVariableAttribute
  | writeData
  deriving DecidableEq, Repr, Inhabited

/-- The name of an operation in messages. -/
def Operation.label : Operation → String
  | groupNames => "group_names"
  | groupAttributes => "group_attributes"
  | dimensions => "dimensions"
  | variableInfos => "variables"
  | variableAttributes => "variable_attributes"
  | readData => "read_data"
  | createDimension => "create_dimension"
  | createVariable => "create_variable"
  | setGroupAttribute => "set_group_attribute"
  | setVariableAttribute => "set_variable_attribute"
  | writeData => "write_data"

end GroupFlattening
