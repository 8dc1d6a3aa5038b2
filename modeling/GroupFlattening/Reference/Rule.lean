/-!
# Reference Rules

Some attributes of a variable hold names of dimensions or of other variables. A rule says for one
such attribute where in its value the names stand, which kinds of object they name, and how they
are searched for. The table covers the attributes of the climate and forecast conventions, of
mesh topologies and of aggregations.
-/

namespace GroupFlattening

/-- The two kinds of object that a name can designate; each kind has names of its own. -/
inductive ObjectKind where
  /-- A dimension. -/
  | dim
  /-- A variable. -/
  | var
  deriving DecidableEq, Repr, Inhabited

namespace ObjectKind

/-- The kind that is not this one. -/
def other : ObjectKind → ObjectKind
  | dim => var
  | var => dim

/-- The word for a kind. -/
def label : ObjectKind → String
  | dim => "dimension"
  | var => "variable"

end ObjectKind

/-- How the names in one attribute are found and resolved. -/
structure ReferenceRule where
  /-- The attribute that the rule governs. -/
  name : String
  /-- The priority of dimensions; zero means that no name is a dimension. -/
  dimensionPriority : Nat := 0
  /-- The priority of variables; zero means that no name is a variable. -/
  variablePriority : Nat := 0
  /-- Whether the keys of the value are references. -/
  resolvesKeys : Bool := false
  /-- Whether the words after the keys are references. -/
  resolvesValues : Bool := false
  /-- Whether the search goes sideways from the nearest group that has a dimension of the name. -/
  stopsAtApex : Bool := false
  /-- Whether a name that designates nothing is left as a standard name. -/
  acceptsStandardNames : Bool := false
  /-- Whether a variable counts only if it is a scalar coordinate of the referring variable. -/
  onlyScalarCoordinates : Bool := false
  deriving DecidableEq, Repr, Inhabited

namespace ReferenceRule

/-- The kind of object that is searched for first. -/
def primaryKind (rule : ReferenceRule) : ObjectKind :=
  if rule.variablePriority < rule.dimensionPriority then .dim else .var

/-- Whether a name may be of either kind. -/
def allowsBoth (rule : ReferenceRule) : Bool :=
  decide (0 < rule.dimensionPriority) && decide (0 < rule.variablePriority)

/-- The kinds of object that are searched for, in order. -/
def kinds (rule : ReferenceRule) : List ObjectKind :=
  if rule.allowsBoth then [rule.primaryKind, rule.primaryKind.other] else [rule.primaryKind]

/-- A rule for an attribute whose keys name variables. -/
def variableKeys (name : String) : ReferenceRule :=
  { name := name, variablePriority := 1, resolvesKeys := true }

/-- A rule for an attribute whose keys name dimensions. -/
def dimensionKeys (name : String) : ReferenceRule :=
  { name := name, dimensionPriority := 1, resolvesKeys := true }

/-- A rule for an attribute in which the words after the keys name variables. -/
def variableValues (name : String) : ReferenceRule :=
  { name := name, variablePriority := 1, resolvesValues := true }

/-- A rule for an attribute in which all words name variables. -/
def variableWords (name : String) : ReferenceRule :=
  { name := name, variablePriority := 1, resolvesKeys := true, resolvesValues := true }

/-- The rule for the attribute that lists coordinates. It alone stops at the nearest group that has
a dimension of the name. -/
def coordinates : ReferenceRule := { variableKeys "coordinates" with stopsAtApex := true }

/-- The rules, one for each attribute that holds references. -/
def table : List ReferenceRule :=
  [ -- variables and their coordinates
    variableKeys "ancillary_variables",
    variableKeys "bounds",
    variableValues "cell_measures",
    variableKeys "climatology",
    coordinates,
    variableValues "formula_terms",
    variableWords "grid_mapping",
    { name := "cell_methods", dimensionPriority := 2, variablePriority := 1,
      resolvesKeys := true, acceptsStandardNames := true, onlyScalarCoordinates := true },
    -- discrete sampling geometries and compression
    dimensionKeys "compress",
    dimensionKeys "instance_dimension",
    dimensionKeys "sample_dimension",
    -- geometries
    variableKeys "geometry",
    variableKeys "interior_ring",
    variableKeys "node_coordinates",
    variableKeys "node_count",
    variableKeys "nodes",
    variableKeys "part_node_count",
    -- subsampled coordinates
    variableWords "coordinate_interpolation",
    { variableWords "tie_point_mapping" with dimensionPriority := 1, variablePriority := 2 },
    -- mesh topologies
    variableKeys "mesh",
    variableKeys "edge_coordinates",
    variableKeys "face_coordinates",
    variableKeys "edge_node_connectivity",
    variableKeys "face_node_connectivity",
    variableKeys "face_face_connectivity",
    variableKeys "face_edge_connectivity",
    variableKeys "edge_face_connectivity",
    dimensionKeys "edge_dimension",
    dimensionKeys "face_dimension",
    variableKeys "location_index_set",
    -- aggregations
    dimensionKeys "aggregated_dimensions",
    variableValues "aggregated_data" ]

/-- The rule that governs an attribute. -/
def forAttribute? (name : String) : Option ReferenceRule :=
  table.find? fun rule => rule.name == name

end ReferenceRule

end GroupFlattening
