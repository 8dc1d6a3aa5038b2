import GroupFlattening.Reference.Parser
import GroupFlattening.Resolution.Search
import GroupFlattening.Hierarchy.Snapshot

/-!
# Resolving References

What a token in an attribute of a variable designates. An absolute path is taken as it is; any
other token is searched for among the kinds of object that the rule of the attribute allows, in
their order. A variable that does not count as a scalar coordinate makes the token a standard
name.
-/

namespace GroupFlattening

/-- What a token designates. -/
inductive Outcome where
  /-- An object. -/
  | object (path : String) (kind : ObjectKind)
  /-- A standard name, which is left as it is. -/
  | standardName
  /-- Nothing. -/
  | unresolved
  /-- Several objects that are equally near. -/
  | ambiguous (candidates : List String)
  deriving DecidableEq, Repr

namespace Hierarchy

/-- Whether a token is listed among the coordinates of a variable and what it was found to be has
no dimensions. -/
def isScalarCoordinate (h : Hierarchy) (v : Variable) (token found : String) :
    Except Fault Bool :=
  match v.coordinates with
  | none => .ok false
  | some text => do
    let listed ← References.ofAttribute coordinatesName text
    pure (listed.contains token && (h.findVariable? found).any fun target => target.rank == 0)

/-- What a token designates if nothing was found, given the first ambiguous answer. -/
def outcomeOfMissing (rule : ReferenceRule) (ambiguous : Option (List String)) : Outcome :=
  if rule.acceptsStandardNames then .standardName
  else
    match ambiguous with
    | some candidates => .ambiguous candidates
    | none => .unresolved

/-- What a token designates among the given kinds, after an ambiguous answer for earlier ones. -/
def resolveAmong (h : Hierarchy) (rule : ReferenceRule) (v : Variable) (token : String) :
    List ObjectKind → Option (List String) → Except Fault Outcome
  | [], ambiguous => .ok (outcomeOfMissing rule ambiguous)
  | kind :: kinds, ambiguous =>
    match h.lookup rule v kind token with
    | .found path =>
      if rule.onlyScalarCoordinates ∧ kind = .var then do
        if ← h.isScalarCoordinate v token path then pure (.object path kind)
        else pure .standardName
      else .ok (.object path kind)
    -- a later kind may still settle the token
    | .ambiguous candidates =>
      h.resolveAmong rule v token kinds (ambiguous.or (some candidates))
    | .missing => h.resolveAmong rule v token kinds ambiguous

/-- What a token designates in an attribute of a variable that a rule governs. -/
def resolve (h : Hierarchy) (rule : ReferenceRule) (v : Variable) (token : String) :
    Except Fault Outcome :=
  if ObjectPath.isAbsolute token then .ok (.object token rule.primaryKind)
  else h.resolveAmong rule v token rule.kinds none

end Hierarchy

end GroupFlattening
