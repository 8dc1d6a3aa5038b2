import GroupFlattening.NameTable
import GroupFlattening.Resolution.Resolve

/-!
# Replacing References

The tokens of an attribute are resolved one after the other, each once, and then replaced by the
flat names of what they designate. A token that designates nothing, or something without a flat
name, is a fault in strict mode; in lax mode a placeholder takes its place and is reported.
-/

namespace GroupFlattening

/-- What stands in an attribute for a reference that designates nothing. -/
def placeholder (token : String) : String := "REF_NOT_FOUND_" ++ token

/-- A reference that was replaced by a placeholder. -/
structure DegradedReference where
  /-- The path of the referring variable. -/
  owner : String
  /-- The name of the attribute. -/
  name : String
  /-- The token as it was written. -/
  reference : String
  /-- The objects among which the search could not choose. -/
  candidates : List String
  deriving DecidableEq, Repr, Inhabited

/-- What takes the place of a token. -/
inductive Resolution where
  /-- The flat name of an object. -/
  | object (path : String) (kind : ObjectKind)
  /-- The token itself. -/
  | standardName
  /-- A text of its own. -/
  | placeholder (text : String)
  deriving DecidableEq, Repr

/-- Where an attribute with references stands. -/
structure ReferenceSite where
  /-- The path of the referring variable. -/
  owner : String
  /-- The name of the attribute. -/
  name : String
  /-- The rule of the attribute. -/
  rule : ReferenceRule
  deriving DecidableEq, Repr, Inhabited

namespace ReferenceSite

/-- The tokens of a value that the rule governs, in the order in which they are written. -/
def tokens (site : ReferenceSite) (references : References) : List String :=
  references.governed site.rule.resolvesKeys site.rule.resolvesValues

/-! ## Settling what tokens designate -/

/-- The fault of a token that designates nothing, or several objects. -/
def failure (site : ReferenceSite) (token : String) (candidates : List String) : Fault :=
  if candidates.isEmpty then .unresolvedReference site.owner site.name token
  else .ambiguousReference site.owner site.name token candidates

/-- What takes the place of a token that designates nothing: a fault in strict mode. -/
def degrade (site : ReferenceSite) (lax : Bool) (token : String) (candidates : List String) :
    Except Fault (Resolution × Option DegradedReference) :=
  if lax then
    .ok (.placeholder (placeholder token), some ⟨site.owner, site.name, token, candidates⟩)
  else .error (site.failure token candidates)

/-- What takes the place of a token, given what it designates. -/
def settleOutcome (site : ReferenceSite) (lax : Bool) (token : String) :
    Outcome → Except Fault (Resolution × Option DegradedReference)
  | .object path kind => .ok (.object path kind, none)
  | .standardName => .ok (.standardName, none)
  | .unresolved => site.degrade lax token []
  | .ambiguous candidates => site.degrade lax token candidates

/-- A value whose tokens are settled. -/
structure Settled where
  /-- The value. -/
  references : References
  /-- What takes the place of each token. -/
  resolutions : List (String × Resolution)
  /-- The tokens that designate nothing. -/
  degraded : List DegradedReference
  deriving DecidableEq, Repr

/-- The value of an attribute of a variable, with all tokens settled. -/
def settle (site : ReferenceSite) (h : Hierarchy) (v : Hierarchy.Variable) (lax : Bool)
    (value : String) : Except Fault Settled := do
  let references ← References.ofAttribute site.name value
  -- a token that occurs again has been settled
  let settled ← (site.tokens references).eraseDups.mapM fun token => do
    let outcome ← h.resolve site.rule v token
    let (resolution, degraded) ← site.settleOutcome lax token outcome
    pure (token, resolution, degraded)
  pure
    { references
      resolutions := settled.map fun entry => (entry.1, entry.2.1)
      degraded := settled.filterMap fun entry => entry.2.2 }

/-! ## Replacing tokens -/

/-- The flat name of what a token designates; `none` if that is needed but there is none. -/
def replacement? (site : ReferenceSite) (names : NameTable)
    (resolutions : List (String × Resolution)) (token : String) : Option String :=
  match resolutions.lookup token with
  | some (.object path kind) => names.find? path kind site.rule.allowsBoth
  | some (.placeholder text) => some text
  | some .standardName => some token
  | none => some token

/-- What takes the place of a token: a placeholder or a fault where a flat name is missing. -/
def replace (site : ReferenceSite) (names : NameTable) (lax : Bool)
    (resolutions : List (String × Resolution)) (token : String) : Except Fault String :=
  match site.replacement? names resolutions token with
  | some text => .ok text
  | none => if lax then .ok (placeholder token) else .error (site.failure token [])

/-- The occurrences of tokens whose flat name is missing. -/
def unnamed (site : ReferenceSite) (names : NameTable) (references : References)
    (resolutions : List (String × Resolution)) : List DegradedReference :=
  ((site.tokens references).filter fun token =>
      (site.replacement? names resolutions token).isNone).map
    fun token => ⟨site.owner, site.name, token, []⟩

/-- The text of a value with its tokens replaced. -/
def replaceAll (site : ReferenceSite) (names : NameTable) (lax : Bool) (references : References)
    (resolutions : List (String × Resolution)) : Except Fault String := do
  let replaced ← references.mapM site.rule.resolvesKeys site.rule.resolvesValues
    (site.replace names lax resolutions)
  pure replaced.text

end ReferenceSite

end GroupFlattening
