import GroupFlattening.Flatten.Transfer

/-!
# Flattening

A nested dataset is flattened into the root group of another one. The pair of datasets is checked
and the input surveyed before anything is written. Then the groups are carried over in the order
of the tree, and each variable is finished, its references replaced and its data copied, before
the next one is begun; in strict mode the first bad reference ends the work there. The provenance
is written last.
-/

namespace GroupFlattening

/-- The stages of flattening. -/
inductive Phase where
  | init
  | copy
  | resolve
  | replace
  | done
  deriving DecidableEq, Repr, Inhabited

/-- The word for a stage. -/
def Phase.label : Phase → String
  | init => "init"
  | copy => "copy"
  | resolve => "resolve"
  | replace => "rewrite"
  | done => "done"

/-- What was done by flattening a dataset. -/
structure Report where
  /-- Where the objects of the output come from. -/
  provenance : ProvenanceMaps
  /-- The references that were replaced by placeholders. -/
  degraded : List DegradedReference
  /-- The number of groups, the root included. -/
  groups : Nat
  /-- The number of attributes whose references were replaced. -/
  replacedAttributes : Nat
  deriving DecidableEq, Repr, Inhabited

/-- Whether any reference was replaced by a placeholder. -/
def Report.isDegraded (report : Report) : Bool := !report.degraded.isEmpty

/-- What the work on some variables adds to the report. -/
structure Tally where
  /-- The references that designate nothing. -/
  unresolved : List DegradedReference := []
  /-- The references to objects without a flat name. -/
  unnamed : List DegradedReference := []
  /-- The number of attributes whose references were replaced. -/
  replaced : Nat := 0
  deriving DecidableEq, Repr, Inhabited

namespace Tally

/-- The tallies of two pieces of work, one after the other. -/
def append (a b : Tally) : Tally :=
  ⟨a.unresolved ++ b.unresolved, a.unnamed ++ b.unnamed, a.replaced + b.replaced⟩

/-- The tally of several pieces of work. -/
def total (tallies : List Tally) : Tally := tallies.foldl append {}

end Tally

namespace Flatten

variable {ι σ : Type} [Readable ι] [Writable σ]

/-! ## Before anything is written -/

/-- The capabilities that are needed, in the order in which they are checked. -/
def requirements (settings : Settings) : List (Side × Capability) :=
  [(.input, .readMetadata), (.output, .writeMetadata)] ++
    if settings.copyData then [(.input, .readData), (.output, .writeData)] else []

/-- Whether the dataset of a side has a capability. -/
def isCapable (input : ι) (output : σ) (requirement : Side × Capability) : Bool :=
  match requirement.1 with
  | .input => Readable.supports input requirement.2
  | .output => Readable.supports output requirement.2

/-- Refuses datasets that do not go together. -/
def checkDatasets (input : ι) (output : σ) (settings : Settings) : Except Fault Unit := do
  if Readable.location input = Readable.location output then
    throw (.configuration (.sameDataset (Readable.location input)))
  match (requirements settings).find? fun requirement => !isCapable input output requirement with
  | some (side, capability) => throw (.configuration (.incapable side capability))
  | none => pure ()
  let groups ← fromStore (Readable.groupNames output ObjectPath.root)
  unless groups.isEmpty do
    throw (.configuration (.outputHoldsGroups (Readable.location output)))

/-- The hierarchy of the input, if the datasets go together. -/
def survey (input : ι) (output : σ) (settings : Settings) : Except Fault Hierarchy := do
  checkDatasets input output settings
  Hierarchy.ofDataset input settings.depthLimit

/-! ## Variables and groups -/

/-- Settles the references of an attribute. -/
def settlePending (h : Hierarchy) (settings : Settings) (v : Hierarchy.Variable)
    (pending : Transfer.Pending) : Except Fault (Transfer.Pending × ReferenceSite.Settled) := do
  let settled ← pending.site.settle h v settings.laxMode pending.value
  pure (pending, settled)

/-- Replaces the references of an attribute, and gives those without a flat name. -/
def replacePending (names : NameTable) (settings : Settings)
    (entry : Transfer.Pending × ReferenceSite.Settled) : TransferM σ (List DegradedReference) := do
  let (pending, settled) := entry
  let text ← Transfer.compute
    (pending.site.replaceAll names settings.laxMode settled.references settled.resolutions)
  Transfer.setAttribute pending.flatOwner pending.name (.text text)
  pure (pending.site.unnamed names settled.references settled.resolutions)

/-- The variable whose references are to be replaced, as it was surveyed. -/
def surveyed (h : Hierarchy) (path : String) : Except Fault Hierarchy.Variable :=
  match h.findVariable? path with
  | some v => .ok v
  | none => .error (.configuration (.missingFromSnapshot path))

/-- Replaces all references of a variable. -/
def references (h : Hierarchy) (names : NameTable) (settings : Settings)
    (created : Transfer.Created) : TransferM σ Tally :=
  if created.pending.isEmpty then pure {}
  else do
    let v ← Transfer.compute (surveyed h created.path)
    -- all attributes are settled before the first one is set
    let settled ← Transfer.compute (created.pending.mapM (settlePending h settings v))
    let unnamed ← settled.mapM (replacePending names settings)
    pure
      { unresolved := settled.flatMap fun entry => entry.2.degraded
        unnamed := unnamed.flatten
        replaced := settled.length }

/-- Carries over a variable and finishes it. -/
def variableStep (input : ι) (h : Hierarchy) (names : NameTable) (settings : Settings)
    (group : String) (info : VariableInfo) : TransferM σ Tally := do
  let created ← Transfer.createVariable input names group info
  let tally ← references h names settings created
  Transfer.data input settings created.path created.flatPath info
  pure tally

/-- Carries over a group with its variables. -/
def groupStep (input : ι) (h : Hierarchy) (names : NameTable) (settings : Settings)
    (group : Hierarchy.Group) : TransferM σ Tally := do
  let infos ← Transfer.group input group.path
  let tallies ← infos.mapM (variableStep input h names settings group.path)
  pure (Tally.total tallies)

/-- Carries over all groups of a surveyed input and writes the provenance. -/
def transferAll (input : ι) (settings : Settings) (h : Hierarchy) : TransferM σ Report := do
  let names := NameTable.ofHierarchy h
  -- the numbers of groups follow the tree, so a group comes before those inside it
  let tallies ← h.groups.labels.mapM (groupStep input h names settings)
  let tally := Tally.total tallies
  let provenance ← Transfer.finish
  pure
    { provenance
      degraded := tally.unresolved ++ tally.unnamed
      groups := h.size
      replacedAttributes := tally.replaced }

end Flatten

/-- Flattens a dataset into the root group of another one. -/
def flatten {ι σ : Type} [Readable ι] [Writable σ] (input : ι) (settings : Settings) :
    EStateM Fault σ Report := fun output =>
  match Flatten.survey input output settings with
  | .error fault => .error fault output
  | .ok h =>
    match Flatten.transferAll input settings h { output } with
    | .ok report transfer => .ok report transfer.output
    | .error fault transfer => .error fault transfer.output

end GroupFlattening
