import GroupFlattening.Hierarchy.Basic
import GroupFlattening.Reference.Parser
import GroupFlattening.Store.Basic

/-!
# Snapshots

The hierarchy of a dataset, surveyed from the root before anything is written. Every group is
numbered before the groups inside it. The survey ends at a group that is nested too deeply.
-/

namespace GroupFlattening

/-- A read of a dataset as a step of flattening. -/
def fromStore {α : Type} (read : Except StoreFault α) : Except Fault α := read.mapError Fault.store

namespace Hierarchy

/-- The attribute that lists the coordinates of a variable. -/
def coordinatesName : String := "coordinates"

variable {σ : Type} [Readable σ]

/-- The text that lists the coordinates of a variable, if it has the attribute. -/
def surveyCoordinates (dataset : σ) (path : String) : Except Fault (Option String) := do
  let attributes ← fromStore (Readable.variableAttributes dataset path)
  match Attributes.find? attributes coordinatesName with
  | none => pure none
  | some value => some <$> value.referenceText coordinatesName

/-- The group at a path, which has the given number, with all that it defines. -/
def surveyGroup (dataset : σ) (path : String) (id : Nat) : Except Fault Group := do
  let dimensions ← fromStore (Readable.dimensions dataset path)
  let infos ← fromStore (Readable.variableInfos dataset path)
  -- dimensions come first, variables with their coordinates after them
  let group := dimensions.foldl (fun group d => group.addDimension d.name) (Group.atPath path)
  infos.foldlM (fun group info => do
    let coordinates ← surveyCoordinates dataset (ObjectPath.join path info.name)
    pure (group.addVariable id info.name info.dimensions coordinates)) group

/-- The hierarchy with the group at a path added, and then all groups inside it. -/
def survey (dataset : σ) (limit : Nat) (h : Hierarchy) (parent : Option Nat) (depth : Nat)
    (path : String) : Except Fault Hierarchy :=
  if _tooDeep : limit < depth then .error (.groupDepthExceeded path limit)
  else do
    let group ← surveyGroup dataset path h.size
    let names ← fromStore (Readable.groupNames dataset path)
    names.foldlM
      -- the group itself keeps the number it had before the groups inside it were added
      (fun grown name =>
        survey dataset limit grown (some h.size) (depth + 1) (ObjectPath.join path name))
      (h.addGroup parent group)
  termination_by limit + 1 - depth

/-- The hierarchy of a dataset in which no group is nested deeper than the limit. -/
def ofDataset (dataset : σ) (limit : Nat) : Except Fault Hierarchy :=
  survey dataset limit empty none 0 ObjectPath.root

end Hierarchy

end GroupFlattening
