import GroupFlattening.Store.Basic

/-!
# Restricted Datasets

A dataset behind a policy: it may advertise other capabilities than its own and refuse some of its
operations. A refused read fails as storage does, a refused write as one that does not exist.
-/

namespace GroupFlattening

/-- A dataset and the policy in front of it. -/
structure Restricted (σ : Type) where
  /-- The dataset itself. -/
  inner : σ
  /-- The capabilities to advertise, where they are not the dataset's own. -/
  advertised : Option (List Capability)
  /-- The operations that are refused. -/
  refused : List Operation

namespace Restricted

variable {σ : Type}

/-- A read of the dataset, unless it is refused. -/
def guardRead {α : Type} (dataset : Restricted σ) (operation : Operation)
    (read : σ → Except StoreFault α) : Except StoreFault α :=
  if dataset.refused.contains operation then .error (.io (operation.label ++ " denied"))
  else read dataset.inner

instance [Readable σ] : Readable (Restricted σ) where
  name dataset := Readable.name dataset.inner
  location dataset := Readable.location dataset.inner
  capabilities dataset := dataset.advertised.getD (Readable.capabilities dataset.inner)
  groupNames dataset group := dataset.guardRead .groupNames (Readable.groupNames · group)
  groupAttributes dataset group :=
    dataset.guardRead .groupAttributes (Readable.groupAttributes · group)
  dimensions dataset group := dataset.guardRead .dimensions (Readable.dimensions · group)
  variableInfos dataset group :=
    dataset.guardRead .variableInfos (Readable.variableInfos · group)
  variableAttributes dataset path :=
    dataset.guardRead .variableAttributes (Readable.variableAttributes · path)
  readData dataset path selection :=
    dataset.guardRead .readData (Readable.readData · path selection)

/-- A write on the dataset, unless it is refused. -/
def guardWrite [Readable σ] (operation : Operation) (write : EStateM StoreFault σ Unit) :
    EStateM StoreFault (Restricted σ) Unit := fun dataset =>
  if dataset.refused.contains operation then Readable.refuse operation dataset
  else
    match write dataset.inner with
    | .ok () inner => .ok () { dataset with inner }
    | .error fault inner => .error fault { dataset with inner }

instance [Writable σ] : Writable (Restricted σ) where
  createDimension group name size :=
    guardWrite .createDimension (Writable.createDimension group name size)
  createVariable group definition :=
    guardWrite .createVariable (Writable.createVariable group definition)
  setGroupAttribute group name value :=
    guardWrite .setGroupAttribute (Writable.setGroupAttribute group name value)
  setVariableAttribute path name value :=
    guardWrite .setVariableAttribute (Writable.setVariableAttribute path name value)
  writeData path selection data :=
    guardWrite .writeData (Writable.writeData path selection data)

end Restricted

end GroupFlattening
