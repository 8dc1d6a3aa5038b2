import GroupFlattening.ObjectPath
import GroupFlattening.Digest.Sha1

/-!
# Flat Names

An object `lat` of group `/a/b` is called `a__b__lat` in a flat dataset. A name that would have
256 characters or more is shortened: first the group part is replaced by its digest, and if that
does not suffice the digest of the whole name stands for it. Objects of the root keep their names.
-/

namespace GroupFlattening

namespace FlatName

/-- What stands between the names of groups and of the object. -/
def joiner : String := "__"

/-- Flat names of nested objects have fewer characters than this. -/
def lengthLimit : Nat := 256

/-- The digest of a text in hexadecimal digits. -/
def digest (text : String) : String :=
  String.ofList (Digest.hex (Digest.sha1 text.toUTF8.toList))

/-- A group path without its leading separators, every other separator replaced by the joiner. -/
def groupPart (group : String) : String :=
  let names := group.toList.dropWhile (· == ObjectPath.separator)
  String.ofList (names.flatMap fun c => if c == ObjectPath.separator then joiner.toList else [c])

/-- The names joined, however long the result is. -/
def joined (group base : String) : String := groupPart group ++ joiner ++ base

/-- The name joined to the digest of its group path. -/
def hashed (group base : String) : String := digest group ++ joiner ++ base

end FlatName

/-- The flat name of the object `base` of `group`. -/
def flatName (group base : String) : String :=
  if ObjectPath.isRoot group then base
  else if (FlatName.joined group base).length < FlatName.lengthLimit then FlatName.joined group base
  else if (FlatName.hashed group base).length < FlatName.lengthLimit then FlatName.hashed group base
  else FlatName.digest (FlatName.joined group base)

example : flatName "/" "lat" = "lat" ∧ flatName "/a/b" "lat" = "a__b__lat" := by decide +kernel

end GroupFlattening
