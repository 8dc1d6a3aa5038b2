/-!
# References in an Attribute

The value of an attribute that holds references is a list of entries: keys that stand alone, as in
`lat lon`, or keys that are each followed by words, as in `area: cells volume: boxes`. An entry
that is written again replaces the words of the first and keeps its place.
-/

namespace GroupFlattening

/-- The entries of an attribute value; an entry without a list of words is a key on its own. -/
structure References where
  /-- The entries in the order in which their keys first occur. -/
  entries : List (String × Option (List String))
  deriving DecidableEq, Repr, Inhabited

namespace References

/-- The value without entries. -/
def empty : References := ⟨[]⟩

/-- Entries with `key` set to `words`, at its old place or at the end. -/
def setEntry (key : String) (words : Option (List String)) :
    List (String × Option (List String)) → List (String × Option (List String))
  | [] => [(key, words)]
  | (k, ws) :: rest => if k = key then (k, words) :: rest else (k, ws) :: setEntry key words rest

/-- The value with one entry set. -/
def insert (references : References) (key : String) (words : Option (List String)) : References :=
  ⟨setEntry key words references.entries⟩

/-- The value of entries written one after the other. -/
def ofList (entries : List (String × Option (List String))) : References :=
  entries.foldl (fun references entry => references.insert entry.1 entry.2) empty

/-- The number of entries. -/
def size (references : References) : Nat := references.entries.length

/-- Whether there is an entry with this key. -/
def contains (references : References) (key : String) : Bool :=
  references.entries.any fun entry => entry.1 == key

/-- How an entry is written. -/
def entryText : String × Option (List String) → String
  | (key, none) => key
  | (key, some []) => key ++ ":"
  | (key, some words) => key ++ ": " ++ " ".intercalate words

/-- How the value is written. -/
def text (references : References) : String := " ".intercalate (references.entries.map entryText)

/-- The keys, the words, or both, in the order in which they are written. -/
def governed (references : References) (keys words : Bool) : List String :=
  references.entries.flatMap fun entry =>
    (if keys then [entry.1] else []) ++ (if words then entry.2.getD [] else [])

/-- The value with a replacement for every key, every word, or both, from left to right. -/
def mapM {m : Type → Type} [Monad m] (references : References) (keys words : Bool)
    (replace : String → m String) : m References := do
  let entries ← references.entries.mapM fun entry => do
    let key ← if keys then replace entry.1 else pure entry.1
    let list ← match entry.2 with
      | none => pure none
      | some list => if words then some <$> list.mapM replace else pure (some list)
    pure (key, list)
  pure ⟨entries⟩

end References

end GroupFlattening
