import GroupFlattening.NameTable
import GroupFlattening.Proofs.Hierarchy.Snapshot
import GroupFlattening.Proofs.SortedMap

/-!
# Name Tables of Snapshots

The objects of a dataset are listed group by group in the order of the tree, each with the path of
its group. The name table of a snapshot has one entry for each of these objects, from the path
joined from its group and its name to its flat name, and no other entries (`ofKind_ofHierarchy`).
-/

namespace GroupFlattening

open ObjectPath (join)

/-! ## The objects of a dataset -/

namespace Dataset

/-- What the groups hold of one sort, in the order of the tree, each with the path of its group. -/
def located {α : Type} (d : Dataset) (items : Group → List α) : List (String × α) :=
  d.groupIds.flatMap fun id => (items (d.group id)).map fun item => ((d.group id).path, item)

theorem mem_located {α : Type} {d : Dataset} {items : Group → List α} {entry : String × α} :
    entry ∈ d.located items ↔
      ∃ id ∈ d.groupIds, (d.group id).path = entry.1 ∧ entry.2 ∈ items (d.group id) := by
  simp only [located, List.mem_flatMap, List.mem_map]
  refine exists_congr fun id => and_congr_right fun _ => ?_
  constructor
  · rintro ⟨item, hitem, rfl⟩
    exact ⟨rfl, hitem⟩
  · rintro ⟨hpath, hitem⟩
    exact ⟨entry.2, hitem, Prod.ext hpath rfl⟩

/-- The names of the objects of one kind in a group. -/
def Group.objectNames (g : Group) : ObjectKind → List String
  | .dim => g.dimensions.map (·.name)
  | .var => g.vars.map (·.name)

/-- The objects of one kind by group path and name, in the order of the tree. -/
def objects (d : Dataset) (kind : ObjectKind) : List (String × String) :=
  d.located fun g => g.objectNames kind

section Names

variable {d : Dataset} (hd : d.WellFormed) {kind : ObjectKind} {o : String × String}
  (ho : o ∈ d.objects kind)

include hd ho

/-- What holds of the names of all dimensions and variables holds of the names of all objects. -/
theorem of_mem_objects {P : String → Prop}
    (hdims : ∀ id < d.groups.size, ∀ dim ∈ (d.group id).dimensions, P dim.name)
    (hvars : ∀ id < d.groups.size, ∀ v ∈ (d.group id).vars, P v.name) : P o.2 := by
  obtain ⟨id, hid, -, hname⟩ := mem_located.mp ho
  have hlt := hd.mem_groupIds_iff.mp hid
  -- an object is a dimension or a variable of some group
  cases kind with
  | dim =>
    obtain ⟨dim, hdim, heq⟩ := List.mem_map.mp hname
    exact heq ▸ hdims id hlt dim hdim
  | var =>
    obtain ⟨v, hv, heq⟩ := List.mem_map.mp hname
    exact heq ▸ hvars id hlt v hv

theorem isName_of_mem_objects (hnames : d.HasProperNames) : ObjectPath.IsName o.2 :=
  of_mem_objects hd ho hnames.dimensions hnames.vars

theorem ne_empty_of_mem_objects : o.1 ≠ "" := by
  obtain ⟨id, hid, hpath, -⟩ := mem_located.mp ho
  exact hpath ▸ hd.path_ne_empty (hd.mem_groupIds_iff.mp hid)

end Names

end Dataset

/-! ## Name tables -/

namespace NameTable

variable {d : Dataset} {limit : Nat} {h : Hierarchy}

/-- The name table of a snapshot has an entry for each object, from its path to its flat name. -/
theorem ofKind_ofHierarchy (hd : d.WellFormed) (hnames : d.HasProperGroupNames)
    (hrun : Hierarchy.ofDataset d limit = .ok h) (kind : ObjectKind) :
    (ofHierarchy h).ofKind kind =
      SortedMap.ofList ((d.objects kind).map fun o => (join o.1 o.2, flatName o.1 o.2)) := by
  obtain ⟨hsurveyed, -⟩ := Hierarchy.forall₂_surveyed hd hnames hrun
  have hlist : ∀ g : Dataset.Group, (g.objectNames kind).map (fun name =>
      (join g.path name, flatName g.path name)) =
      ((g.objectNames kind).map fun name => (g.path, name)).map fun o =>
        (join o.1 o.2, flatName o.1 o.2) := by
    intro g
    rw [List.map_map]
    rfl
  simp only [Dataset.objects, Dataset.located, List.map_flatMap, ← hlist]
  rw [List.flatMap_def]
  -- for both kinds it is enough to compare a group with what was surveyed of it
  cases kind with
  | dim =>
    refine congrArg (SortedMap.ofList ·.flatten)
      (Hierarchy.map_labels hsurveyed fun id n g hsg => ?_)
    rw [dimensionEntries, hsg.dimensions, hsg.path]
    rfl
  | var =>
    refine congrArg (SortedMap.ofList ·.flatten)
      (Hierarchy.map_labels hsurveyed fun id n g hsg => ?_)
    rw [Dataset.Group.objectNames, List.map_map, variableEntries]
    refine Forall₂.map_eq hsg.vars fun v w hvw => ?_
    rw [hvw.path, hvw.name, hsg.path]
    rfl

/-- A path that a name table knows is that of an object, and so is the flat name. -/
theorem exists_object_of_ofKind (hd : d.WellFormed) (hnames : d.HasProperGroupNames)
    (hrun : Hierarchy.ofDataset d limit = .ok h) (kind : ObjectKind) {path flat : String}
    (hfind : ((ofHierarchy h).ofKind kind).find? path = some flat) :
    ∃ o ∈ d.objects kind, path = join o.1 o.2 ∧ flat = flatName o.1 o.2 := by
  rw [ofKind_ofHierarchy hd hnames hrun] at hfind
  obtain ⟨o, ho, heq⟩ := List.mem_map.mp (SortedMap.mem_of_find?_ofList hfind)
  obtain ⟨rfl, rfl⟩ := Prod.mk.inj heq
  exact ⟨o, ho, rfl, rfl⟩

/-- A name table knows the paths of all objects. -/
theorem exists_find?_of_mem_objects (hd : d.WellFormed) (hnames : d.HasProperGroupNames)
    (hrun : Hierarchy.ofDataset d limit = .ok h) {kind : ObjectKind} {o : String × String}
    (ho : o ∈ d.objects kind) :
    ∃ flat, ((ofHierarchy h).ofKind kind).find? (join o.1 o.2) = some flat := by
  rw [ofKind_ofHierarchy hd hnames hrun]
  exact SortedMap.exists_find?_ofList
    (List.mem_map_of_mem (f := fun o : String × String => (join o.1 o.2, flatName o.1 o.2)) ho)

/-- Where names are proper, the path of an object leads to the flat name of this very object. -/
theorem find?_join_of_mem_objects (hd : d.WellFormed) (hnames : d.HasProperNames)
    (hrun : Hierarchy.ofDataset d limit = .ok h) {kind : ObjectKind} {o : String × String}
    (ho : o ∈ d.objects kind) :
    ((ofHierarchy h).ofKind kind).find? (join o.1 o.2) = some (flatName o.1 o.2) := by
  obtain ⟨flat, hflat⟩ := exists_find?_of_mem_objects hd hnames.groups hrun ho
  obtain ⟨o', ho', hpath, rfl⟩ := exists_object_of_ofKind hd hnames.groups hrun kind hflat
  obtain ⟨hgroup, hname⟩ := ObjectPath.join_inj (Dataset.ne_empty_of_mem_objects hd ho)
    (Dataset.ne_empty_of_mem_objects hd ho') (Dataset.isName_of_mem_objects hd ho hnames).2
    (Dataset.isName_of_mem_objects hd ho' hnames).2 hpath
  rw [hflat, hgroup, hname]

/-- A flat name comes from the names of the kind asked for, or from those of the other one where
both may be meant and the first do not know the path. -/
theorem find?_eq_some_iff {names : NameTable} {path flat : String} {kind : ObjectKind}
    {both : Bool} : names.find? path kind both = some flat ↔
      (names.ofKind kind).find? path = some flat ∨
        (names.ofKind kind).find? path = none ∧ both = true ∧
          (names.ofKind kind.other).find? path = some flat := by
  rw [find?]
  cases (names.ofKind kind).find? path with
  | some other => simp
  | none => cases both <;> simp

end NameTable

end GroupFlattening
