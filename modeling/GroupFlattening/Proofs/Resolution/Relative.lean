import GroupFlattening.Proofs.ObjectPath.NormalForm
import GroupFlattening.Proofs.Resolution.Search

/-!
# Where Relative Paths Lead

A relative path is walked segment by segment (`Takes`, `Leads`). The walk moves from group to group,
and with it moves the list of names on the path of the group: they are at every point what is left
of the names so far when the segments are read (`Leads.components_eq`). So the object that a walk
ends at has as its path the normal form of the path of the first group and the token after it
(`relative_finds_normalForm`).
-/

namespace GroupFlattening

open ObjectPath (join segments normalForm IsDots components)

/-- Whether no group but the root, no dimension and no variable has a name that paths read as
something else. -/
structure Dataset.HasPlainNames (d : Dataset) : Prop where
  groups : ∀ id < d.groups.size, id ≠ rootId → ¬ IsDots (d.group id).name
  dimensions : ∀ id < d.groups.size, ∀ dim ∈ (d.group id).dimensions, ¬ IsDots dim.name
  vars : ∀ id < d.groups.size, ∀ v ∈ (d.group id).vars, ¬ IsDots v.name

instance (d : Dataset) : Decidable d.HasPlainNames :=
  decidable_of_iff ((∀ id < d.groups.size, id ≠ Dataset.rootId → ¬ IsDots (d.group id).name) ∧
      (∀ id < d.groups.size, ∀ dim ∈ (d.group id).dimensions, ¬ IsDots dim.name) ∧
      ∀ id < d.groups.size, ∀ v ∈ (d.group id).vars, ¬ IsDots v.name)
    ⟨fun h => ⟨h.1, h.2.1, h.2.2⟩, fun h => ⟨h.groups, h.dimensions, h.vars⟩⟩

namespace Hierarchy

/-! ## Walks -/

/-- A segment takes a walk from one group to another. -/
inductive Takes (h : Hierarchy) (g : Nat) : String → Nat → Prop
  /-- An empty segment and a dot lead nowhere. -/
  | stay {segment : String} (hsegment : segment = "" ∨ segment = ".") : Takes h g segment g
  /-- Two dots lead to the group around, if there is one. -/
  | up {p : Nat} (hp : h.parent? g = some p) : Takes h g ".." p
  /-- Any other segment leads to the group of this name inside, if there is one. -/
  | down {segment : String} {c : Nat} (hne : segment ≠ "") (hplain : ¬ IsDots segment)
      (hc : c ∈ h.children g) (hname : (h.group c).name = segment) : Takes h g segment c

/-- Segments lead a walk from one group to another, one after the other. -/
inductive Leads (h : Hierarchy) : Nat → List String → Nat → Prop
  | nil (g : Nat) : Leads h g [] g
  | cons {g g' g'' : Nat} {segment : String} {rest : List String}
      (hfirst : h.Takes g segment g') (hrest : Leads h g' rest g'') :
      Leads h g (segment :: rest) g''

section Snapshot

variable {d : Dataset} {h : Hierarchy} {limit : Nat} (hd : d.WellFormed)
  (hnames : d.HasProperNames) (hrun : ofDataset d limit = .ok h) {g g' : Nat}

include hd hnames hrun

/-! ## The names along a path -/

/-- A group inside another one has the name of a group of the dataset that is not the root. -/
theorem exists_name_of_parent? {p : Nat} (hp : h.groups.parent? g = some p) :
    ∃ id < d.groups.size, id ≠ Dataset.rootId ∧ (h.group g).name = (d.group id).name := by
  have hne : g ≠ rootId := Nat.ne_of_gt (Nat.lt_of_le_of_lt (Nat.zero_le p) (Forest.parent?_lt hp))
  obtain ⟨id, hid, hidne, hg⟩ :=
    exists_surveyed_of_ne_rootId hd hnames hrun (Forest.lt_size_of_parent? hp) hne
  refine ⟨id, hid, hidne, ?_⟩
  obtain ⟨q, hq⟩ := hd.rooted id hid hidne
  rw [hg.name, hd.path_eq id q hq, ObjectPath.split_join
    (hd.path_ne_empty (Nat.lt_trans (Forest.parent?_lt hq) hid)) (hnames.groups.of_parent? hq).2]

/-- The names along the path of a group are those of the group around and its own. -/
theorem components_of_parent? {p : Nat} (hp : h.groups.parent? g = some p) :
    components (h.group g).path = components (h.group p).path ++ [(h.group g).name] := by
  obtain ⟨id, hid, hne, hname⟩ := exists_name_of_parent? hd hnames hrun hp
  rw [(forall₂_surveyed hd hnames.groups hrun).2.path_eq g p hp,
    ObjectPath.components_join (hname ▸ hnames.groups id hid hne)]

theorem foldl_join_components_path (hg : g < h.size) :
    (components (h.group g).path).foldl join ObjectPath.root = (h.group g).path := by
  obtain ⟨id, hid, hsurveyed⟩ := exists_surveyed_of_lt hd hnames hrun hg
  rw [hsurveyed.path, hd.foldl_join_components hnames.groups hid]

/-- The group of a name inside a group is found by its name. -/
theorem child?_eq_some_of_mem {c : Nat} (hc : c ∈ h.children g) :
    h.child? g (h.group c).name = some c := by
  have hlinked := (forall₂_surveyed hd hnames.groups hrun).2
  obtain ⟨c', hc'⟩ : ∃ c', h.child? g (h.group c).name = some c' := by
    rw [← Option.isSome_iff_exists, child?, List.find?_isSome]
    exact ⟨c, hc, beq_self_eq_true _⟩
  have hmem := List.mem_of_find?_eq_some hc'
  rw [hlinked.children_eq] at hc hmem
  -- groups of one name inside one group have the same path
  have hpath : (h.group c').path = (h.group c).path := by
    rw [child?_eq_some hlinked hc', hlinked.path_eq c g (Forest.mem_children_iff.mp hc)]
  rw [hc', eq_of_path_eq hd hnames hrun (Forest.lt_size_of_mem_children hmem)
    (Forest.lt_size_of_mem_children hc) hpath]

/-! ## The search takes the walk -/

theorem step?_eq_some_iff {segment : List Char} :
    h.step? g segment = some g' ↔ h.Takes g (String.ofList segment) g' := by
  -- the search compares lists of characters, the walk texts
  have hempty : String.ofList segment = "" ↔ segment = [] := String.ofList_eq_empty_iff
  have hdot : String.ofList segment = "." ↔ segment = ['.'] := @String.ofList_inj segment ['.']
  have hdots : String.ofList segment = ".." ↔ segment = ['.', '.'] :=
    @String.ofList_inj segment ['.', '.']
  rw [step?]
  generalize String.ofList segment = text at hempty hdot hdots ⊢
  constructor
  · intro hstep
    split at hstep
    · next hstay =>
      obtain rfl := Option.some.inj hstep
      exact .stay (hstay.imp hempty.mpr hdot.mpr)
    · next hmove =>
      obtain ⟨hne, hone⟩ := not_or.mp hmove
      split at hstep
      · next hup =>
        obtain rfl := hdots.mpr hup
        exact .up hstep
      · next htwo =>
        have hplain : ¬ IsDots text := not_or.mpr ⟨mt hdot.mp hone, mt hdots.mp htwo⟩
        have hname := List.find?_some hstep
        exact .down (mt hempty.mp hne) hplain (List.mem_of_find?_eq_some hstep)
          (beq_iff_eq.mp hname)
  · intro htakes
    cases htakes with
    | stay hsegment => rw [if_pos (hsegment.imp hempty.mp hdot.mp)]
    | up hp =>
      obtain rfl := hdots.mp rfl
      rw [if_neg (by decide), if_pos rfl, hp]
    | down hne hplain hc hname =>
      obtain ⟨hone, htwo⟩ := not_or.mp hplain
      rw [if_neg (not_or.mpr ⟨mt hempty.mpr hne, mt hdot.mpr hone⟩), if_neg (mt hdots.mpr htwo),
        ← hname]
      exact child?_eq_some_of_mem hd hnames hrun hc

/-- The search walks along the segments as they lead. -/
theorem foldlM_step?_eq_some_iff {parts : List (List Char)} :
    parts.foldlM h.step? g = some g' ↔ h.Leads g (parts.map String.ofList) g' := by
  -- along the segments, from any group
  induction parts generalizing g with
  | nil =>
    rw [List.foldlM_nil, List.map_nil]
    constructor
    · intro heq
      obtain rfl := Option.some.inj heq
      exact .nil g
    · rintro ⟨⟩
      rfl
  | cons part rest ih =>
    rw [List.foldlM_cons, List.map_cons]
    constructor
    · intro hwalk
      obtain ⟨middle, hstep, hrest⟩ := Option.bind_eq_some_iff.mp hwalk
      exact .cons ((step?_eq_some_iff hd hnames hrun).mp hstep) (ih.mp hrest)
    · rintro ⟨⟩
      next middle hfirst hrest =>
        exact Option.bind_eq_some_iff.mpr
          ⟨middle, (step?_eq_some_iff hd hnames hrun).mpr hfirst, ih.mpr hrest⟩

/-- A relative search finds what the last segment names in the group that the others lead to. -/
theorem relative_eq_found_iff {kind : ObjectKind} {token path : String}
    (hcompound : ObjectPath.isCompound token = true) :
    h.relative g kind token = .found path ↔ ∃ dirs last g', segments token = dirs ++ [last] ∧
      h.Leads g dirs g' ∧ last ≠ "" ∧ h.defines g' kind last = true ∧
        path = h.objectPath g' last := by
  obtain ⟨before, after, hcut⟩ := ObjectPath.exists_cutAtLast hcompound
  have hsegments := ObjectPath.segments_of_cutAtLast hcut
  have hempty : String.ofList after ≠ "" ↔ after ≠ [] := not_congr String.ofList_eq_empty_iff
  simp only [relative, hcut]
  constructor
  · intro hfound
    split at hfound
    · cases hfound
    -- the walk over the segments in front ends at a group
    · next g' hwalk =>
      split at hfound
      · next hlast =>
        obtain rfl := Lookup.found.inj hfound
        exact ⟨_, _, g', hsegments, (foldlM_step?_eq_some_iff hd hnames hrun).mp hwalk,
          hempty.mpr hlast.1, hlast.2, rfl⟩
      · cases hfound
  · rintro ⟨dirs, last, g', hsplit, hleads, hne, hdefines, rfl⟩
    -- there is only one way to take the last segment off
    obtain ⟨rfl, hlast⟩ := List.append_inj' (hsegments.symm.trans hsplit) rfl
    obtain rfl := List.singleton_inj.mp hlast
    rw [(foldlM_step?_eq_some_iff hd hnames hrun).mpr hleads]
    simp only [hempty.mp hne, hdefines, ne_eq, not_false_eq_true, and_self, if_true]

/-! ## The names that are left -/

theorem Takes.lt_size {segment : String} (htakes : h.Takes g segment g') (hg : g < h.size) :
    g' < h.size := by
  have hlinked := (forall₂_surveyed hd hnames.groups hrun).2
  cases htakes with
  | stay => exact hg
  | up hp =>
    rw [hlinked.parent?_eq] at hp
    exact Nat.lt_trans (Forest.parent?_lt hp) hg
  | down _ _ hc _ =>
    rw [hlinked.children_eq] at hc
    exact Forest.lt_size_of_mem_children hc

/-- A step changes the names along the path as reading the segment does. -/
theorem Takes.components_eq {segment : String} (htakes : h.Takes g segment g') :
    components (h.group g').path = ObjectPath.read (components (h.group g).path) segment := by
  have hlinked := (forall₂_surveyed hd hnames.groups hrun).2
  -- to stay, to go up and to go down read one segment of the path
  cases htakes with
  | stay hsegment => rw [ObjectPath.read, if_pos hsegment]
  | up hp =>
    -- one name less
    rw [hlinked.parent?_eq] at hp
    rw [components_of_parent? hd hnames hrun hp, ObjectPath.read, if_neg (by decide), if_pos rfl,
      List.dropLast_concat]
  | down hne hplain hc hname =>
    -- one name more
    rw [hlinked.children_eq] at hc
    rw [components_of_parent? hd hnames hrun (Forest.mem_children_iff.mp hc), hname,
      ObjectPath.read_of_plain hne hplain]

theorem Leads.lt_size {dirs : List String} (hleads : h.Leads g dirs g') (hg : g < h.size) :
    g' < h.size := by
  induction hleads with
  | nil => exact hg
  | cons hfirst _ ih => exact ih (hfirst.lt_size hd hnames hrun hg)

/-- A walk changes the names along the path as reading the segments does, one after the other. -/
theorem Leads.components_eq {dirs : List String} (hleads : h.Leads g dirs g') :
    components (h.group g').path = dirs.foldl ObjectPath.read (components (h.group g).path) := by
  induction hleads with
  | nil => rfl
  | cons hfirst _ ih => rw [ih, hfirst.components_eq hd hnames hrun, List.foldl_cons]

variable (hplain : d.HasPlainNames)

include hplain

theorem not_isDots_of_mem_components (hg : g < h.size) :
    ∀ name ∈ components (h.group g).path, ¬ IsDots name := by
  have hlinked := (forall₂_surveyed hd hnames.groups hrun).2
  induction g using Nat.strongRecOn with
  | ind g ih =>
    by_cases hroot : g = rootId
    · rw [hroot, path_root hd (forall₂_surveyed hd hnames.groups hrun).1,
        ObjectPath.components_root]
      exact fun name hname => nomatch hname
    · -- the names of the group around, and its own
      obtain ⟨p, hlt, hp, -⟩ := exists_parent? hd hnames hrun hg hroot
      rw [hlinked.parent?_eq] at hp
      obtain ⟨id, hid, hne, hown⟩ := exists_name_of_parent? hd hnames hrun hp
      rw [components_of_parent? hd hnames hrun hp]
      intro name hname
      rcases List.mem_append.mp hname with hname | hname
      · exact ih p hlt (Nat.lt_trans hlt hg) name hname
      · rw [List.mem_singleton.mp hname, hown]
        exact hplain.groups id hid hne

/-- An object has the path that is left when the path of a group and a token that leads from there
to the object are read. -/
theorem normalForm_eq_objectPath (hg : g < h.size) {kind : ObjectKind} {token last : String}
    {dirs : List String} (hsplit : segments token = dirs ++ [last]) (hleads : h.Leads g dirs g')
    (hne : last ≠ "") (hdefines : h.defines g' kind last = true) :
    normalForm ((h.group g).path ++ "/" ++ token) = h.objectPath g' last := by
  -- no name of an object is read as dots
  have hlast : ¬ IsDots last := Dataset.of_mem_objects (P := fun name => ¬ IsDots name) hd
    (mem_objects_of_defines hd hnames hrun hdefines) hplain.dimensions hplain.vars
  -- and the path of the group is its own normal form
  have hstart : (components (h.group g).path).foldl ObjectPath.read [] =
      components (h.group g).path := ObjectPath.foldl_read_of_plain
    (fun _ hname => ObjectPath.ne_empty_of_mem_components hname)
    (not_isDots_of_mem_components hd hnames hrun hplain hg) []
  calc normalForm ((h.group g).path ++ "/" ++ token)
      = ((segments (h.group g).path ++ (dirs ++ [last])).foldl ObjectPath.read []).foldl join
          ObjectPath.root := by rw [normalForm, ObjectPath.segments_append, hsplit]
    _ = (ObjectPath.read (components (h.group g').path) last).foldl join ObjectPath.root := by
        rw [List.foldl_append, ObjectPath.foldl_read_segments, hstart, List.foldl_append,
          ← hleads.components_eq hd hnames hrun]
        rfl
    _ = join (h.group g').path last := by
        rw [ObjectPath.read_of_plain hne hlast, List.foldl_append,
          foldl_join_components_path hd hnames hrun (hleads.lt_size hd hnames hrun hg)]
        rfl

end Snapshot

/-- In a snapshot of a dataset with plain names, the search along a relative path succeeds just if
all segments but the last lead from the given group to another one and the last is the name of an
object there. It finds the path that is the normal form of the path of the given group and the token
after it. -/
theorem relative_finds_normalForm {d : Dataset} (hd : d.Reachable) (hnames : d.HasProperNames)
    (hplain : d.HasPlainNames) {limit : Nat} {h : Hierarchy} (hrun : ofDataset d limit = .ok h)
    {g : Nat} (hg : g < h.size) (kind : ObjectKind) {token : String}
    (hcompound : ObjectPath.isCompound token = true) :
    (∀ path, h.relative g kind token = .found path ↔
      (∃ dirs last g', segments token = dirs ++ [last] ∧ h.Leads g dirs g' ∧ last ≠ "" ∧
        h.defines g' kind last = true) ∧
      path = normalForm ((h.group g).path ++ "/" ++ token)) ∧
    ∀ candidates, h.relative g kind token ≠ .ambiguous candidates := by
  have hwf := hd.wellFormed
  refine ⟨fun path => ?_, fun candidates hambiguous => ?_⟩
  -- the object found has the normal form as its path, so the two sides differ in that only
  · rw [relative_eq_found_iff hwf hnames hrun hcompound]
    constructor
    · rintro ⟨dirs, last, g', hsplit, hleads, hne, hdefines, rfl⟩
      exact ⟨⟨dirs, last, g', hsplit, hleads, hne, hdefines⟩,
        (normalForm_eq_objectPath hwf hnames hrun hplain hg hsplit hleads hne hdefines).symm⟩
    · rintro ⟨⟨dirs, last, g', hsplit, hleads, hne, hdefines⟩, rfl⟩
      exact ⟨dirs, last, g', hsplit, hleads, hne, hdefines,
        normalForm_eq_objectPath hwf hnames hrun hplain hg hsplit hleads hne hdefines⟩
  · -- a walk ends at one group at most
    unfold relative at hambiguous
    split at hambiguous
    · cases hambiguous
    · split at hambiguous
      · cases hambiguous
      · split at hambiguous <;> cases hambiguous

/-- From the gauge in the valley the path leads up to the root, and by way of the hill back to the
gauge. -/
theorem relative_finds_normalForm_in_valley : valley.Reachable ∧ valley.HasProperNames ∧
    valley.HasPlainNames ∧ ∃ h, ofDataset valley 2 = .ok h ∧ 2 < h.size ∧
      ObjectPath.isCompound "../..//hill/.././river/gauge/flow" = true ∧
      h.relative 2 .var "../..//hill/.././river/gauge/flow" = .found "/river/gauge/flow" ∧
      (∃ dirs last g', segments "../..//hill/.././river/gauge/flow" = dirs ++ [last] ∧
        h.Leads 2 dirs g' ∧ last ≠ "" ∧ h.defines g' .var last = true) ∧
      "/river/gauge/flow" =
        normalForm ((h.group 2).path ++ "/" ++ "../..//hill/.././river/gauge/flow") := by
  have hreachable : valley.Reachable := (Dataset.Reachable.create "valley" true).applyAll _
  have hnames : valley.HasProperNames := by decide +kernel
  have hplain : valley.HasPlainNames := by decide +kernel
  have hfinds : (ofDataset valley 2).toOption.any (fun h => decide (2 < h.size ∧
      h.relative 2 .var "../..//hill/.././river/gauge/flow" = .found "/river/gauge/flow")) =
        true := by decide +kernel
  obtain ⟨h, hrun, hfound⟩ := (Option.any_eq_true _ _).mp hfinds
  have hrun := Except.toOption_eq_some_iff.mp hrun
  obtain ⟨hsize, hfound⟩ := of_decide_eq_true hfound
  have hcompound : ObjectPath.isCompound "../..//hill/.././river/gauge/flow" = true := by decide
  obtain ⟨hleads, hpath⟩ := ((relative_finds_normalForm hreachable hnames hplain hrun hsize .var
    hcompound).1 "/river/gauge/flow").mp hfound
  exact ⟨hreachable, hnames, hplain, h, hrun, hsize, hcompound, hfound, hleads, hpath⟩

end Hierarchy

end GroupFlattening
