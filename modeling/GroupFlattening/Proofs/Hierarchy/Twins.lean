import GroupFlattening.Proofs.Forest.Lineage
import GroupFlattening.Proofs.Hierarchy.Agreement

/-!
# Hierarchies That List the Same in Another Order

Two hierarchies may have the same groups, with the same dimensions and variables, and list them in
different orders (`SameUpToOrder`). In a snapshot the tree is decided by the paths of the groups
(`FollowsPaths`), so only the numbers of the groups depend on the order: the groups of one path are
twins, every group has one twin, and whatever is said of groups in terms of the tree is said of
their twins (`Twins.mem_subtree`, `Twins.isNearest`). Paths lead to twins, too (`rel_findGroup?`,
`rel_findVariable?`).
-/

namespace GroupFlattening

open ObjectPath (join split)

/-! ## Options that go together -/

section OptionRel

variable {α β γ : Type} {R : α → β → Prop}

theorem Option.rel_of_forall {a? : Option α} {b? : Option β}
    (forth : ∀ a, a? = some a → ∃ b, b? = some b ∧ R a b)
    (back : ∀ b, b? = some b → ∃ a, a? = some a) : Option.Rel R a? b? := by
  -- both are there or neither is
  cases a? with
  | none =>
    cases b? with
    | none => exact .none
    | some b =>
      obtain ⟨a, ha⟩ := back b rfl
      cases ha
  | some a =>
    obtain ⟨b, rfl, hab⟩ := forth a rfl
    exact .some hab

theorem Option.rel_bind {α' β' : Type} {S : α' → β' → Prop} {a? : Option α} {b? : Option β}
    {f : α → Option α'} {g : β → Option β'} (hfirst : Option.Rel R a? b?)
    (hnext : ∀ a b, R a b → Option.Rel S (f a) (g b)) :
    Option.Rel S (a?.bind f) (b?.bind g) := by
  cases hfirst with
  | none => exact .none
  | some hab => exact hnext _ _ hab

/-- Walks whose steps go together lead to things that go together. -/
theorem Option.rel_foldlM {f : α → γ → Option α} {g : β → γ → Option β}
    (hstep : ∀ a b, R a b → ∀ c, Option.Rel R (f a c) (g b c)) {a : α} {b : β} (hab : R a b)
    (cs : List γ) : Option.Rel R (cs.foldlM f a) (cs.foldlM g b) := by
  induction cs generalizing a b with
  | nil => exact .some hab
  | cons c rest ih =>
    rw [List.foldlM_cons, List.foldlM_cons]
    exact Option.rel_bind (hstep a b hab c) fun a' b' hab' => ih hab'

end OptionRel

namespace Hierarchy

/-! ## The same in any order -/

/-- A variable apart from its place: the name, the dimensions and the coordinates. -/
def Variable.content (v : Variable) : String × List String × Option String :=
  (v.name, v.dimensions, v.coordinates)

/-- Two groups of one path have the same dimensions and the same variables, in any order. -/
structure Group.SameUpToOrder (g g' : Group) : Prop where
  path : g.path = g'.path
  dimensions : ∀ name, name ∈ g.dimensions ↔ name ∈ g'.dimensions
  vars : ∀ content, content ∈ g.vars.map (·.content) ↔ content ∈ g'.vars.map (·.content)

theorem Group.SameUpToOrder.symm {g g' : Group} (hg : g.SameUpToOrder g') : g'.SameUpToOrder g :=
  ⟨hg.path.symm, fun name => (hg.dimensions name).symm, fun content => (hg.vars content).symm⟩

instance (g g' : Group) : Decidable (g.SameUpToOrder g') :=
  decidable_of_iff (g.path = g'.path ∧
      (g.dimensions ⊆ g'.dimensions ∧ g'.dimensions ⊆ g.dimensions) ∧
      g.vars.map (·.content) ⊆ g'.vars.map (·.content) ∧
      g'.vars.map (·.content) ⊆ g.vars.map (·.content))
    ⟨fun ⟨hpath, hdims, hvars⟩ => ⟨hpath, fun _ => ⟨(hdims.1 ·), (hdims.2 ·)⟩,
        fun _ => ⟨(hvars.1 ·), (hvars.2 ·)⟩⟩,
      fun hg => ⟨hg.path,
        ⟨fun name => (hg.dimensions name).mp, fun name => (hg.dimensions name).mpr⟩,
        fun content => (hg.vars content).mp, fun content => (hg.vars content).mpr⟩⟩

/-- Two hierarchies have groups of the same paths, and what two groups of one path list is the same
up to the order. -/
structure SameUpToOrder (h h' : Hierarchy) : Prop where
  forth : ∀ g ∈ h.groups.labels, ∃ g' ∈ h'.groups.labels, g.SameUpToOrder g'
  back : ∀ g' ∈ h'.groups.labels, ∃ g ∈ h.groups.labels, g.SameUpToOrder g'

instance (h h' : Hierarchy) : Decidable (h.SameUpToOrder h') :=
  decidable_of_iff ((∀ g ∈ h.groups.labels, ∃ g' ∈ h'.groups.labels, g.SameUpToOrder g') ∧
      ∀ g' ∈ h'.groups.labels, ∃ g ∈ h.groups.labels, g.SameUpToOrder g')
    ⟨fun hh => ⟨hh.1, hh.2⟩, fun hh => ⟨hh.forth, hh.back⟩⟩

/-! ## Trees decided by paths -/

/-- The paths of the groups decide the tree: which group is around which, and what leads where. -/
structure FollowsPaths (h : Hierarchy) : Prop where
  linked : h.Linked
  root_lt : rootId < h.size
  path_root : (h.group rootId).path = ObjectPath.root
  /-- No two groups have the same path. -/
  path_inj : ∀ m < h.size, ∀ n < h.size, (h.group m).path = (h.group n).path → m = n
  /-- The group around is the one that the first part of the path names. -/
  parent : ∀ n < h.size, n ≠ rootId → ∃ p, h.groups.parent? n = some p ∧
    (h.group p).path = (split (h.group n).path).1
  name : ∀ n < h.size, (h.group n).name = (split (h.group n).path).2
  nodup_vars : ∀ n < h.size, ((h.group n).vars.map (·.name)).Nodup
  /-- A variable knows its group and its path. -/
  vars : ∀ n < h.size, ∀ v ∈ (h.group n).vars, v.group = n ∧
    v.path = join (h.group n).path v.name
  findVariable? : ∀ v ∈ h.allVars, h.findVariable? v.path = some v

/-- The tree of a snapshot is decided by paths. -/
theorem followsPaths_of_ofDataset {d : Dataset} (hd : d.WellFormed) (hnames : d.HasProperNames)
    {limit : Nat} {h : Hierarchy} (hrun : ofDataset d limit = .ok h) : h.FollowsPaths := by
  obtain ⟨hsurveyed, hlinked⟩ := forall₂_surveyed hd hnames.groups hrun
  obtain ⟨root, -, hroot, -⟩ := exists_findGroup? hd hnames.groups hrun hd.root_lt
  refine
    { linked := hlinked
      root_lt := Nat.lt_of_le_of_lt (Nat.zero_le root) hroot
      path_root := path_root hd hsurveyed
      path_inj := fun m hm n hn => eq_of_path_eq hd hnames hrun hm hn
      parent := fun n hn hne => ?_
      name := fun n hn => ?_
      nodup_vars := fun n hn => nodup_vars hd hnames hrun hn
      vars := fun n hn v hv => ?_
      findVariable? := fun v hv => findVariable?_path hd hnames hrun hv }
  -- a group below the root has the group around it as parent
  · obtain ⟨p, -, hp, hpath⟩ := exists_parent? hd hnames hrun hn hne
    exact ⟨p, (hlinked.parent?_eq n).symm.trans hp, hpath⟩
  · obtain ⟨id, -, hg⟩ := exists_surveyed_of_lt hd hnames hrun hn
    rw [hg.name, hg.path]
  · obtain ⟨id, -, hg⟩ := exists_surveyed_of_lt hd hnames hrun hn
    obtain ⟨w, -, hv⟩ := Forall₂.exists_left hg.vars hv
    refine ⟨hv.group, ?_⟩
    rw [hv.path, hg.path, hv.name]

/-! ## Twins -/

/-- Two hierarchies whose trees are decided by paths are the same up to the order. -/
structure Rearranged (h h' : Hierarchy) : Prop where
  follows : h.FollowsPaths
  follows' : h'.FollowsPaths
  same : h.SameUpToOrder h'

/-- Groups of one path in two hierarchies. -/
structure Twins (h h' : Hierarchy) (i j : Nat) : Prop where
  lt_size : i < h.size
  lt_size' : j < h'.size
  same : (h.group i).SameUpToOrder (h'.group j)

variable {h h' : Hierarchy} {i j : Nat}

theorem Rearranged.symm (hr : Rearranged h h') : Rearranged h' h :=
  ⟨hr.follows', hr.follows,
    ⟨fun g' hg' => (hr.same.back g' hg').imp fun _ hg => hg.imp_right (·.symm),
      fun g hg => (hr.same.forth g hg).imp fun _ hg' => hg'.imp_right (·.symm)⟩⟩

theorem Twins.symm (ht : Twins h h' i j) : Twins h' h j i := ⟨ht.lt_size', ht.lt_size, ht.same.symm⟩

/-- Twins define the same names. -/
theorem Twins.defines_eq (ht : Twins h h' i j) (kind : ObjectKind) (name : String) :
    h.defines i kind name = h'.defines j kind name := by
  rw [Bool.eq_iff_iff]
  cases kind with
  | dim => simpa [defines] using ht.same.dimensions name
  | var =>
    have hcontent : ∀ vars : List Variable, (vars.any fun v => v.name == name) = true ↔
        ∃ content ∈ vars.map (·.content), content.1 = name := by
      simp [Variable.content]
    rw [defines, defines, hcontent, hcontent]
    exact exists_congr fun content => and_congr_left fun _ => ht.same.vars content

section

variable (hr : Rearranged h h')

include hr

/-- Every group has a twin. -/
theorem Rearranged.exists_twin (hi : i < h.size) : ∃ j, Twins h h' i j := by
  obtain ⟨g', hg', hsame⟩ := hr.same.forth _ (mem_labels_iff.mpr ⟨i, hi, rfl⟩)
  obtain ⟨j, hj, rfl⟩ := mem_labels_iff.mp hg'
  exact ⟨j, hi, hj, hsame⟩

theorem Rearranged.twins_of_path_eq (hi : i < h.size) (hj : j < h'.size)
    (hpath : (h.group i).path = (h'.group j).path) : Twins h h' i j := by
  obtain ⟨j', htwins⟩ := hr.exists_twin hi
  obtain rfl := hr.follows'.path_inj j' htwins.lt_size' j hj (htwins.same.path.symm.trans hpath)
  exact htwins

theorem Rearranged.twins_root : Twins h h' rootId rootId :=
  hr.twins_of_path_eq hr.follows.root_lt hr.follows'.root_lt
    (hr.follows.path_root.trans hr.follows'.path_root.symm)

namespace Twins

variable {a b : Nat}

/-- A group has one twin. -/
theorem unique (ht : Twins h h' i j) (ha : Twins h h' i b) : j = b :=
  hr.follows'.path_inj j ht.lt_size' b ha.lt_size' (ht.same.path.symm.trans ha.same.path)

theorem eq_iff (ht : Twins h h' i j) (ha : Twins h h' a b) : i = a ↔ j = b := by
  constructor
  · rintro rfl
    exact ht.unique hr ha
  · rintro rfl
    exact ht.symm.unique hr.symm ha.symm

/-- Twins have the same name. -/
theorem name_eq (ht : Twins h h' i j) : (h.group i).name = (h'.group j).name := by
  rw [hr.follows.name i ht.lt_size, hr.follows'.name j ht.lt_size', ht.same.path]

/-! ## Twins in the tree -/

/-- The groups around twins are twins. -/
theorem exists_parent? (ht : Twins h h' i j) {p : Nat} (hp : h.groups.parent? i = some p) :
    ∃ q, h'.groups.parent? j = some q ∧ Twins h h' p q := by
  have hi : i ≠ rootId :=
    Nat.ne_of_gt (Nat.lt_of_le_of_lt (Nat.zero_le p) (Forest.parent?_lt hp))
  -- the path of a parent is the front of the path
  obtain ⟨p', hp', hpath⟩ := hr.follows.parent i ht.lt_size hi
  obtain rfl := Option.some.inj (hp'.symm.trans hp)
  -- the roots are twins, so the twin is no root either
  obtain ⟨q, hq, hpath'⟩ := hr.follows'.parent j ht.lt_size'
    (mt (ht.eq_iff hr hr.twins_root).mpr hi)
  refine ⟨q, hq, hr.twins_of_path_eq (Nat.lt_trans (Forest.parent?_lt hp) ht.lt_size)
    (Nat.lt_trans (Forest.parent?_lt hq) ht.lt_size') ?_⟩
  rw [hpath, hpath', ht.same.path]

theorem rel_parent? (ht : Twins h h' i j) :
    Option.Rel (Twins h h') (h.groups.parent? i) (h'.groups.parent? j) :=
  Option.rel_of_forall (fun _ hp => ht.exists_parent? hr hp) fun _ hq =>
    (ht.symm.exists_parent? hr.symm hq).imp fun _ hp => hp.1

theorem mem_children (ht : Twins h h' i j) (ha : Twins h h' a b) (hi : i ∈ h.groups.children a) :
    j ∈ h'.groups.children b := by
  obtain ⟨q, hq, htwins⟩ := ht.exists_parent? hr (Forest.mem_children_iff.mp hi)
  obtain rfl := ha.unique hr htwins
  exact Forest.mem_children_iff.mpr hq

theorem mem_subtree (ht : Twins h h' i j) (ha : Twins h h' a b) (hi : i ∈ h.groups.subtree a) :
    j ∈ h'.groups.subtree b := by
  -- by induction on the number, one step upwards from both groups
  induction i using Nat.strongRecOn generalizing j with
  | ind i ih =>
    rcases Forest.eq_or_parent?_of_mem_subtree hi with rfl | ⟨p, hp, hparent⟩
    · rw [ht.unique hr ha]
      exact Forest.mem_subtree_self _ b
    · obtain ⟨q, hq, htwins⟩ := ht.exists_parent? hr hparent
      exact Forest.mem_subtree_of_parent? hq (ih p (Forest.parent?_lt hparent) htwins hp)

theorem mem_subtree_iff (ht : Twins h h' i j) (ha : Twins h h' a b) :
    i ∈ h.groups.subtree a ↔ j ∈ h'.groups.subtree b :=
  ⟨ht.mem_subtree hr ha, ht.symm.mem_subtree hr.symm ha.symm⟩

theorem depth_eq (ht : Twins h h' i j) : h.groups.depth i = h'.groups.depth j := by
  induction i using Nat.strongRecOn generalizing j with
  | ind i ih =>
    have hrel := ht.rel_parent? hr
    cases hp : h.groups.parent? i with
    -- at a root both depths are zero
    | none =>
      rw [hp] at hrel
      rw [Forest.depth_of_parent?_eq_none hp]
      generalize hq : h'.groups.parent? j = q? at hrel
      cases hrel
      rw [Forest.depth_of_parent?_eq_none hq]
    | some p =>
      obtain ⟨q, hq, htwins⟩ := ht.exists_parent? hr hp
      rw [Forest.depth_of_parent? hp, Forest.depth_of_parent? hq,
        ih p (Forest.parent?_lt hp) htwins]

/-- The nearest groups around twins are twins, if the property is one of twins. -/
theorem isNearest (ht : Twins h h' i j) (ha : Twins h h' a b) {P P' : Nat → Prop}
    (hP : ∀ m n, Twins h h' m n → (P m ↔ P' n)) (hnearest : h.groups.IsNearest i P a) :
    h'.groups.IsNearest j P' b := by
  refine ⟨ht.mem_subtree hr ha hnearest.around, (hP a b ha).mp hnearest.holds, fun n hn hPn => ?_⟩
  obtain ⟨m, hm⟩ := hr.symm.exists_twin
    (Nat.lt_of_le_of_lt (Forest.le_of_mem_subtree hn) ht.lt_size')
  have hinside := hnearest.inside m ((ht.mem_subtree_iff hr hm.symm).mpr hn)
    ((hP m n hm.symm).mpr hPn)
  exact ha.mem_subtree hr hm.symm hinside

/-- Upwards from twins, a search that is for the same in both hierarchies finds twins. -/
theorem rel_find?_lineage (ht : Twins h h' i j) {P P' : Nat → Prop} [DecidablePred P]
    [DecidablePred P'] (hP : ∀ m n, Twins h h' m n → (P m ↔ P' n)) :
    Option.Rel (Twins h h') ((h.groups.lineage i).find? P) ((h'.groups.lineage j).find? P') := by
  refine Option.rel_of_forall (fun a ha => ?_) fun b hb => ?_
  -- the nearest group with the property has a twin, which is nearest in the other tree
  · have hnearest := Forest.isNearest_of_find?_lineage ha
    obtain ⟨b, hab⟩ := hr.exists_twin
      (Nat.lt_of_le_of_lt (Forest.le_of_mem_subtree hnearest.around) ht.lt_size)
    exact ⟨b, Forest.find?_lineage_eq_some_iff.mpr (ht.isNearest hr hab hP hnearest), hab⟩
  · have hnearest := Forest.isNearest_of_find?_lineage hb
    obtain ⟨a, hba⟩ := hr.symm.exists_twin
      (Nat.lt_of_le_of_lt (Forest.le_of_mem_subtree hnearest.around) ht.lt_size')
    exact ⟨a, Forest.find?_lineage_eq_some_iff.mpr
      (ht.symm.isNearest hr.symm hba (fun m n hmn => (hP n m hmn.symm).symm) hnearest)⟩

/-! ## Paths lead to twins -/

theorem rel_child? (ht : Twins h h' i j) (name : String) :
    Option.Rel (Twins h h') (h.child? i name) (h'.child? j name) := by
  have hchild {h h' : Hierarchy} {i j : Nat} (hr : Rearranged h h') (ht : Twins h h' i j) :
      ∀ c, h.child? i name = some c → ∃ d, h'.child? j name = some d ∧ Twins h h' c d := by
    intro c hc
    have hmem := List.mem_of_find?_eq_some hc
    have hname := List.find?_some hc
    rw [hr.follows.linked.children_eq] at hmem
    obtain ⟨d, hd⟩ := hr.exists_twin (Forest.lt_size_of_mem_children hmem)
    have hd' := hd.mem_children hr ht hmem
    -- the twin of the child has its name, so a child of this name is found
    obtain ⟨d', hfind⟩ : ∃ d', h'.child? j name = some d' := by
      rw [← Option.isSome_iff_exists, child?, List.find?_isSome, hr.follows'.linked.children_eq]
      exact ⟨d, hd', by rw [← hd.name_eq hr]; exact hname⟩
    -- the paths are joined from that of the group and the name, so the first one found is the twin
    refine ⟨d', hfind, hr.twins_of_path_eq hd.lt_size ?_ ?_⟩
    · have hmem' := List.mem_of_find?_eq_some hfind
      rw [hr.follows'.linked.children_eq] at hmem'
      exact Forest.lt_size_of_mem_children hmem'
    · rw [child?_eq_some hr.follows.linked hc, child?_eq_some hr.follows'.linked hfind,
        ht.same.path]
  exact Option.rel_of_forall (hchild hr ht) fun d hd =>
    (hchild hr.symm ht.symm d hd).imp fun _ hc => hc.1

end Twins

theorem Rearranged.rel_findGroup? (path : String) :
    Option.Rel (Twins h h') (h.findGroup? path) (h'.findGroup? path) := by
  have hpos : h.size ≠ 0 := Nat.ne_of_gt hr.follows.root_lt
  have hpos' : h'.size ≠ 0 := Nat.ne_of_gt hr.follows'.root_lt
  rw [findGroup?, findGroup?, if_neg hpos, if_neg hpos']
  exact Option.rel_foldlM (fun _ _ ht name => ht.rel_child? hr name) hr.twins_root _

end

/-- Two variables of the same content belong to twins. -/
structure SameVariable (h h' : Hierarchy) (v v' : Variable) : Prop where
  group : Twins h h' v.group v'.group
  content : v.content = v'.content

theorem Rearranged.exists_sameVariable (hr : Rearranged h h') (ht : Twins h h' i j)
    {name : String} {v : Variable} (hv : (h.group i).vars.find? (·.name == name) = some v) :
    ∃ v', (h'.group j).vars.find? (·.name == name) = some v' ∧ SameVariable h h' v v' := by
  have hmem := List.mem_of_find?_eq_some hv
  have hvname := List.find?_some hv
  obtain ⟨v', hv', hcontent⟩ := List.mem_map.mp ((ht.same.vars _).mp (List.mem_map_of_mem hmem))
  have hname : v'.name = name := (congrArg Prod.fst hcontent).trans (beq_iff_eq.mp hvname)
  refine ⟨v', hname ▸ Dataset.find?_eq_some_of_nodup (hr.follows'.nodup_vars j ht.lt_size') hv', ?_,
    hcontent.symm⟩
  rw [(hr.follows.vars i ht.lt_size v hmem).1, (hr.follows'.vars j ht.lt_size' v' hv').1]
  exact ht

theorem Rearranged.rel_findVariable? (hr : Rearranged h h') (path : String) :
    Option.Rel (SameVariable h h') (h.findVariable? path) (h'.findVariable? path) := by
  refine Option.rel_bind (hr.rel_findGroup? (split path).1) fun i j ht => ?_
  exact Option.rel_of_forall (fun _ hv => hr.exists_sameVariable ht hv) fun _ hv' =>
    (hr.symm.exists_sameVariable ht.symm hv').imp fun _ hv => hv.1

end Hierarchy

end GroupFlattening
