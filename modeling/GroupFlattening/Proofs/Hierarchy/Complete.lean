import GroupFlattening.Proofs.Hierarchy.Snapshot

/-!
# Snapshots Are Complete

Whatever group is surveyed, the groups inside it are surveyed as well and stand inside it in the
snapshot (`Covers`). While the survey goes on, what it has added so far stays where it is
(`Continues`), so in the end all groups of the snapshot cover what is inside them
(`complete_survey`). So the path of every group leads to a group of the snapshot, and the path of
every variable to a variable (`exists_findVariable?`), provided that all names are proper.
-/

namespace GroupFlattening.Hierarchy

open ObjectPath (join split)

/-! ## Surveys that go on -/

theorem parent?_addGroup {h : Hierarchy} {parent : Option Nat} {g : Group}
    (hparent : ∀ p, parent = some p → p < h.size) (hself : g.enclosesItself = false) (i : Nat) :
    (h.addGroup parent g).groups.parent? i =
      if i = h.size then parent else h.groups.parent? i := by
  rw [groups_addGroup hparent hself, Forest.parent?_add hparent]
  rfl

/-- The second hierarchy has all groups of the first one where they were. -/
structure Continues (h h' : Hierarchy) : Prop where
  size_le : h.size ≤ h'.size
  group_eq : ∀ i < h.size, h'.group i = h.group i
  parent?_eq : ∀ i < h.size, h'.groups.parent? i = h.groups.parent? i

namespace Continues

variable {h h' h'' : Hierarchy}

theorem refl (h : Hierarchy) : Continues h h :=
  ⟨Nat.le_refl _, fun _ _ => rfl, fun _ _ => rfl⟩

theorem trans (first : Continues h h') (second : Continues h' h'') : Continues h h'' := by
  refine ⟨Nat.le_trans first.size_le second.size_le, fun i hi => ?_, fun i hi => ?_⟩
  · rw [second.group_eq i (Nat.lt_of_lt_of_le hi first.size_le), first.group_eq i hi]
  · rw [second.parent?_eq i (Nat.lt_of_lt_of_le hi first.size_le), first.parent?_eq i hi]

theorem addGroup {parent : Option Nat} {g : Group} (hparent : ∀ p, parent = some p → p < h.size)
    (hself : g.enclosesItself = false) : Continues h (h.addGroup parent g) := by
  refine ⟨?_, fun i hi => ?_, fun i hi => ?_⟩
  · rw [size_addGroup hparent hself]
    exact Nat.le_succ _
  · rw [group_addGroup hparent hself, if_neg (Nat.ne_of_lt hi)]
  · rw [parent?_addGroup hparent hself, if_neg (Nat.ne_of_lt hi)]

/-- A group inside another one stays there. -/
theorem parent?_eq_some (hc : Continues h h') {m n : Nat} (hm : h.groups.parent? m = some n) :
    h'.groups.parent? m = some n ∧ h'.group m = h.group m := by
  have hlt : m < h.size := Forest.lt_size_of_parent? hm
  exact ⟨(hc.parent?_eq m hlt).trans hm, hc.group_eq m hlt⟩

end Continues

variable {d : Dataset}

/-- A group of the dataset stands inside a group of the hierarchy. -/
def Encloses (d : Dataset) (h : Hierarchy) (n c : Nat) : Prop :=
  ∃ m, h.groups.parent? m = some n ∧ (h.group m).path = (d.group c).path

theorem Encloses.continues {h h' : Hierarchy} {n c : Nat} (henc : Encloses d h n c)
    (hc : Continues h h') : Encloses d h' n c := by
  obtain ⟨m, hm, hpath⟩ := henc
  obtain ⟨hm', hgroup⟩ := hc.parent?_eq_some hm
  exact ⟨m, hm', by rw [hgroup, hpath]⟩

/-- What is inside the dataset's group of the same path stands inside the group of the hierarchy. -/
def Covers (d : Dataset) (h : Hierarchy) (n : Nat) : Prop :=
  ∀ id < d.groups.size, (d.group id).path = (h.group n).path →
    ∀ c ∈ d.groups.children id, Encloses d h n c

theorem Covers.continues {h h' : Hierarchy} {n : Nat} (hcov : Covers d h n)
    (hc : Continues h h') (hn : n < h.size) : Covers d h' n := by
  intro id hid hpath c hcid
  rw [hc.group_eq n hn] at hpath
  exact (hcov id hid hpath c hcid).continues hc

/-- What a survey of a group has added to a hierarchy. -/
structure Complete (d : Dataset) (id : Nat) (parent : Option Nat) (h h' : Hierarchy) : Prop where
  continues : Continues h h'
  size_lt : h.size < h'.size
  /-- The group itself has the next number. -/
  path : (h'.group h.size).path = (d.group id).path
  parent : h'.groups.parent? h.size = parent
  covers : ∀ n, h.size ≤ n → n < h'.size → Covers d h' n

/-- The survey of a group covers everything below it. -/
theorem complete_survey (hd : d.WellFormed) (hnames : d.HasProperGroupNames) {limit : Nat}
    (left : Nat) {h h' : Hierarchy} {parent : Option Nat} {depth id : Nat}
    (hleft : limit + 1 - depth = left) (hid : id < d.groups.size)
    (hparent : ∀ p, parent = some p → p < h.size)
    (hrun : survey d limit h parent depth (d.group id).path = .ok h') :
    Complete d id parent h h' := by
  induction left generalizing h h' parent depth id with
  -- the limit leaves no depth, so the run would have failed
  | zero =>
    obtain ⟨hdepth, -⟩ := survey_eq_ok hd hnames hid hrun
    omega
  | succ left ih =>
    obtain ⟨-, g, hsurveyed, hrun⟩ := survey_eq_ok hd hnames hid hrun
    have hself := hsurveyed.enclosesItself
    have hsize : (h.addGroup parent g).size = h.size + 1 := size_addGroup hparent hself
    -- along the groups inside: those done stand inside the group, and cover what is below them
    have hinside := Except.foldlM_induction
      (I := fun done grown => Continues (h.addGroup parent g) grown ∧
        (∀ n, h.size + 1 ≤ n → n < grown.size → Covers d grown n) ∧
        ∀ c ∈ done, Encloses d grown h.size c)
      (fun done c rest b b' hsplit hb hstep => ?_)
      ⟨.refl _, fun n hn hlt => absurd hlt (by omega), fun c hc => nomatch hc⟩ hrun
    · obtain ⟨hcontinues, hcovers, hdone⟩ := hinside
      have hlt : h.size < (h.addGroup parent g).size := by omega
      have hgroup := hcontinues.group_eq h.size hlt
      rw [group_addGroup hparent hself, if_pos rfl] at hgroup
      refine
        { continues := (Continues.addGroup hparent hself).trans hcontinues
          size_lt := Nat.lt_of_lt_of_le hlt hcontinues.size_le
          path := by rw [hgroup, hsurveyed.path]
          parent := ?_
          covers := fun n hn hlt' => ?_ }
      · rw [hcontinues.parent?_eq h.size hlt, parent?_addGroup hparent hself, if_pos rfl]
      · rcases Nat.eq_or_lt_of_le hn with rfl | hn
        · -- the group itself covers the groups inside it
          intro id' hid' hpath c hc
          rw [hgroup, hsurveyed.path] at hpath
          obtain rfl := hd.path_inj hnames hid' hid hpath
          exact hdone c hc
        · exact hcovers n hn hlt'
    · obtain ⟨hcontinues, hcovers, hdone⟩ := hb
      have hc : d.groups.parent? c = some id := Forest.mem_children_iff.mp (by simp [hsplit])
      have hle : h.size + 1 ≤ b.size := hsize ▸ hcontinues.size_le
      rw [← hd.path_eq c id hc] at hstep
      -- the survey of one more group inside, one level deeper
      have hchild := ih (by omega) (Forest.lt_size_of_parent? hc)
        (fun p hp => by obtain rfl := Option.some.inj hp; omega) hstep
      refine ⟨hcontinues.trans hchild.continues, fun n hn hlt => ?_, fun c' hc' => ?_⟩
      · by_cases hb : n < b.size
        · exact (hcovers n hn hb).continues hchild.continues hb
        · exact hchild.covers n (Nat.le_of_not_lt hb) hlt
      · rcases List.mem_append.mp hc' with hc' | hc'
        · exact (hdone c' hc').continues hchild.continues
        · obtain rfl := List.mem_singleton.mp hc'
          exact ⟨b.size, hchild.parent, hchild.path⟩

/-! ## Every path leads somewhere -/

section Snapshot

variable {limit : Nat} {h : Hierarchy} (hd : d.WellFormed)

include hd

/-- A group that a group of the snapshot encloses is found in there by its name. -/
theorem exists_child?_of_encloses (hnames : d.HasProperGroupNames)
    (hrun : ofDataset d limit = .ok h) {n id p : Nat} (hp : d.groups.parent? id = some p)
    (henc : Encloses d h n id) :
    ∃ c < h.size, h.child? n (d.group id).name = some c := by
  obtain ⟨hsurveyed, hlinked⟩ := forall₂_surveyed hd hnames hrun
  obtain ⟨m, hm, hpath⟩ := henc
  obtain ⟨g, hg⟩ := Forest.exists_label? (Forest.lt_size_of_parent? hm)
  obtain ⟨i, hi, hsg⟩ := exists_surveyed hsurveyed hg
  have hgroup : h.group m = g := by rw [group, hg]; rfl
  have hpsize : p < d.groups.size :=
    Nat.lt_trans (Forest.parent?_lt hp) (Forest.lt_size_of_parent? hp)
  -- a group was surveyed under the last name of its path
  have hname : (h.group m).name = (d.group id).name := by
    rw [hgroup, hsg.name, ← hsg.path, ← hgroup, hpath, hd.path_eq id p hp,
      ObjectPath.split_join (hd.path_ne_empty hpsize) (hnames.of_parent? hp).2]
  have hchildren := hlinked.children_eq n
  -- so a child of this name is found, if not necessarily this one
  have hfound : (h.child? n (d.group id).name).isSome = true := by
    rw [child?, hchildren, List.find?_isSome]
    exact ⟨m, Forest.mem_children_iff.mpr hm, beq_iff_eq.mpr hname⟩
  obtain ⟨c, hc⟩ := Option.isSome_iff_exists.mp hfound
  have hmem := List.mem_of_find?_eq_some hc
  rw [hchildren] at hmem
  exact ⟨c, Forest.lt_size_of_mem_children hmem, hc⟩

/-- The path of a group leads to a group of the snapshot that has this path. -/
theorem exists_findGroup? (hnames : d.HasProperGroupNames) (hrun : ofDataset d limit = .ok h)
    {id : Nat} (hid : id < d.groups.size) :
    ∃ n, h.findGroup? (d.group id).path = some n ∧ n < h.size ∧
      (h.group n).path = (d.group id).path := by
  have hsurvey := hrun
  rw [ofDataset, ← hd.path_root] at hsurvey
  have hcomplete := complete_survey hd hnames (limit + 1) rfl hd.root_lt (by simp) hsurvey
  have hlinked := (forall₂_surveyed hd hnames hrun).2
  have hpos : 0 < h.size := hcomplete.size_lt
  simp only [findGroup?, if_neg (Nat.ne_of_gt hpos)]
  -- down the tree: what leads to a group leads on to the groups inside it
  induction id using Nat.strongRecOn with
  | ind id ih =>
    by_cases hroot : id = Dataset.rootId
    · subst hroot
      rw [hd.path_root, ObjectPath.components_root]
      exact ⟨rootId, rfl, hpos, hcomplete.path.trans hd.path_root⟩
    · obtain ⟨p, hp⟩ := hd.rooted id hid hroot
      have hlt := Forest.parent?_lt hp
      obtain ⟨n, hn, hnlt, hpath⟩ := ih p hlt (Nat.lt_trans hlt hid)
      have henc := hcomplete.covers n (Nat.zero_le n) hnlt p (Nat.lt_trans hlt hid) hpath.symm id
        (Forest.mem_children_iff.mpr hp)
      obtain ⟨c, hclt, hc⟩ := exists_child?_of_encloses hd hnames hrun hp henc
      refine ⟨c, ?_, hclt, ?_⟩
      · rw [hd.path_eq id p hp, ObjectPath.components_join (hnames.of_parent? hp),
          List.foldlM_append, hn]
        simpa using hc
      · rw [child?_eq_some hlinked hc, hpath, hd.path_eq id p hp]

/-- The path of a variable leads to a variable of the snapshot. -/
theorem exists_findVariable? (hnames : d.HasProperNames) (hrun : ofDataset d limit = .ok h)
    {id : Nat} (hid : id < d.groups.size) {v : Dataset.Variable} (hv : v ∈ (d.group id).vars) :
    ∃ w, h.findVariable? (join (d.group id).path v.name) = some w := by
  obtain ⟨n, hn, hlt, hpath⟩ := exists_findGroup? hd hnames.groups hrun hid
  obtain ⟨hsurveyed, -⟩ := forall₂_surveyed hd hnames.groups hrun
  obtain ⟨g, hg⟩ := Forest.exists_label? hlt
  obtain ⟨i, hi, hsg⟩ := exists_surveyed hsurveyed hg
  have hgroup : h.group n = g := by rw [group, hg]; rfl
  rw [hgroup, hsg.path] at hpath
  obtain rfl := hd.path_inj hnames.groups (hd.mem_groupIds_iff.mp hi) hid hpath
  obtain ⟨w, hw, hwv⟩ := Forall₂.exists_right hsg.vars hv
  -- the lookup goes to this group, which has a variable of this name
  rw [findVariable?, ObjectPath.split_join (hd.path_ne_empty hid) (hnames.vars i hid v hv).2]
  simp only [hn, Option.bind_eq_bind, Option.bind_some, hgroup]
  rw [← Option.isSome_iff_exists, List.find?_isSome]
  exact ⟨w, hw, beq_iff_eq.mpr hwv.name⟩

end Snapshot

end GroupFlattening.Hierarchy
