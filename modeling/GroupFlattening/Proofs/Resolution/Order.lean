import GroupFlattening.Proofs.Hierarchy.Twins
import GroupFlattening.Proofs.Resolution.Proximity
import GroupFlattening.Proofs.Resolution.Search

/-!
# Resolution in Any Order

What a token designates does not depend on the order in which groups, dimensions and variables are
listed. Every search leads from twins to twins: along a relative path (`Twins.relative_eq`), upwards
(`Rearranged.sameUpToOrder_proximity`) and sideways, where the groups found are the same but may
come in another order (`Twins.sameUpToOrder_lateral`). So two snapshots that list the same resolve
every token alike, except for the order of candidates that are equally near
(`resolve_alike_of_sameUpToOrder`).
-/

namespace GroupFlattening

open ObjectPath (join)

/-! ## Answers up to the order -/

/-- Two searches find the same, or several objects that differ only in their order. -/
inductive Lookup.SameUpToOrder : Lookup → Lookup → Prop
  | same (result : Lookup) : SameUpToOrder result result
  | ambiguous {paths paths' : List String} (hperm : paths.Perm paths') :
      SameUpToOrder (.ambiguous paths) (.ambiguous paths')

theorem Lookup.sameUpToOrder_ofNearest {paths paths' : List String} (hperm : paths.Perm paths') :
    (ofNearest paths).SameUpToOrder (ofNearest paths') := by
  -- none, one or more paths, and the other list has as many
  match paths with
  | [] =>
    rw [List.nil_perm.mp hperm]
    exact .same _
  | [path] =>
    rw [List.singleton_perm.mp hperm]
    exact .same _
  | first :: second :: rest =>
    match paths', hperm.length_eq with
    | _ :: _ :: _, _ => exact .ambiguous hperm

/-- A token designates the same, or is ambiguous with the same candidates in another order. -/
inductive ResolvesAlike : Except Fault Outcome → Except Fault Outcome → Prop
  | same (result : Except Fault Outcome) : ResolvesAlike result result
  | ambiguous {candidates candidates' : List String} (hperm : candidates.Perm candidates') :
      ResolvesAlike (.ok (.ambiguous candidates)) (.ok (.ambiguous candidates'))

namespace Hierarchy

variable {h h' : Hierarchy} (hr : Rearranged h h') {a b i j s t : Nat}

section

include hr

/-! ## Relative paths -/

theorem Twins.rel_step? (ht : Twins h h' i j) (segment : List Char) :
    Option.Rel (Twins h h') (h.step? i segment) (h'.step? j segment) := by
  rw [step?, step?]
  split
  · exact .some ht
  · split
    · rw [hr.follows.linked.parent?_eq, hr.follows'.linked.parent?_eq]
      exact ht.rel_parent? hr
    · exact ht.rel_child? hr _

/-- A relative path leads from twins to the same object. -/
theorem Twins.relative_eq (ht : Twins h h' i j) (kind : ObjectKind) (token : String) :
    h.relative i kind token = h'.relative j kind token := by
  unfold relative
  cases ObjectPath.cutAtLast (· == ObjectPath.separator) token.toList with
  | none => rfl
  | some parts =>
    -- the segments are walked from twin to twin
    have hwalk := Option.rel_foldlM (fun _ _ ht segment => ht.rel_step? hr segment) ht
      (parts.1.splitOn ObjectPath.separator)
    simp only
    generalize (parts.1.splitOn ObjectPath.separator).foldlM h.step? i = i?,
      (parts.1.splitOn ObjectPath.separator).foldlM h'.step? j = j? at hwalk
    cases hwalk with
    | none => rfl
    | some ht => simp only [ht.defines_eq, objectPath, ht.same.path]

/-! ## Sideways -/

omit hr in
/-- Beside the branch that leads to a group are the other branches. -/
theorem isBeside_branch?_iff {h : Hierarchy} {apex start id : Nat} :
    h.IsBeside apex (h.groups.branch? apex start) id ↔
      ∃ c ∈ h.groups.children apex, start ∉ h.groups.subtree c ∧ id ∈ h.groups.subtree c := by
  refine exists_congr fun c => and_congr_right fun hc => and_congr_left fun _ => ?_
  rw [ne_comm, ne_eq, Forest.branch?_eq_some_iff, not_and]
  exact ⟨fun hnot => hnot hc, fun hnot _ => hnot⟩

theorem Twins.isBeside (ha : Twins h h' a b) (hs : Twins h h' s t) (hi : Twins h h' i j)
    (hbeside : h.IsBeside a (h.groups.branch? a s) i) :
    h'.IsBeside b (h'.groups.branch? b t) j := by
  obtain ⟨c, hc, hstart, hid⟩ := isBeside_branch?_iff.mp hbeside
  obtain ⟨c', hcc'⟩ := hr.exists_twin (Forest.lt_size_of_mem_children hc)
  exact isBeside_branch?_iff.mpr ⟨c', hcc'.mem_children hr ha hc,
    mt (hs.mem_subtree_iff hr hcc').mpr hstart, hi.mem_subtree hr hcc' hid⟩

theorem Twins.mem_definitionsBeside_iff (ha : Twins h h' a b) (hs : Twins h h' s t)
    (hi : Twins h h' i j) {kind : ObjectKind} {name : String} :
    i ∈ h.definitionsBeside a (h.groups.branch? a s) kind name ↔
      j ∈ h'.definitionsBeside b (h'.groups.branch? b t) kind name := by
  rw [mem_definitionsBeside, mem_definitionsBeside, hi.defines_eq]
  exact and_congr_left fun _ =>
    ⟨ha.isBeside hr hs hi, ha.symm.isBeside hr.symm hs.symm hi.symm⟩

theorem Twins.mem_nearestDefinitions (ha : Twins h h' a b) (hs : Twins h h' s t)
    (hi : Twins h h' i j) {kind : ObjectKind} {name : String}
    (hmem : i ∈ h.nearestDefinitions a (h.groups.branch? a s) kind name) :
    j ∈ h'.nearestDefinitions b (h'.groups.branch? b t) kind name := by
  rw [nearestDefinitions, List.mem_filter, decide_eq_true_eq] at hmem ⊢
  refine ⟨(ha.mem_definitionsBeside_iff hr hs hi).mp hmem.1, fun j' hj' => ?_⟩
  -- any other definition has a twin, which is as deep
  obtain ⟨i', hi'⟩ := hr.symm.exists_twin (lt_size_of_defines (mem_definitionsBeside.mp hj').2)
  have hle := hmem.2 i' ((ha.mem_definitionsBeside_iff hr hs hi'.symm).mpr hj')
  rwa [depthBelow, depthBelow, hi.depth_eq hr, hi'.symm.depth_eq hr, ha.depth_eq hr] at hle

/-- Two lists of the same groups are lists of the same paths. -/
theorem Rearranged.perm_paths {ids ids' : List Nat} (hids : ids.Nodup) (hids' : ids'.Nodup)
    (hlt : ∀ i ∈ ids, i < h.size) (hlt' : ∀ j ∈ ids', j < h'.size)
    (hmem : ∀ i j, Twins h h' i j → (i ∈ ids ↔ j ∈ ids')) :
    (ids.map fun i => (h.group i).path).Perm (ids'.map fun j => (h'.group j).path) := by
  have hnodup := hids.map_on fun i hi i' hi' =>
    hr.follows.path_inj i (hlt i hi) i' (hlt i' hi')
  have hnodup' := hids'.map_on fun j hj j' hj' =>
    hr.follows'.path_inj j (hlt' j hj) j' (hlt' j' hj')
  refine (List.perm_ext_iff_of_nodup hnodup hnodup').mpr fun path => ?_
  -- a path belongs to a group of the one list exactly if it belongs to its twin
  simp only [List.mem_map]
  constructor
  · rintro ⟨i, hi, rfl⟩
    obtain ⟨j, ht⟩ := hr.exists_twin (hlt i hi)
    exact ⟨j, (hmem i j ht).mp hi, ht.same.path.symm⟩
  · rintro ⟨j, hj, rfl⟩
    obtain ⟨i, ht⟩ := hr.symm.exists_twin (hlt' j hj)
    exact ⟨i, (hmem i j ht.symm).mpr hj, ht.same.path.symm⟩

/-- A search sideways finds the same objects, in the order in which their groups are listed. -/
theorem Twins.sameUpToOrder_lateral (ha : Twins h h' a b) (hs : Twins h h' s t) (kind : ObjectKind)
    (name : String) : (h.lateral a (h.groups.branch? a s) kind name).SameUpToOrder
      (h'.lateral b (h'.groups.branch? b t) kind name) := by
  have hobjects (h : Hierarchy) (ids : List Nat) : (ids.map fun id => h.objectPath id name) =
      (ids.map fun id => (h.group id).path).map fun path => join path name := by
    rw [List.map_map]
    rfl
  have hnodup (h : Hierarchy) (apex : Nat) (excluded : Option Nat) :
      (h.nearestDefinitions apex excluded kind name).Nodup :=
    ((Forest.nodup_subtree _ _).filter _).filter _
  rw [lateral_eq, lateral_eq, hobjects, hobjects]
  refine Lookup.sameUpToOrder_ofNearest (List.Perm.map _ ?_)
  -- the nearest definitions of one tree are the twins of those in the other
  refine hr.perm_paths (hnodup _ _ _) (hnodup _ _ _)
    (fun _ hi => lt_size_of_defines (Hierarchy.mem_nearestDefinitions hi).2)
    (fun _ hj => lt_size_of_defines (Hierarchy.mem_nearestDefinitions hj).2) fun i j hi => ?_
  exact ⟨ha.mem_nearestDefinitions hr hs hi,
    ha.symm.mem_nearestDefinitions hr.symm hs.symm hi.symm⟩

end

/-! ## Upwards -/

section

variable {v v' : Variable} (hv : SameVariable h h' v v')

include hr hv

/-- Upward walks for variables of the same content end at twins, or both end nowhere. -/
theorem Rearranged.sameUpToOrder_proximity (rule : ReferenceRule) (kind : ObjectKind)
    (name : String) :
    (h.proximity rule v kind name).SameUpToOrder (h'.proximity rule v' kind name) := by
  have hmeets : ∀ m n, Twins h h' m n → (h.Meets rule kind name m ↔ h'.Meets rule kind name n) :=
    fun m n hmn => by rw [Meets, Meets, hmn.defines_eq, hmn.defines_eq]
  have hwalk := hv.group.rel_find?_lineage hr hmeets
  generalize hm : (h.groups.lineage v.group).find? (h.Meets rule kind name) = m?,
    hn : (h'.groups.lineage v'.group).find? (h'.Meets rule kind name) = n? at hwalk
  cases hwalk with
  | @some m n hmn =>
    -- both walks end, at twins: these define the name, or they are the apex
    have hnearest := Forest.isNearest_of_find?_lineage hm
    have hnearest' := Forest.isNearest_of_find?_lineage hn
    by_cases hdefines : h.defines m kind name = true
    · rw [proximity_found hnearest hdefines,
        proximity_found hnearest' ((hmn.defines_eq kind name).symm.trans hdefines), objectPath,
        objectPath, hmn.same.path]
      exact .same _
    · have hnot := (hmn.defines_eq kind name) ▸ hdefines
      rw [proximity_apex hnearest hdefines, proximity_apex hnearest' hnot]
      exact hmn.sameUpToOrder_lateral hr hv.group kind name
  | none =>
    rw [proximity_of_forall_not (Forest.find?_lineage_eq_none_iff.mp hm),
      proximity_of_forall_not (Forest.find?_lineage_eq_none_iff.mp hn)]
    split
    · -- the dimensions of the variable decide, and they are the same
      have hdims : v.dimensions = v'.dimensions := congrArg (·.2.1) hv.content
      have howns : ∀ m n, Twins h h' m n → (h.Owns v m ↔ h'.Owns v' n) :=
        fun m n hmn => by rw [Owns, Owns, hdims, hmn.same.path]
      have howner := hv.group.rel_find?_lineage hr howns
      generalize (h.groups.lineage v.group).find? (h.Owns v) = m?,
        (h'.groups.lineage v'.group).find? (h'.Owns v') = n? at howner
      cases howner with
      | none => exact .same _
      | some hmn => exact hmn.sameUpToOrder_lateral hr hv.group kind name
    · exact .same _

theorem Rearranged.sameUpToOrder_lookup (rule : ReferenceRule) (kind : ObjectKind)
    (token : String) :
    (h.lookup rule v kind token).SameUpToOrder (h'.lookup rule v' kind token) := by
  rw [Hierarchy.lookup, Hierarchy.lookup]
  split
  · rw [hv.group.relative_eq hr]
    exact .same _
  · exact hr.sameUpToOrder_proximity hv rule kind token

/-! ## Resolution -/

theorem Rearranged.isScalarCoordinate_eq (token found : String) :
    h.isScalarCoordinate v token found = h'.isScalarCoordinate v' token found := by
  have hcoordinates : v.coordinates = v'.coordinates := congrArg (·.2.2) hv.content
  -- the variable found has the same dimensions in both trees
  have hrank : ((h.findVariable? found).any fun target => target.rank == 0) =
      (h'.findVariable? found).any fun target => target.rank == 0 := by
    have hfound := hr.rel_findVariable? found
    generalize h.findVariable? found = w?, h'.findVariable? found = w'? at hfound
    cases hfound with
    | none => rfl
    | some hw =>
      have hdims := congrArg (·.2.1) hw.content
      simp only [Option.any_some, Variable.rank]
      exact congrArg (fun dims : List String => dims.length == 0) hdims
  rw [isScalarCoordinate, isScalarCoordinate, hcoordinates, hrank]

/-- Kind by kind, what is found and what is ambiguous so far go together. -/
theorem Rearranged.resolvesAlike_resolveAmong (rule : ReferenceRule) (token : String)
    (kinds : List ObjectKind) {ambiguous ambiguous' : Option (List String)}
    (hambiguous : Option.Rel List.Perm ambiguous ambiguous') :
    ResolvesAlike (h.resolveAmong rule v token kinds ambiguous)
      (h'.resolveAmong rule v' token kinds ambiguous') := by
  -- along the kinds, for ambiguous answers that agree up to order
  induction kinds generalizing ambiguous ambiguous' with
  | nil =>
    cases hambiguous with
    | none => exact .same _
    | some hperm =>
      simp only [Hierarchy.resolveAmong, outcomeOfMissing]
      split
      · exact .same _
      · exact .ambiguous hperm
  | cons kind rest ih =>
    -- the first ambiguous answer is the one that is kept
    have hor {paths paths' : List String} (hperm : paths.Perm paths') :
        Option.Rel List.Perm (ambiguous.or (some paths)) (ambiguous'.or (some paths')) := by
      cases hambiguous with
      | none => exact .some hperm
      | some hearlier => exact .some hearlier
    rw [Hierarchy.resolveAmong, Hierarchy.resolveAmong]
    have hlookup := hr.sameUpToOrder_lookup hv rule kind token
    generalize h.lookup rule v kind token = result, h'.lookup rule v' kind token = result'
      at hlookup
    cases hlookup with
    | ambiguous hperm => exact ih (hor hperm)
    | same result =>
      cases result with
      | found path =>
        simp only [hr.isScalarCoordinate_eq hv]
        exact .same _
      | missing => exact ih hambiguous
      | ambiguous paths => exact ih (hor (List.Perm.refl paths))

theorem Rearranged.resolvesAlike_resolve (rule : ReferenceRule) (token : String) :
    ResolvesAlike (h.resolve rule v token) (h'.resolve rule v' token) := by
  rw [Hierarchy.resolve, Hierarchy.resolve]
  split
  · exact .same _
  · exact hr.resolvesAlike_resolveAmong hv rule token rule.kinds .none

end

/-- Two snapshots that have the same groups, dimensions and variables, however these are listed,
have variables of the same paths and resolve every token for such a variable alike. -/
theorem resolve_alike_of_sameUpToOrder {d d' : Dataset} (hd : d.Reachable) (hd' : d'.Reachable)
    (hnames : d.HasProperNames) (hnames' : d'.HasProperNames) {limit limit' : Nat}
    {h h' : Hierarchy} (hrun : ofDataset d limit = .ok h) (hrun' : ofDataset d' limit' = .ok h')
    (hsame : h.SameUpToOrder h') {v : Variable} (hv : v ∈ h.allVars) :
    (∃ v' ∈ h'.allVars, v'.path = v.path) ∧
    ∀ v' ∈ h'.allVars, v'.path = v.path → ∀ (rule : ReferenceRule) (token : String),
      ResolvesAlike (h.resolve rule v token) (h'.resolve rule v' token) := by
  have hr : Rearranged h h' := ⟨followsPaths_of_ofDataset hd.wellFormed hnames hrun,
    followsPaths_of_ofDataset hd'.wellFormed hnames' hrun', hsame⟩
  constructor
  -- the variable of the same name in the twin of its group
  · obtain ⟨n, hn, hv⟩ := mem_allVars_iff.mp hv
    obtain ⟨n', ht⟩ := hr.exists_twin hn
    obtain ⟨v', hv', hcontent⟩ :=
      List.mem_map.mp ((ht.same.vars _).mp (List.mem_map_of_mem hv))
    refine ⟨v', mem_allVars_iff.mpr ⟨n', ht.lt_size', hv'⟩, ?_⟩
    have hname : v'.name = v.name := congrArg Prod.fst hcontent
    rw [(hr.follows'.vars n' ht.lt_size' v' hv').2, (hr.follows.vars n hn v hv).2, hname,
      ht.same.path]
  · intro v' hv' hpath rule token
    -- the path leads to either variable
    have hfound := hr.rel_findVariable? v.path
    rw [hr.follows.findVariable? v hv, ← hpath, hr.follows'.findVariable? v' hv'] at hfound
    cases hfound with
    | some hvv' => exact hr.resolvesAlike_resolve hvv' rule token

/-- A lake that some rivers belong to. -/
def lake (rivers : List String) : Dataset :=
  (Dataset.create "lake" true).applyAll
    (.dimension "/" "day" (some 2) :: .variable "/" ⟨"volume", .double, ["/day"], none⟩ ::
      rivers.flatMap fun river =>
        [.group "/" river, .variable ("/" ++ river) ⟨"level", .double, ["/day"], none⟩])

/-- From the lake, the levels of both rivers are equally near. They are listed as the rivers are. -/
theorem resolve_alike_of_sameUpToOrder_of_lakes : (lake ["source", "outlet"]).Reachable ∧
    (lake ["outlet", "source"]).Reachable ∧ (lake ["source", "outlet"]).HasProperNames ∧
    (lake ["outlet", "source"]).HasProperNames ∧
    ∃ h h', ofDataset (lake ["source", "outlet"]) 1 = .ok h ∧
      ofDataset (lake ["outlet", "source"]) 1 = .ok h' ∧ h.SameUpToOrder h' ∧
      ∃ v ∈ h.allVars, ∃ v' ∈ h'.allVars, v'.path = v.path ∧
        (h.resolve .coordinates v "level").toOption =
          some (.ambiguous ["/source/level", "/outlet/level"]) ∧
        (h'.resolve .coordinates v' "level").toOption =
          some (.ambiguous ["/outlet/level", "/source/level"]) ∧
        ResolvesAlike (h.resolve .coordinates v "level")
          (h'.resolve .coordinates v' "level") := by
  have hreachable (rivers : List String) : (lake rivers).Reachable :=
    (Dataset.Reachable.create "lake" true).applyAll _
  have hnames : (lake ["source", "outlet"]).HasProperNames := by decide +kernel
  have hnames' : (lake ["outlet", "source"]).HasProperNames := by decide +kernel
  have hruns : (ofDataset (lake ["source", "outlet"]) 1).toOption.any (fun h =>
      (ofDataset (lake ["outlet", "source"]) 1).toOption.any fun h' =>
        decide (h.SameUpToOrder h' ∧ ∃ v ∈ h.allVars, ∃ v' ∈ h'.allVars, v'.path = v.path ∧
          (h.resolve .coordinates v "level").toOption =
            some (.ambiguous ["/source/level", "/outlet/level"]) ∧
          (h'.resolve .coordinates v' "level").toOption =
            some (.ambiguous ["/outlet/level", "/source/level"]))) = true := by
    decide +kernel
  obtain ⟨h, hrun, hruns⟩ := (Option.any_eq_true _ _).mp hruns
  obtain ⟨h', hrun', hruns⟩ := (Option.any_eq_true _ _).mp hruns
  obtain ⟨hsame, v, hv, v', hv', hpath, hfirst, hsecond⟩ := of_decide_eq_true hruns
  have hrun := Except.toOption_eq_some_iff.mp hrun
  have hrun' := Except.toOption_eq_some_iff.mp hrun'
  have halike := (resolve_alike_of_sameUpToOrder (hreachable _) (hreachable _) hnames hnames' hrun
    hrun' hsame hv).2 v' hv' hpath .coordinates "level"
  exact ⟨hreachable _, hreachable _, hnames, hnames', h, h', hrun, hrun', hsame, v, hv, v', hv',
    hpath, hfirst, hsecond, halike⟩

end Hierarchy

end GroupFlattening
