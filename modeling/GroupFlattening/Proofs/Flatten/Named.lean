import GroupFlattening.Proofs.Flatten.BadReference
import GroupFlattening.Proofs.Resolution.Search

/-!
# Resolved Objects Have Flat Names

Whatever a token without a leading separator is resolved to is an object of a group of the snapshot,
of a kind that the rule allows, and the name table leads from its path to its flat name
(`isNamed_of_mem_lookup`). The same holds of all candidates of an ambiguous token. So the name table
lacks a name only for a token that is an absolute path (`MissesName.isAbsolute`), and a reference
without a leading separator is reported only because the search for it has failed
(`reported_of_transferAll`).
-/

namespace GroupFlattening

open ObjectPath (join)

namespace Hierarchy

variable {d : Dataset} {h : Hierarchy} {limit : Nat} {rule : ReferenceRule} {v : Variable}
  {kind : ObjectKind} {name token path : String}

/-- A path is that of an object of a kind that a group defines, and the name table leads from it to
the flat name of this object. -/
def IsNamed (h : Hierarchy) (kind : ObjectKind) (path : String) : Prop :=
  ∃ n < h.size, ∃ name, h.defines n kind name = true ∧ path = join (h.group n).path name ∧
    (NameTable.ofHierarchy h).find? path kind false = some (flatName (h.group n).path name)

section Snapshot

variable (hd : d.WellFormed) (hnames : d.HasProperNames) (hrun : ofDataset d limit = .ok h)

include hd hnames hrun

/-- A definition of the tree is in the name table. -/
theorem isNamed_of_defines {n : Nat} (hdefines : h.defines n kind name = true) :
    h.IsNamed kind (join (h.group n).path name) := by
  refine ⟨n, lt_size_of_defines hdefines, name, hdefines, rfl, ?_⟩
  exact NameTable.find?_eq_some_iff.mpr (Or.inl (NameTable.find?_join_of_mem_objects hd hnames hrun
    (mem_objects_of_defines hd hnames hrun hdefines)))

/-- All that a search comes back with has a flat name of its own. -/
theorem isNamed_of_mem_lookup (hpath : path ∈ (h.lookup rule v kind token).paths) :
    h.IsNamed kind path := by
  obtain ⟨n, name, hdefines, rfl, -⟩ := exists_defines_of_mem_lookup hpath
  exact isNamed_of_defines hd hnames hrun hdefines

variable (hrelative : ObjectPath.isAbsolute token = false)

include hrelative

theorem isNamed_of_resolve (hresolve : h.resolve rule v token = .ok (.object path kind)) :
    kind ∈ rule.kinds ∧ h.IsNamed kind path := by
  rw [resolve, if_neg (by simp [hrelative])] at hresolve
  obtain ⟨hkind, hfound⟩ := lookup_of_resolveAmong hresolve
  have hpath : path ∈ (h.lookup rule v kind token).paths := by
    rw [hfound]
    exact List.mem_singleton_self path
  exact ⟨hkind, isNamed_of_mem_lookup hd hnames hrun hpath⟩

theorem isNamed_of_resolve_ambiguous {candidates : List String}
    (hresolve : h.resolve rule v token = .ok (.ambiguous candidates)) :
    ∃ kind ∈ rule.kinds, ∀ path ∈ candidates, h.IsNamed kind path := by
  rw [resolve, if_neg (by simp [hrelative])] at hresolve
  rcases lookup_of_resolveAmong_ambiguous hresolve with hnone | ⟨kind, hkind, hlookup⟩
  · cases hnone
  · refine ⟨kind, hkind, fun path hpath => ?_⟩
    exact isNamed_of_mem_lookup hd hnames hrun (by rw [hlookup]; exact hpath)

omit hrelative in
/-- What a token designates has a flat name unless the token is an absolute path. -/
theorem isAbsolute_of_find?_eq_none {both : Bool}
    (hresolve : h.resolve rule v token = .ok (.object path kind))
    (hmissing : (NameTable.ofHierarchy h).find? path kind both = none) :
    ObjectPath.isAbsolute token = true := by
  rw [← Bool.not_eq_false]
  intro hrelative
  obtain ⟨-, n, -, name, -, -, hfind⟩ := isNamed_of_resolve hd hnames hrun hrelative hresolve
  -- the table has the name under the kind of the object, so it matters not if both kinds count
  have hown := (NameTable.find?_eq_some_iff.mp hfind).resolve_right (by simp)
  rw [NameTable.find?_eq_some_iff.mpr (Or.inl hown)] at hmissing
  cases hmissing

end Snapshot

end Hierarchy

namespace Flatten

variable {d : Dataset} {h : Hierarchy} {limit : Nat} {settings : Settings}
  {created : Transfer.Created}

/-! ## Missing names -/

/-- In the value of a pending attribute of a variable that was created, a token has been settled,
and the flat name that it is to be replaced by is missing. -/
inductive MissesName (h : Hierarchy) (settings : Settings) (created : Transfer.Created)
    (token : String) : Prop
  | mk {v : Hierarchy.Variable} {pending : Transfer.Pending} {settled : ReferenceSite.Settled}
      (hnode : surveyed h created.path = .ok v)
      (hpending : pending ∈ created.pending)
      (hsettled : settlePending h settings v pending = .ok (pending, settled))
      (htoken : token ∈ pending.site.tokens settled.references)
      (hmissing : pending.site.replacement? (.ofHierarchy h) settled.resolutions token = none)

/-- A name is missing only for an absolute path. -/
theorem MissesName.isAbsolute (hd : d.WellFormed) (hnames : d.HasProperNames)
    (hrun : Hierarchy.ofDataset d limit = .ok h) {token : String}
    (hmisses : MissesName h settings created token) : ObjectPath.isAbsolute token = true := by
  obtain ⟨-, -, hsettled, htoken, hmissing⟩ := hmisses
  obtain ⟨settled, hsettle, heq⟩ := settlePending_eq_ok_iff.mp hsettled
  cases heq
  obtain ⟨outcome, resolution, degraded, hresolve, hresolution, hlookup⟩ :=
    (ReferenceSite.settle_ok hsettle).2 token htoken
  simp only [ReferenceSite.replacement?, hlookup] at hmissing
  -- only an object can lack a name
  rcases ReferenceSite.settleOutcome_eq_ok hresolution with
    ⟨path, kind, rfl, rfl⟩ | ⟨-, rfl⟩ | ⟨-, rfl⟩
  · exact Hierarchy.isAbsolute_of_find?_eq_none hd hnames hrun hresolve hmissing
  · cases hmissing
  · cases hmissing

/-! ## Reports -/

section Run

variable {ι σ : Type} [Readable ι] [Writable σ] {t t' : Transfer σ} {tally : Tally}

/-- What the work on the references of a variable adds to the report: of each pending value, once it
is settled, the tokens for which the search has failed and those whose names are missing. -/
theorem tally_of_references {names : NameTable}
    (hrun : references h names settings created t = .ok tally t') :
    ∃ settled, List.Forall₂ (fun pending entry => ∃ v, surveyed h created.path = .ok v ∧
        settlePending h settings v pending = .ok entry) created.pending settled ∧
      tally.unresolved = settled.flatMap (fun entry => entry.2.degraded) ∧
      tally.unnamed = settled.flatMap fun entry =>
        entry.1.site.unnamed names entry.2.references entry.2.resolutions := by
  unfold references at hrun
  split at hrun
  -- no pending attribute: nothing is settled and nothing reported
  · next hempty =>
    obtain ⟨rfl, -⟩ := EStateM.pure_eq_ok_iff.mp hrun
    exact ⟨[], by rw [List.isEmpty_iff.mp hempty]; exact .nil, rfl, rfl⟩
  obtain ⟨v, t₁, hcompute, hrun⟩ := EStateM.bind_eq_ok_iff.mp hrun
  obtain ⟨hnode, rfl⟩ := Transfer.compute_eq_ok_iff.mp hcompute
  -- the first pass settles all pending values without a write
  obtain ⟨settled, t₂, hcompute, hrun⟩ := EStateM.bind_eq_ok_iff.mp hrun
  obtain ⟨hsettled, rfl⟩ := Transfer.compute_eq_ok_iff.mp hcompute
  obtain ⟨unnamed, t₃, hwalk, hpure⟩ := EStateM.bind_eq_ok_iff.mp hrun
  obtain ⟨rfl, -⟩ := EStateM.pure_eq_ok_iff.mp hpure
  refine ⟨settled, (Except.mapM_eq_ok_iff.mp hsettled).imp fun _ _ hsettle => ⟨v, hnode, hsettle⟩,
    rfl, ?_⟩
  -- a missing name is reported when the text is put together
  have hunnamed := EStateM.forall₂_of_mapM (R := fun entry out =>
    out = entry.1.site.unnamed names entry.2.references entry.2.resolutions)
    (fun entry _ s out s' hstep => ?_) hwalk
  · have hmap := Forall₂.map_eq hunnamed (g := id) fun entry out hout => hout.symm
    rw [List.map_id] at hmap
    exact congrArg List.flatten hmap.symm
  · obtain ⟨text, s₁, -, hstep⟩ := EStateM.bind_eq_ok_iff.mp hstep
    obtain ⟨⟨⟩, s₂, -, hpure⟩ := EStateM.bind_eq_ok_iff.mp hstep
    exact (EStateM.pure_eq_ok_iff.mp hpure).1.symm

/-- A reference is reported because the search for it has failed or because its name is missing. -/
theorem mem_tally_of_references
    (hrun : references h (.ofHierarchy h) settings created t = .ok tally t') :
    (∀ r ∈ tally.unresolved, ∃ v, h.findVariable? created.path = some v ∧
      ∃ pending ∈ created.pending, r.owner = pending.owner ∧ r.name = pending.name ∧
        ReferenceSite.Undecided h pending.rule v r.reference r.candidates) ∧
    ∀ r ∈ tally.unnamed, MissesName h settings created r.reference := by
  obtain ⟨settled, hsettled, hunresolved, hunnamed⟩ := tally_of_references hrun
  rw [hunresolved, hunnamed]
  constructor
  · intro r hr
    obtain ⟨entry, hentry, hr⟩ := List.mem_flatMap.mp hr
    obtain ⟨pending, hpending, v, hnode, hsettle⟩ := Forall₂.exists_left hsettled hentry
    -- the report comes from one pending value of this variable
    obtain ⟨result, hresult, rfl⟩ := settlePending_eq_ok_iff.mp hsettle
    exact ⟨v, surveyed_eq_ok_iff.mp hnode, pending, hpending,
      ReferenceSite.undecided_of_mem_degraded hresult hr⟩
  · intro r hr
    obtain ⟨entry, hentry, hr⟩ := List.mem_flatMap.mp hr
    obtain ⟨pending, hpending, v, hnode, hsettle⟩ := Forall₂.exists_left hsettled hentry
    obtain ⟨result, -, rfl⟩ := settlePending_eq_ok_iff.mp hsettle
    obtain ⟨token, htoken, rfl⟩ := List.mem_map.mp hr
    obtain ⟨htoken, hmissing⟩ := List.mem_filter.mp htoken
    exact ⟨hnode, hpending, hsettle, htoken, Option.isNone_iff_eq_none.mp hmissing⟩

end Run

end Flatten

/-- All references that a tally lists have a property. -/
def Tally.Lists (tally : Tally) (P : DegradedReference → Prop) : Prop :=
  ∀ r ∈ tally.unresolved ++ tally.unnamed, P r

theorem Tally.lists_total {tallies : List Tally} {P : DegradedReference → Prop}
    (hall : ∀ tally ∈ tallies, tally.Lists P) : (Tally.total tallies).Lists P := by
  -- along the tallies, from any tally of the work before them
  have hfold : ∀ start : Tally, start.Lists P → (tallies.foldl Tally.append start).Lists P := by
    induction tallies with
    | nil => exact fun start hstart => hstart
    | cons tally rest ih =>
      intro start hstart
      refine ih (fun tally htally => hall tally (List.mem_cons_of_mem _ htally)) _ fun r hr => ?_
      have hfirst := hall tally List.mem_cons_self
      simp only [Tally.append, List.mem_append] at hr
      rcases hr with (hr | hr) | (hr | hr)
      · exact hstart r (List.mem_append_left _ hr)
      · exact hfirst r (List.mem_append_left _ hr)
      · exact hstart r (List.mem_append_right _ hr)
      · exact hfirst r (List.mem_append_right _ hr)
  exact hfold {} fun r hr => nomatch hr

/-- The fault of a reference that stops a strict run. -/
def DegradedReference.fault (r : DegradedReference) : Fault :=
  if r.candidates.isEmpty then .unresolvedReference r.owner r.name r.reference
  else .ambiguousReference r.owner r.name r.reference r.candidates

namespace Flatten

variable {d : Dataset} {h : Hierarchy} {limit : Nat} {settings : Settings}
  {created : Transfer.Created}

/-- Why there is something wrong with a reference: the search for it has failed, or it is an
absolute path. -/
inductive Reported (h : Hierarchy) (r : DegradedReference) : Prop
  | undecided {v : Hierarchy.Variable} {rule : ReferenceRule}
      (hnode : h.findVariable? r.owner = some v)
      (hrule : ReferenceRule.forAttribute? r.name = some rule)
      (hundecided : ReferenceSite.Undecided h rule v r.reference r.candidates)
  | absolute (habsolute : ObjectPath.isAbsolute r.reference = true)

section Session

variable (hd : d.WellFormed) (hnames : d.HasProperNames)
  (hsnapshot : Hierarchy.ofDataset d limit = .ok h) {ι σ : Type} [Readable ι] [Writable σ]
  {input : ι}

include hd hnames hsnapshot

section Reports

variable {t t' : Transfer σ} {tally : Tally}

theorem lists_variableStep {group : String} {info : VariableInfo}
    (hrun : variableStep input h (.ofHierarchy h) settings group info t = .ok tally t') :
    tally.Lists (Reported h) := by
  obtain ⟨created, t₁, hcreate, hrun⟩ := EStateM.bind_eq_ok_iff.mp hrun
  obtain ⟨tally', t₂, hreferences, hrun⟩ := EStateM.bind_eq_ok_iff.mp hrun
  obtain ⟨⟨⟩, t₃, -, hpure⟩ := EStateM.bind_eq_ok_iff.mp hrun
  obtain ⟨rfl, -⟩ := EStateM.pure_eq_ok_iff.mp hpure
  obtain ⟨hunresolved, hunnamed⟩ := mem_tally_of_references hreferences
  intro r hr
  rcases List.mem_append.mp hr with hr | hr
  -- undecided when the token was settled
  · obtain ⟨v, hnode, pending, hpending, howner, hname, hundecided⟩ := hunresolved r hr
    obtain ⟨hpath, -, hrule⟩ := pending_of_created hcreate pending hpending
    rw [← hpath, ← howner] at hnode
    exact .undecided hnode (hname ▸ hrule) hundecided
  -- or left without a name, which happens to absolute tokens only
  · exact .absolute ((hunnamed r hr).isAbsolute hd hnames hsnapshot)

theorem lists_groupStep {group : Hierarchy.Group}
    (hrun : groupStep input h (.ofHierarchy h) settings group t = .ok tally t') :
    tally.Lists (Reported h) := by
  obtain ⟨infos, t₁, -, hrun⟩ := EStateM.bind_eq_ok_iff.mp hrun
  obtain ⟨tallies, t₂, hwalk, hpure⟩ := EStateM.bind_eq_ok_iff.mp hrun
  obtain ⟨rfl, -⟩ := EStateM.pure_eq_ok_iff.mp hpure
  have hall := EStateM.forall₂_of_mapM (R := fun _ tally => Tally.Lists tally (Reported h))
    (fun info _ s tally s' hstep => lists_variableStep hd hnames hsnapshot hstep) hwalk
  refine Tally.lists_total fun tally htally => ?_
  obtain ⟨info, -, hlists⟩ := Forall₂.exists_left hall htally
  exact hlists

/-- All that a run reports it reports because a search has failed or a name is missing. -/
theorem reported_of_transferAll {report : Report}
    (hrun : transferAll input settings h t = .ok report t') :
    ∀ r ∈ report.degraded, Reported h r := by
  obtain ⟨tallies, t₁, hwalk, hrun⟩ := EStateM.bind_eq_ok_iff.mp hrun
  obtain ⟨provenance, t₂, -, hpure⟩ := EStateM.bind_eq_ok_iff.mp hrun
  obtain ⟨rfl, -⟩ := EStateM.pure_eq_ok_iff.mp hpure
  have hall := EStateM.forall₂_of_mapM (R := fun _ tally => Tally.Lists tally (Reported h))
    (fun group _ s tally s' hstep => lists_groupStep hd hnames hsnapshot hstep) hwalk
  refine Tally.lists_total fun tally htally => ?_
  obtain ⟨group, -, hlists⟩ := Forall₂.exists_left hall htally
  exact hlists

end Reports

/-! ## Faults -/

theorem reported_of_stops {site : ReferenceSite} {v : Hierarchy.Variable} {value : String}
    {fault : Fault} (hnode : h.findVariable? site.owner = some v)
    (hrule : ReferenceRule.forAttribute? site.name = some site.rule)
    (hstops : site.Stops h (.ofHierarchy h) v value fault) :
    ∃ r : DegradedReference, fault = r.fault ∧ Reported h r := by
  obtain @⟨references, token, candidates, -, -, hdefect⟩ := hstops
  refine ⟨⟨site.owner, site.name, token, candidates⟩, rfl, ?_⟩
  -- what stops the strict run is what the lax one would report
  cases hdefect with
  | unresolved hresolve => exact .undecided hnode hrule (Or.inl ⟨hresolve, rfl⟩)
  | ambiguous hresolve => exact .undecided hnode hrule (Or.inr hresolve)
  | unnamed hresolve hmissing =>
    exact .absolute (Hierarchy.isAbsolute_of_find?_eq_none hd hnames hsnapshot hresolve hmissing)

section Strict

variable {t t' : Transfer Dataset} {fault : Fault} (hfault : ¬ fault.IsPlain)
  (hstrict : settings.laxMode = false)

include hfault hstrict

theorem fault_of_references
    (hcreated : ∀ pending ∈ created.pending, pending.owner = created.path ∧
      ReferenceRule.forAttribute? pending.name = some pending.rule)
    (hrun : references h (.ofHierarchy h) settings created t = .error fault t') :
    ∃ r : DegradedReference, fault = r.fault ∧ Reported h r := by
  unfold references at hrun
  split at hrun
  -- without pending attributes there is no fault
  · cases hrun
  rcases EStateM.bind_eq_error_iff.mp hrun with hnode | ⟨v, t₁, hnode, hrun⟩
  · obtain ⟨hnode, -⟩ := Transfer.compute_eq_error_iff.mp hnode
    exact absurd (plain_surveyed _ _ _ hnode) hfault
  obtain ⟨hsurveyed, -⟩ := Transfer.compute_eq_ok_iff.mp hnode
  have hfound := surveyed_eq_ok_iff.mp hsurveyed
  -- in either pass the run stops at a pending value of the variable
  obtain ⟨pending, hpending, hstops⟩ : ∃ pending ∈ created.pending,
      pending.site.Stops h (.ofHierarchy h) v pending.value fault := by
    rcases EStateM.bind_eq_error_iff.mp hrun with hsettle | ⟨settled, t₂, hsettled, hrun⟩
    · exact stops_of_settlePending hfault hstrict (Transfer.compute_eq_error_iff.mp hsettle).1
    obtain ⟨hall, -⟩ := Transfer.compute_eq_ok_iff.mp hsettled
    rcases EStateM.bind_eq_error_iff.mp hrun with hwalk | ⟨_, _, -, hpure⟩
    · obtain ⟨done, entry, rest, out, t₃, rfl, -, herror⟩ := EStateM.mapM_eq_error_iff.mp hwalk
      obtain ⟨pending, hpending, hsettle⟩ :=
        Forall₂.exists_left (Except.mapM_eq_ok_iff.mp hall) (b := entry) (by simp)
      exact ⟨pending, hpending, (stops_of_replacePending hfault hstrict hsettle herror).2⟩
    · cases hpure
  obtain ⟨howner, hrule⟩ := hcreated pending hpending
  have hnode : h.findVariable? pending.site.owner = some v := by
    rw [← hfound, ← howner]
    rfl
  exact reported_of_stops hd hnames hsnapshot hnode hrule hstops

theorem fault_of_variableStep {group : String} {info : VariableInfo}
    (hrun : variableStep input h (.ofHierarchy h) settings group info t = .error fault t') :
    ∃ r : DegradedReference, fault = r.fault ∧ Reported h r := by
  rcases EStateM.bind_eq_error_iff.mp hrun with hcreate | ⟨created, t₁, hcreate, hrun⟩
  -- the faults of the copy and of its data are plain
  · exact absurd (plain_createVariable _ _ _ _ _ _ _ hcreate) hfault
  rcases EStateM.bind_eq_error_iff.mp hrun with hreferences | ⟨tally, t₂, -, hrun⟩
  · refine fault_of_references hd hnames hsnapshot hfault hstrict
      (fun pending hpending => ?_) hreferences
    obtain ⟨howner, -, hrule⟩ := pending_of_created hcreate pending hpending
    exact ⟨howner, hrule⟩
  rcases EStateM.bind_eq_error_iff.mp hrun with hdata | ⟨_, _, -, hpure⟩
  · exact absurd (plain_data _ _ _ _ _ _ _ _ hdata) hfault
  · cases hpure

/-- A fault about a reference is due to a search that has failed or to a missing name. -/
theorem fault_of_transferAll (hrun : transferAll input settings h t = .error fault t') :
    ∃ r : DegradedReference, fault = r.fault ∧ Reported h r := by
  -- the first group that fails, or the provenance, whose faults are plain
  rcases EStateM.bind_eq_error_iff.mp hrun with hwalk | ⟨tallies, t₁, -, hrun⟩
  · obtain ⟨_, group, _, _, t₁, -, -, hgroup⟩ := EStateM.mapM_eq_error_iff.mp hwalk
    rcases EStateM.bind_eq_error_iff.mp hgroup with hcarry | ⟨infos, t₂, -, hgroup⟩
    · exact absurd (plain_group _ _ _ _ _ hcarry) hfault
    -- the first variable of this group that fails
    rcases EStateM.bind_eq_error_iff.mp hgroup with hwalk | ⟨_, _, -, hpure⟩
    · obtain ⟨_, info, _, _, t₃, -, -, hvariable⟩ := EStateM.mapM_eq_error_iff.mp hwalk
      exact fault_of_variableStep hd hnames hsnapshot hfault hstrict hvariable
    · cases hpure
  rcases EStateM.bind_eq_error_iff.mp hrun with hfinish | ⟨_, _, -, hpure⟩
  · exact absurd (plain_finish _ _ _ hfinish) hfault
  · cases hpure

end Strict

end Session

/-! ## The whole run -/

/-- In a snapshot of a dataset with proper names, a token that is no absolute path is resolved only
to an object of a kind that its rule allows, which a group defines under the path given and which
has its flat name under that path, and if it is ambiguous, all candidates are such objects of one
kind. So in a run the flat name of what a token designates is missing only if the token is an
absolute path. Any other reference that a lax run reports, or that a strict run stops at, is one
that designates nothing or several objects. -/
theorem resolve_sound (hd : d.Reachable) (hnames : d.HasProperNames)
    (hsnapshot : Hierarchy.ofDataset d limit = .ok h) :
    (∀ (rule : ReferenceRule) (v : Hierarchy.Variable) (token : String),
      ObjectPath.isAbsolute token = false →
      (∀ path kind, h.resolve rule v token = .ok (.object path kind) →
        kind ∈ rule.kinds ∧ h.IsNamed kind path) ∧
      ∀ candidates, h.resolve rule v token = .ok (.ambiguous candidates) →
        ∃ kind ∈ rule.kinds, ∀ path ∈ candidates, h.IsNamed kind path) ∧
    (∀ settings created token, MissesName h settings created token →
      ObjectPath.isAbsolute token = true) ∧
    ∀ settings : Settings, settings.depthLimit = limit → ∀ output : Dataset,
      (∀ report output', flatten d settings output = .ok report output' →
        ∀ r ∈ report.degraded, Reported h r) ∧
      ∀ fault output', flatten d settings output = .error fault output' →
        fault.isOfReference = true → ∃ r : DegradedReference, fault = r.fault ∧ Reported h r := by
  refine ⟨fun rule v token hrelative =>
      ⟨fun path kind hresolve => ?_, fun candidates hresolve => ?_⟩,
    fun settings created token hmisses => ?_, ?_⟩
  · exact Hierarchy.isNamed_of_resolve hd.wellFormed hnames hsnapshot hrelative hresolve
  · exact Hierarchy.isNamed_of_resolve_ambiguous hd.wellFormed hnames hsnapshot hrelative hresolve
  · exact hmisses.isAbsolute hd.wellFormed hnames hsnapshot
  · rintro settings rfl output
    -- the hierarchy that a run works with is the snapshot
    have hsurvey : ∀ h', survey d output settings = .ok h' → h' = h := by
      intro h' hsurvey
      obtain ⟨-, -, hsnapshot'⟩ := Except.bind_eq_ok_iff.mp hsurvey
      exact Except.ok.inj (hsnapshot'.symm.trans hsnapshot)
    refine ⟨fun report output' hrun => ?_, fun fault output' hrun hreference => ?_⟩
    · obtain ⟨h', t', hh', hrun, -⟩ := flatten_eq_ok_iff.mp hrun
      -- the report of a run, reference by reference
      obtain rfl := hsurvey h' hh'
      exact reported_of_transferAll hd.wellFormed hnames hsnapshot hrun
    · have hfault : ¬ fault.IsPlain := fun hplain => by cases hplain.symm.trans hreference
      -- the fault of a run: the survey has plain ones only
      rcases flatten_eq_error_iff.mp hrun with ⟨hearly, -⟩ | ⟨h', t', hh', hrun, -⟩
      · exact absurd (plain_surveyOf d output settings fault hearly) hfault
      obtain rfl := hsurvey h' hh'
      cases hmode : settings.laxMode with
      | false => exact fault_of_transferAll hd.wellFormed hnames hsnapshot hfault hmode hrun
      | true =>
        -- a lax run has no such fault
        have hlax : { settings with laxMode := true } = settings := by rw [← hmode]
        have hplain := (agree_transferAll (σ := Dataset) d settings h').plain
        rw [hlax] at hplain
        exact absurd (hplain _ _ _ hrun) hfault

/-- A pier with a bare name and the path of nothing among its coordinates. -/
def pier : Dataset :=
  (Dataset.create "pier" true).applyAll
    [.group "/" "g", .dimension "/g" "x" (some 2), .variable "/g" ⟨"x", .byte, ["/g/x"], none⟩,
      .variable "/g" ⟨"v", .byte, ["/g/x"], none⟩,
      .variableAttribute "/g/v" "coordinates" (.text "x /h/y")]

/-- The bare name is resolved to an object with a flat name; only the path is reported. -/
theorem pier_resolve_sound : pier.Reachable ∧ pier.HasProperNames ∧
    ∃ h, Hierarchy.ofDataset pier ({} : Settings).depthLimit = .ok h ∧
      (∃ rule v, h.resolve rule v "x" = .ok (.object "/g/x" .var) ∧ h.IsNamed .var "/g/x") ∧
      ∃ report output', flatten pier { laxMode := true } (Dataset.create "flat" false) =
          .ok report output' ∧
        report.degraded = [⟨"/g/v", "coordinates", "/h/y", []⟩] ∧
        ∀ r ∈ report.degraded, Reported h r := by
  have hreachable : pier.Reachable := (Dataset.Reachable.create "pier" true).applyAll _
  have hproper : pier.HasProperNames := by decide +kernel
  have hresolves : (Hierarchy.ofDataset pier ({} : Settings).depthLimit).toOption.any (fun h =>
      (h.findVariable? "/g/v").any fun v => decide ((h.resolve .coordinates v "x").toOption =
        some (.object "/g/x" .var))) = true := by decide +kernel
  have hsucceeds : EStateM.succeedsWith (fun (report : Report) (_ : Dataset) =>
      decide (report.degraded = [⟨"/g/v", "coordinates", "/h/y", []⟩]))
      (flatten pier { laxMode := true } (Dataset.create "flat" false)) = true := by decide +kernel
  obtain ⟨report, output', hrun, hdegraded⟩ := EStateM.exists_of_succeedsWith _ hsucceeds
  obtain ⟨h, hsnapshot, hfind⟩ := (Option.any_eq_true _ _).mp hresolves
  obtain ⟨v, -, hresolve⟩ := (Option.any_eq_true _ _).mp hfind
  have hsnapshot := Except.toOption_eq_some_iff.mp hsnapshot
  have hresolve := Except.toOption_eq_some_iff.mp (of_decide_eq_true hresolve)
  obtain ⟨hsound, -, hruns⟩ := resolve_sound hreachable hproper hsnapshot
  exact ⟨hreachable, hproper, h, hsnapshot,
    ⟨_, v, hresolve, ((hsound _ v "x" (by decide)).1 "/g/x" .var hresolve).2⟩,
    report, output', hrun, of_decide_eq_true hdegraded,
    (hruns { laxMode := true } rfl (Dataset.create "flat" false)).1 report output' hrun⟩

end Flatten

end GroupFlattening
