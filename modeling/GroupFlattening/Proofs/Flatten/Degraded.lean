import GroupFlattening.Proofs.Flatten.Named
import GroupFlattening.Proofs.Flatten.Position
import GroupFlattening.Proofs.Flatten.ScalarCoordinates

/-!
# What a Lax Run Reports

A token that is replaced by a placeholder is reported with the variable and the attribute that it
stands in (`DegradedReference.subject`). Two kinds of tokens are: those for which the search fails,
which are settled and reported once for each attribute, and absolute paths of nothing, which are
never searched for and are reported wherever they are replaced. So the report of a lax run has one
record for a token and an attribute, unless the token is an absolute path: then it has one for each
occurrence (`degraded_of_flatten`).

The records of a settled value are counted first (`count_records`). Those of a run are the
records of all governed attributes, put in another order (`perm_degraded_of_flatten`), and since no
two variables share a path and no two attributes of one a name, all records for an attribute come
from its own value.
-/

namespace GroupFlattening

open ObjectPath (join separator)

/-! ## Placeholders and flat names -/

theorem ne_placeholder (token : String) : token ≠ placeholder token := by
  intro heq
  have hlength := congrArg String.length heq
  simp [placeholder, String.length_append] at hlength

/-- The flat name of an object is never the placeholder of the object's name. -/
theorem flatName_ne_placeholder (group base : String) : flatName group base ≠ placeholder base := by
  -- what stands before the name would have to end with the joiner
  have hhead : ∀ head : String, head ++ FlatName.joiner ++ base ≠ placeholder base := by
    intro head heq
    have hlist := congrArg String.toList heq
    rw [placeholder, String.toList_append, String.toList_append, String.toList_append] at hlist
    have hends : FlatName.joiner.toList <:+ "REF_NOT_FOUND_".toList :=
      ⟨head.toList, List.append_cancel_right hlist⟩
    exact absurd hends (by decide)
  rw [flatName]
  split
  · exact ne_placeholder base
  · split
    -- a name that is joined, whole or cut off
    · exact hhead _
    · split
      · exact hhead _
      · -- the letters of a digest are small
        intro heq
        have hdigits := FlatName.forall_mem_digest (P := (· ≠ 'R')) (by decide)
          (FlatName.joined group base)
        exact hdigits 'R' (by rw [heq]; simp [placeholder]) rfl

namespace Hierarchy

variable {d : Dataset} {h : Hierarchy} {limit : Nat} {rule : ReferenceRule} {v : Variable}
  {kind : ObjectKind} {token path flat : String}

/-- The flat name of what a token designates is never the placeholder of the token. -/
theorem ne_placeholder_of_find? (hd : d.WellFormed) (hnames : d.HasProperNames)
    (hrun : ofDataset d limit = .ok h) {both : Bool}
    (hresolve : h.resolve rule v token = .ok (.object path kind))
    (hfind : (NameTable.ofHierarchy h).find? path kind both = some flat) :
    flat ≠ placeholder token := by
  -- whichever kind the name is of, it is the flat name of the object at the path
  obtain ⟨supplier, hsupplier⟩ :
      ∃ supplier, ((NameTable.ofHierarchy h).ofKind supplier).find? path = some flat := by
    rcases NameTable.find?_eq_some_iff.mp hfind with hown | ⟨-, -, hother⟩
    · exact ⟨_, hown⟩
    · exact ⟨_, hother⟩
  obtain ⟨o, ho, hpath, rfl⟩ :=
    NameTable.exists_object_of_ofKind hd hnames.groups hrun supplier hsupplier
  have hname := (Dataset.isName_of_mem_objects hd ho hnames).2
  by_cases hsep : separator ∈ token.toList
  · -- a flat name has no separator
    intro heq
    have hfree : separator ∉ (flatName o.1 o.2).toList := separator_not_mem_flatName hname
    rw [heq, placeholder, String.toList_append, List.mem_append, not_or] at hfree
    exact hfree.2 hsep
  · -- a bare token is the name of the object
    rcases absolute_or_found_of_resolve hresolve with ⟨habsolute, -⟩ | ⟨-, hfound⟩
    · exact absurd (List.mem_of_mem_head? (beq_iff_eq.mp habsolute)) hsep
    · have hbare : ObjectPath.isCompound token = false := by
        simpa [ObjectPath.isCompound] using hsep
      have hpaths : path ∈ (h.proximity rule v kind token).paths := by
        rw [lookup, if_neg (by simp [hbare])] at hfound
        rw [hfound]
        exact List.mem_singleton_self path
      obtain ⟨n, -, hplace⟩ := exists_defines_of_proximity hpaths
      have hjoin : join (h.group n).path token = join o.1 o.2 := hplace.symm.trans hpath
      obtain rfl : token = o.2 := String.toList_injective
        ((ObjectPath.suffix_of_join_eq hsep hjoin).eq_of_length_le
          (ObjectPath.suffix_of_join_eq hname hjoin.symm).length_le)
      exact flatName_ne_placeholder _ _

end Hierarchy

/-! ## The records of a settled value -/

/-- What a record is about: the variable, the attribute and the token. -/
def DegradedReference.subject (r : DegradedReference) : String × String × String :=
  (r.owner, r.name, r.reference)

/-- How often an item of a list passes a test, in the image of the list under an injection. -/
theorem count_map_filter {α β : Type} [BEq α] [LawfulBEq α] [BEq β] [LawfulBEq β] {f : α → β}
    (hf : Function.Injective f) (p : α → Bool) (xs : List α) (a : α) :
    ((xs.filter p).map f).count (f a) = if p a then xs.count a else 0 := by
  rw [List.count_map_of_injective _ f hf]
  split
  · next hp => exact List.count_filter hp
  · next hp => exact List.count_eq_zero.mpr fun hmem => hp (List.mem_filter.mp hmem).2

namespace ReferenceSite

variable {site : ReferenceSite} {h : Hierarchy} {v : Hierarchy.Variable} {names : NameTable}
  {lax : Bool} {value text : String} {settled : Settled}

/-- Whether the search for a token comes to nothing, or to several objects. -/
def searchFails (h : Hierarchy) (rule : ReferenceRule) (v : Hierarchy.Variable) (token : String) :
    Bool :=
  match h.resolve rule v token with
  | .ok .unresolved => true
  | .ok (.ambiguous _) => true
  | _ => false

/-- Of the tokens of a settled value those for which the search fails are reported, each once. -/
theorem map_subject_degraded (hsettle : site.settle h v lax value = .ok settled) :
    settled.degraded.map (·.subject) = ((site.tokens settled.references).eraseDups.filter
      (searchFails h site.rule v)).map fun token => (site.owner, site.name, token) := by
  obtain ⟨-, entries, hentries, -, hdegraded⟩ := entries_of_settle hsettle
  rw [hdegraded]
  clear hdegraded
  generalize (site.tokens settled.references).eraseDups = tokens at hentries
  induction hentries with
  -- token by token: only a search without one result is listed
  | nil => rfl
  | cons hentry _ ih =>
    obtain ⟨outcome, resolution, degraded, houtcome, hresolution, rfl⟩ := hentry
    rw [List.filter_cons, List.filterMap_cons]
    cases outcome with
    | object =>
      cases hresolution
      simpa [searchFails, houtcome] using ih
    | standardName =>
      cases hresolution
      simpa [searchFails, houtcome] using ih
    | unresolved =>
      cases lax <;> cases hresolution
      simpa [searchFails, houtcome, DegradedReference.subject] using ih
    | ambiguous =>
      cases lax <;> cases hresolution
      simpa [searchFails, houtcome, DegradedReference.subject] using ih

theorem map_subject_unnamed (references : References) (resolutions : List (String × Resolution)) :
    (site.unnamed names references resolutions).map (·.subject) =
      ((site.tokens references).filter fun token =>
        (site.replacement? names resolutions token).isNone).map
          fun token => (site.owner, site.name, token) := by
  rw [unnamed, List.map_map]
  rfl

/-- What takes the place of a token in lax mode. -/
def put (site : ReferenceSite) (names : NameTable) (settled : Settled) (token : String) : String :=
  (site.replacement? names settled.resolutions token).getD (placeholder token)

/-- In lax mode all occurrences of a token are replaced alike. -/
theorem rewritten_put
    (hreplace : site.replaceAll names true settled.references settled.resolutions = .ok text) :
    ∃ replaced, settled.references.Rewritten site.rule.resolvesKeys site.rule.resolvesValues
      (fun token text => text = site.put names settled token) replaced ∧
        text = replaced.text := by
  obtain ⟨replaced, hmapM, hpure⟩ := Except.bind_eq_ok_iff.mp hreplace
  refine ⟨replaced, ?_, (Except.pure_eq_ok_iff.mp hpure).symm⟩
  refine (References.mapM_eq_ok_iff.mp hmapM).imp_of_governed fun token _ text htext => ?_
  unfold replace at htext
  rw [put]
  split at htext
  -- the token has a replacement, or a placeholder takes its place
  · next hsome => rw [hsome, ← Except.ok.inj htext]; rfl
  · next hnone => rw [hnone, ← Except.ok.inj htext]; rfl

/-- All records of a settled value. -/
def records (names : NameTable) (site : ReferenceSite) (settled : Settled) :
    List DegradedReference :=
  settled.degraded ++ site.unnamed names settled.references settled.resolutions

/-- Every record names the place of the reference. -/
theorem subject_of_mem_records (hsettle : site.settle h v lax value = .ok settled)
    {r : DegradedReference} (hr : r ∈ site.records names settled) :
    r.owner = site.owner ∧ r.name = site.name := by
  rcases List.mem_append.mp hr with hr | hr
  · obtain ⟨howner, hname, -⟩ := undecided_of_mem_degraded hsettle hr
    exact ⟨howner, hname⟩
  · obtain ⟨token, -, rfl⟩ := List.mem_map.mp hr
    exact ⟨rfl, rfl⟩

/-- A token of a settled value is reported if a placeholder takes its place: an absolute path for
each of its occurrences, any other token once. -/
theorem count_records {d : Dataset} {limit : Nat} (hd : d.WellFormed) (hnames : d.HasProperNames)
    (hrun : Hierarchy.ofDataset d limit = .ok h)
    (hsettle : site.settle h v true value = .ok settled) (token : String) :
    ((site.records (.ofHierarchy h) settled).map (·.subject)).count
        (site.owner, site.name, token) =
      if site.put (.ofHierarchy h) settled token = placeholder token then
        (if ObjectPath.isAbsolute token then site.tokens settled.references
          else (site.tokens settled.references).eraseDups).count token
      else 0 := by
  -- tokens of one attribute are told apart by the last part of their subject
  have hinjective : Function.Injective fun token : String => (site.owner, site.name, token) :=
    fun _ _ heq => (Prod.mk.inj (Prod.mk.inj heq).2).2
  rw [records, List.map_append, List.count_append, map_subject_degraded hsettle,
    map_subject_unnamed, count_map_filter hinjective, count_map_filter hinjective]
  by_cases hmem : token ∈ site.tokens settled.references
  · obtain ⟨outcome, resolution, degraded, houtcome, hresolution, hlookup⟩ :=
      (settle_ok hsettle).2 token hmem
    -- a token for which a search can fail is no absolute path
    have hrelative : (∀ path kind, outcome ≠ .object path kind) →
        ObjectPath.isAbsolute token = false := by
      intro hno
      rw [Bool.eq_false_iff]
      intro habsolute
      rw [Hierarchy.resolve, if_pos habsolute] at houtcome
      exact hno _ _ (Except.ok.inj houtcome).symm
    -- a search that succeeds puts in a flat name or keeps the token, and neither is a placeholder;
    -- an object without a flat name was taken from an absolute path and not searched for
    cases outcome with
    | object path kind =>
      cases hresolution
      cases hfind : (NameTable.ofHierarchy h).find? path kind site.rule.allowsBoth with
      | some flat =>
        have hne := Hierarchy.ne_placeholder_of_find? hd hnames hrun houtcome hfind
        simp [searchFails, houtcome, put, replacement?, hlookup, hfind, hne]
      | none =>
        have habsolute := Hierarchy.isAbsolute_of_find?_eq_none hd hnames hrun houtcome hfind
        simp [searchFails, houtcome, put, replacement?, hlookup, hfind, habsolute]
    | standardName =>
      cases hresolution
      have hne := ne_placeholder token
      simp [searchFails, houtcome, put, replacement?, hlookup, hne]
    | unresolved =>
      cases hresolution
      simp [searchFails, houtcome, put, replacement?, hlookup, hrelative]
    | ambiguous candidates =>
      cases hresolution
      simp [searchFails, houtcome, put, replacement?, hlookup, hrelative]
  · -- what does not stand in the value is not reported, whatever would be put in its place
    have hnone := List.count_eq_zero.mpr hmem
    have hnone' : (site.tokens settled.references).eraseDups.count token = 0 :=
      List.count_eq_zero.mpr fun hin => hmem (List.mem_eraseDups.mp hin)
    rw [apply_ite (List.count token), hnone, hnone']
    simp only [ite_self, Nat.add_zero]

end ReferenceSite

/-! ## The records of a run -/

/-- All references that a tally lists, in the order in which a report has them. -/
def Tally.records (tally : Tally) : List DegradedReference := tally.unresolved ++ tally.unnamed

/-- A total lists what its tallies list. -/
theorem Tally.perm_records_total (tallies : List Tally) :
    (Tally.total tallies).records.Perm (tallies.flatMap Tally.records) := by
  have hfold : ∀ start : Tally, (tallies.foldl Tally.append start).records.Perm
      (start.records ++ tallies.flatMap Tally.records) := by
    induction tallies with
    | nil =>
      intro start
      rw [List.flatMap_nil, List.append_nil]
      exact .refl _
    | cons tally rest ih =>
      intro start
      refine (ih (start.append tally)).trans ?_
      rw [List.flatMap_cons, ← List.append_assoc]
      refine List.Perm.append_right _ ?_
      -- what the first one lists at its end comes behind what the second one lists first
      simp only [Tally.records, Tally.append, List.append_assoc]
      refine List.Perm.append_left _ ?_
      rw [← List.append_assoc, ← List.append_assoc]
      exact List.Perm.append_right _ List.perm_append_comm
  exact hfold {}

/-- Where every tally lists what belongs to its item, the total lists what belongs to all items. -/
theorem Tally.perm_records_of_forall₂ {α : Type} {items : List α} {tallies : List Tally}
    {belongs : α → List DegradedReference}
    (hall : List.Forall₂ (fun item tally => tally.records.Perm (belongs item)) items tallies) :
    (Tally.total tallies).records.Perm (items.flatMap belongs) := by
  refine (Tally.perm_records_total tallies).trans ?_
  induction hall with
  | nil => exact .refl _
  | cons hfirst _ ih =>
    rw [List.flatMap_cons, List.flatMap_cons]
    exact hfirst.append ih

namespace Flatten

/-- Where an attribute of the variable at a path stands, and its value settled, if a rule governs
it. -/
def settledAt? (h : Hierarchy) (lax : Bool) (path : String) (entry : String × AttributeValue) :
    Option (ReferenceSite × ReferenceSite.Settled) := do
  let rule ← ReferenceRule.forAttribute? entry.1
  let v ← h.findVariable? path
  let value ← (entry.2.referenceText entry.1).toOption
  let settled ← (ReferenceSite.settle ⟨path, entry.1, rule⟩ h v lax value).toOption
  pure (⟨path, entry.1, rule⟩, settled)

/-- The records of an attribute of the variable at a path. -/
def recordsAt (h : Hierarchy) (lax : Bool) (path : String) (entry : String × AttributeValue) :
    List DegradedReference :=
  match settledAt? h lax path entry with
  | none => []
  | some (site, settled) => site.records (.ofHierarchy h) settled

section Records

variable {h : Hierarchy} {settings : Settings} {lax : Bool} {path flatPath : String}
  {entry : String × AttributeValue}

/-- The references of an attribute are settled if a rule governs it and its variable is known. -/
theorem settledAt?_eq_some_iff {site : ReferenceSite} {settled : ReferenceSite.Settled} :
    settledAt? h lax path entry = some (site, settled) ↔ ∃ rule v value,
      ReferenceRule.forAttribute? entry.1 = some rule ∧ h.findVariable? path = some v ∧
      entry.2.referenceText entry.1 = .ok value ∧ site = ⟨path, entry.1, rule⟩ ∧
      site.settle h v lax value = .ok settled := by
  simp only [settledAt?, Option.bind_eq_bind, Option.bind_eq_some_iff, Option.pure_def,
    Option.some.injEq, Prod.mk.injEq, Except.toOption_eq_some_iff]
  constructor
  · rintro ⟨rule, hrule, v, hv, value, hvalue, settled', hsettle, rfl, rfl⟩
    exact ⟨rule, v, value, hrule, hv, hvalue, rfl, hsettle⟩
  · rintro ⟨rule, v, value, hrule, hv, hvalue, rfl, hsettle⟩
    exact ⟨rule, hrule, v, hv, value, hvalue, settled, hsettle, rfl, rfl⟩

/-- The records of an attribute are about its tokens. -/
theorem subject_of_mem_recordsAt {r : DegradedReference} (hr : r ∈ recordsAt h lax path entry) :
    r.owner = path ∧ r.name = entry.1 ∧
      ∃ rule, ReferenceRule.forAttribute? entry.1 = some rule := by
  unfold recordsAt at hr
  split at hr
  · cases hr
  · next site settled hsettled =>
    obtain ⟨rule, v, value, hrule, -, -, rfl, hsettle⟩ := settledAt?_eq_some_iff.mp hsettled
    obtain ⟨howner, hname⟩ := ReferenceSite.subject_of_mem_records hsettle hr
    exact ⟨howner, hname, rule, hrule⟩

/-- An attribute without a rule has no records. -/
theorem recordsAt_of_rule_eq_none (hrule : ReferenceRule.forAttribute? entry.1 = none) :
    recordsAt h lax path entry = [] := by
  rw [List.eq_nil_iff_forall_not_mem]
  intro r hr
  obtain ⟨-, -, rule, hsome⟩ := subject_of_mem_recordsAt hr
  rw [hrule] at hsome
  cases hsome

/-- No attribute but those that are carried over behind the fill value has records. -/
theorem flatMap_recordsAt_filter (attributes : Attributes) :
    (attributes.filter fun entry => entry.1 != fillValueName).flatMap (recordsAt h lax path) =
      attributes.flatMap (recordsAt h lax path) := by
  induction attributes with
  | nil => rfl
  | cons entry rest ih =>
    rw [List.filter_cons, List.flatMap_cons]
    split
    · rw [List.flatMap_cons, ih]
    -- no rule governs the fill value
    · next hfill =>
      have hnone : ReferenceRule.forAttribute? entry.1 = none := by
        rw [Option.eq_none_iff_forall_ne_some]
        intro rule hrule
        exact hfill (by simpa using ne_fillValueName_of_rule hrule)
      rw [recordsAt_of_rule_eq_none hnone, List.nil_append, ih]

/-- The records of the values that were settled are those of the attributes that they come from. -/
theorem flatMap_recordsAt_of_settled {entries : Attributes}
    {pendings : List (Option Transfer.Pending)}
    {settled : List (Transfer.Pending × ReferenceSite.Settled)}
    (hpending : List.Forall₂ (fun entry pending =>
      Transfer.pending? path flatPath entry = .ok pending) entries pendings)
    (hsettled : List.Forall₂ (fun pending entry => ∃ v, surveyed h path = .ok v ∧
      settlePending h settings v pending = .ok entry) (pendings.filterMap id) settled) :
    settled.flatMap (fun entry => entry.1.site.records (.ofHierarchy h) entry.2) =
      entries.flatMap (recordsAt h settings.laxMode path) := by
  induction hpending generalizing settled with
  -- attribute by attribute; those without a rule are not pending and have no records
  | nil =>
    cases hsettled
    rfl
  | @cons entry _ entries _ hentry _ ih =>
    rw [List.flatMap_cons]
    rcases pending?_eq_ok_iff.mp hentry with ⟨hnone, rfl⟩ | ⟨rule, value, hrule, hvalue, rfl⟩
    · rw [recordsAt_of_rule_eq_none hnone, List.nil_append]
      exact ih hsettled
    · cases hsettled with
      | cons hfirst hrest =>
        obtain ⟨v, hnode, hsettle⟩ := hfirst
        obtain ⟨result, hresult, rfl⟩ := settlePending_eq_ok_iff.mp hsettle
        have hat := settledAt?_eq_some_iff.mpr
          ⟨rule, v, value, hrule, surveyed_eq_ok_iff.mp hnode, hvalue, rfl, hresult⟩
        rw [List.flatMap_cons, ih hrest, recordsAt, hat]
        rfl

/-- The step for a variable lists the records of its attributes. -/
theorem perm_records_of_variableStep {ι σ : Type} [Readable ι] [Writable σ] {input : ι}
    {group : String} {info : VariableInfo} {t t' : Transfer σ} {tally : Tally}
    (hrun : variableStep input h (.ofHierarchy h) settings group info t = .ok tally t') :
    ∃ attributes, Readable.variableAttributes input (join group info.name) = .ok attributes ∧
      tally.records.Perm
        (attributes.flatMap (recordsAt h settings.laxMode (join group info.name))) := by
  obtain ⟨created, t₁, hcreate, hrun⟩ := EStateM.bind_eq_ok_iff.mp hrun
  obtain ⟨tally', t₂, hreferences, hrun⟩ := EStateM.bind_eq_ok_iff.mp hrun
  obtain ⟨⟨⟩, t₃, -, hpure⟩ := EStateM.bind_eq_ok_iff.mp hrun
  obtain ⟨rfl, -⟩ := EStateM.pure_eq_ok_iff.mp hpure
  obtain ⟨attributes, pendings, hread, hpending, rfl⟩ := created_of_createVariable hcreate
  obtain ⟨settled, hsettled, hunresolved, hunnamed⟩ := tally_of_references hreferences
  refine ⟨attributes, hread, ?_⟩
  rw [Tally.records, hunresolved, hunnamed, ← flatMap_recordsAt_filter,
    ← flatMap_recordsAt_of_settled hpending hsettled]
  exact List.flatMap_append_perm _ _ _

end Records

/-- The records of a variable of the group at a place. -/
def recordsOf (h : Hierarchy) (lax : Bool) (e : String × Dataset.Variable) :
    List DegradedReference :=
  e.2.attributes.flatMap (recordsAt h lax (join e.1 e.2.name))

/-- A run reports the records of all variables, in another order. -/
theorem perm_degraded_of_flatten {input output output' : Dataset} (hinput : input.WellFormed)
    (hproper : input.HasProperNames) {settings : Settings} {report : Report}
    (hrun : flatten input settings output = .ok report output') {h : Hierarchy}
    (hsnapshot : Hierarchy.ofDataset input settings.depthLimit = .ok h) :
    report.degraded.Perm ((groupVariables input).flatMap (recordsOf h settings.laxMode)) := by
  obtain ⟨h', t', hsurvey, hall, -⟩ := flatten_eq_ok_iff.mp hrun
  obtain ⟨-, -, hsnapshot'⟩ := Except.bind_eq_ok_iff.mp hsurvey
  obtain rfl := Except.ok.inj (hsnapshot.symm.trans hsnapshot')
  obtain ⟨hsurveyed, -⟩ := Hierarchy.forall₂_surveyed hinput hproper.groups hsnapshot
  rw [transferAll_eq hsurveyed] at hall
  obtain ⟨tallies, t₁, hwalk, hrest⟩ := EStateM.bind_eq_ok_iff.mp hall
  obtain ⟨provenance, t₂, -, hpure⟩ := EStateM.bind_eq_ok_iff.mp hrest
  obtain ⟨rfl, -⟩ := EStateM.pure_eq_ok_iff.mp hpure
  -- along the groups, and in each along its variables
  have hgroups := EStateM.forall₂_of_mapM (R := fun id (tally : Tally) => tally.records.Perm
    (((input.group id).vars.map fun v => ((input.group id).path, v)).flatMap
      (recordsOf h settings.laxMode))) (fun id hid t tally t' hstep => ?_) hwalk
  -- the records of all variables of all groups
  · have htotal := Tally.perm_records_of_forall₂ hgroups
    rw [← List.flatMap_assoc] at htotal
    exact htotal
  · rw [placeOf_eq hinput hproper hid] at hstep
    obtain ⟨infos, t₃, -, hstep⟩ := EStateM.bind_eq_ok_iff.mp hstep
    obtain ⟨tallies', t₄, hvars, hpure⟩ := EStateM.bind_eq_ok_iff.mp hstep
    obtain ⟨rfl, -⟩ := EStateM.pure_eq_ok_iff.mp hpure
    rw [List.flatMap_map]
    refine Tally.perm_records_of_forall₂
      (EStateM.forall₂_of_mapM (fun v hv t tally t' hstep => ?_) hvars)
    obtain ⟨attributes, hread, hperm⟩ := perm_records_of_variableStep hstep
    have hfind := hinput.findVariable_join hproper (hinput.mem_groupIds_iff.mp hid) hv
    obtain rfl := Except.ok.inj (hread.symm.trans (Dataset.variableAttributes_eq hfind))
    exact hperm

/-! ## Counting records -/

/-- Where the items of a list have different keys and all that belongs to an item is about its key,
what is about a key belongs to the item that has it. -/
theorem count_flatMap_of_nodup {α β κ : Type} [BEq β] [LawfulBEq β] {items : List α} {key : α → κ}
    (hnodup : (items.map key).Nodup) {belongs : α → List β} (about : β → κ)
    (habout : ∀ item ∈ items, ∀ b ∈ belongs item, about b = key item) {item : α}
    (hitem : item ∈ items) {b : β} (hb : about b = key item) :
    (items.flatMap belongs).count b = (belongs item).count b := by
  induction items with
  | nil => cases hitem
  | cons first rest ih =>
    rw [List.map_cons, List.nodup_cons] at hnodup
    rw [List.forall_mem_cons] at habout
    rw [List.flatMap_cons, List.count_append]
    -- one of the two parts belongs to items with other keys, so nothing in it is counted
    rcases List.mem_cons.mp hitem with rfl | hitem
    · have hrest : (rest.flatMap belongs).count b = 0 := by
        rw [List.count_eq_zero]
        intro hmem
        obtain ⟨other, hother, hmem⟩ := List.mem_flatMap.mp hmem
        exact hnodup.1
          (List.mem_map.mpr ⟨other, hother, (habout.2 other hother b hmem).symm.trans hb⟩)
      rw [hrest, Nat.add_zero]
    · have hfirst : (belongs first).count b = 0 := by
        rw [List.count_eq_zero]
        intro hmem
        exact hnodup.1 (List.mem_map.mpr ⟨item, hitem, hb.symm.trans (habout.1 b hmem)⟩)
      rw [hfirst, Nat.zero_add, ih hnodup.2 habout.2 hitem]

/-- No two variables of a dataset have one path. -/
theorem nodup_variablePaths {input output output' : Dataset} (hinput : input.WellFormed)
    (hproper : input.HasProperNames) (houtput : output.WellFormed) {settings : Settings}
    {report : Report} (hrun : flatten input settings output = .ok report output') :
    ((groupVariables input).map fun e => join e.1 e.2.name).Nodup := by
  obtain ⟨h, g, -, -, hp, -⟩ := progress_of_flatten hinput hproper houtput hrun
  refine List.Nodup.map_on (fun e he e' he' heq => ?_) hp.nodup_variableNames.of_map
  exact variable_eq_of_join_eq hinput hproper he he' heq

/-- The report has as many records about a token of an attribute as the attribute has. -/
theorem count_degraded_of_flatten {input output output' : Dataset} (hinput : input.WellFormed)
    (hproper : input.HasProperNames) (houtput : output.WellFormed) {settings : Settings}
    {report : Report} (hrun : flatten input settings output = .ok report output') {h : Hierarchy}
    (hsnapshot : Hierarchy.ofDataset input settings.depthLimit = .ok h)
    {e : String × Dataset.Variable} (he : e ∈ groupVariables input)
    {entry : String × AttributeValue} (hentry : entry ∈ e.2.attributes) (token : String) :
    (report.degraded.map (·.subject)).count (join e.1 e.2.name, entry.1, token) =
      ((recordsAt h settings.laxMode (join e.1 e.2.name) entry).map (·.subject)).count
        (join e.1 e.2.name, entry.1, token) := by
  have hperm := (perm_degraded_of_flatten hinput hproper hrun hsnapshot).map (·.subject)
  have hpaths := nodup_variablePaths hinput hproper houtput hrun
  obtain ⟨id, -, -, hv⟩ := Dataset.mem_located.mp he
  have hnames := (hinput.groups id).variableAttributes e.2 hv
  -- only its variable is about its path, and of that only the attribute about its name
  rw [hperm.count_eq, List.map_flatMap,
    count_flatMap_of_nodup hpaths (fun subject => subject.1) ?_ he rfl, recordsOf,
    List.map_flatMap, count_flatMap_of_nodup hnames (fun subject => subject.2.1) ?_ hentry rfl]
  · intro other _ subject hmem
    obtain ⟨r, hr, rfl⟩ := List.mem_map.mp hmem
    exact (subject_of_mem_recordsAt hr).2.1
  · intro other _ subject hmem
    obtain ⟨r, hr, rfl⟩ := List.mem_map.mp hmem
    obtain ⟨entry', -, hr⟩ := List.mem_flatMap.mp hr
    exact (subject_of_mem_recordsAt hr).1

/-- What is reported of the references that were replaced. -/
structure ReportsPlaceholders (input output : Dataset) (report : Report) : Prop where
  /-- Every attribute with a rule is written again with something in place of each token. A token
  whose placeholder takes its place is reported once, or for each of its occurrences if it is an
  absolute path. -/
  count : ∀ e ∈ groupVariables input, ∀ entry ∈ e.2.attributes, ∀ rule,
    ReferenceRule.forAttribute? entry.1 = some rule →
    ∃ value references replaced, ∃ put : String → String,
      entry.2.referenceText entry.1 = .ok value ∧
      References.ofAttribute entry.1 value = .ok references ∧
      references.Rewritten rule.resolvesKeys rule.resolvesValues
        (fun token text => text = put token) replaced ∧
      output.variableAttribute? (join ObjectPath.root (variableName e)) entry.1 =
        some (.text replaced.text) ∧
      ∀ token, (report.degraded.map (·.subject)).count (join e.1 e.2.name, entry.1, token) =
        if put token = placeholder token then
          (if ObjectPath.isAbsolute token then
            references.governed rule.resolvesKeys rule.resolvesValues
          else (references.governed rule.resolvesKeys rule.resolvesValues).eraseDups).count token
        else 0
  /-- Nothing is reported but tokens of such attributes. -/
  only : ∀ r ∈ report.degraded, ∃ e ∈ groupVariables input, ∃ entry ∈ e.2.attributes, ∃ rule,
    ReferenceRule.forAttribute? entry.1 = some rule ∧ r.owner = join e.1 e.2.name ∧
      r.name = entry.1

/-- A lax run that succeeds reports every token whose placeholder takes its place, with the variable
and the attribute: once, or for each of its occurrences if it is an absolute path. -/
theorem degraded_of_flatten {input output output' : Dataset} {settings : Settings} {report : Report}
    (hinput : input.Reachable) (hproper : input.HasProperNames) (houtput : output.Reachable)
    (hlax : settings.laxMode = true) (hrun : flatten input settings output = .ok report output') :
    ReportsPlaceholders input output' report := by
  obtain ⟨h, hsnapshot, hall⟩ := settled_of_flatten hinput hproper houtput hrun
  constructor
  -- for every governed attribute, each token is reported as often as a placeholder is put in for it
  · intro e he entry hentry rule hrule
    obtain ⟨node, value, settled, text, hnode, hvalue, hsettle, hreplace, hset⟩ :=
      hall e he entry hentry rule hrule
    rw [hlax] at hsettle hreplace
    have hreferences := (ReferenceSite.settle_ok hsettle).1
    obtain ⟨replaced, hrewritten, rfl⟩ := ReferenceSite.rewritten_put hreplace
    refine ⟨value, settled.references, replaced, _, hvalue, hreferences, hrewritten, hset,
      fun token => ?_⟩
    have hat := settledAt?_eq_some_iff.mpr ⟨rule, node, value, hrule, hnode, hvalue, rfl, hsettle⟩
    rw [count_degraded_of_flatten hinput.wellFormed hproper houtput.wellFormed hrun hsnapshot he
      hentry, recordsAt, hlax, hat]
    exact ReferenceSite.count_records hinput.wellFormed hproper hsnapshot hsettle token
  -- and nothing else is reported
  · intro r hr
    have hperm := perm_degraded_of_flatten hinput.wellFormed hproper hrun hsnapshot
    obtain ⟨e, he, hr⟩ := List.mem_flatMap.mp (hperm.mem_iff.mp hr)
    obtain ⟨entry, hentry, hr⟩ := List.mem_flatMap.mp hr
    obtain ⟨howner, hname, rule, hrule⟩ := subject_of_mem_recordsAt hr
    exact ⟨e, he, entry, hentry, rule, hrule, howner, hname⟩

/-- A quay whose terms name the same missing things twice, one bare and one by its path. -/
def quay : Dataset :=
  (Dataset.create "quay" true).applyAll
    [.variable "/" ⟨"z", .double, [], none⟩,
      .variable "/" ⟨"v", .double, [], none⟩,
      .variableAttribute "/v" "formula_terms" (.text "a: z b: x c: /no/y d: x e: /no/y")]

/-- The bare name is reported once, the path twice. -/
theorem quay_reported : quay.Reachable ∧ quay.HasProperNames ∧
    (Dataset.create "flat" false).Reachable ∧ ∃ report output,
      flatten quay { laxMode := true } (Dataset.create "flat" false) = .ok report output ∧
      report.degraded.map (·.subject) = [("/v", "formula_terms", "x"),
        ("/v", "formula_terms", "/no/y"), ("/v", "formula_terms", "/no/y")] ∧
      ReportsPlaceholders quay output report := by
  have hreachable : quay.Reachable := (Dataset.Reachable.create "quay" true).applyAll _
  have hproper : quay.HasProperNames := by decide +kernel
  have hflat : (Dataset.create "flat" false).Reachable := .create "flat" false
  have hsucceeds : EStateM.succeedsWith (fun (report : Report) (_ : Dataset) =>
      decide (report.degraded.map (·.subject) = [("/v", "formula_terms", "x"),
        ("/v", "formula_terms", "/no/y"), ("/v", "formula_terms", "/no/y")]))
      (flatten quay { laxMode := true } (Dataset.create "flat" false)) = true := by decide +kernel
  obtain ⟨report, output, hrun, hsubjects⟩ := EStateM.exists_of_succeedsWith _ hsucceeds
  exact ⟨hreachable, hproper, hflat, report, output, hrun, of_decide_eq_true hsubjects,
    degraded_of_flatten hreachable hproper hflat rfl hrun⟩

/-- A jetty whose terms name the path of nothing twice. -/
def jetty : Dataset :=
  (Dataset.create "jetty" true).applyAll
    [.variable "/" ⟨"v", .double, [], none⟩,
      .variableAttribute "/v" "formula_terms" (.text "a: /no/x b: /no/x")]

/-- Both terms are replaced, and there are two records of it that nothing tells apart. -/
theorem jetty_reported_twice : jetty.Reachable ∧ jetty.HasProperNames ∧ ∃ report output,
    flatten jetty { laxMode := true } (Dataset.create "flat" false) = .ok report output ∧
    output.variableAttribute? "/v" "formula_terms" =
      some (.text "a: REF_NOT_FOUND_/no/x b: REF_NOT_FOUND_/no/x") ∧
    report.degraded =
      [⟨"/v", "formula_terms", "/no/x", []⟩, ⟨"/v", "formula_terms", "/no/x", []⟩] := by
  have hsucceeds : EStateM.succeedsWith (fun (report : Report) (output : Dataset) =>
      decide (output.variableAttribute? "/v" "formula_terms" =
          some (.text "a: REF_NOT_FOUND_/no/x b: REF_NOT_FOUND_/no/x") ∧
        report.degraded =
          [⟨"/v", "formula_terms", "/no/x", []⟩, ⟨"/v", "formula_terms", "/no/x", []⟩]))
      (flatten jetty { laxMode := true } (Dataset.create "flat" false)) = true := by
    decide +kernel
  obtain ⟨report, output, hrun, htwice⟩ := EStateM.exists_of_succeedsWith _ hsucceeds
  exact ⟨(Dataset.Reachable.create "jetty" true).applyAll _, by decide +kernel, report, output,
    hrun, of_decide_eq_true htwice⟩

end Flatten

end GroupFlattening
