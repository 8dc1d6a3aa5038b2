import GroupFlattening.Proofs.Flatten.Data
import GroupFlattening.Proofs.Flatten.Mode

/-!
# References That Stop a Strict Run

A strict run stops at a token that designates nothing or several objects, or an object without a
flat name (`Defect`). Settling the values of a variable and replacing their tokens are two passes
over its attributes, and a run may stop in either of them (`stops_of_settle`,
`stops_of_replaceAll`). Where both have passed a value, none of its tokens has a defect
(`not_stops_of_replaceAll`), so a variable that has been carried over has no bad reference
(`FlatCopy.not_badReference`). A variable at which the run stops has one, and leaves a copy that was
begun: its attributes may have been replaced, and its data is still zero (`begun_of_variableStep`).
-/

namespace GroupFlattening

open ObjectPath (join separator)

/-- The path of the variable whose reference the fault is about. -/
def Fault.referrer? : Fault → Option String
  | .unresolvedReference owner _ _ => some owner
  | .ambiguousReference owner _ _ _ => some owner
  | _ => none

/-- A fault with a referrer is one of a reference. -/
theorem Fault.isOfReference_of_referrer? {fault : Fault} {owner : String}
    (h : fault.referrer? = some owner) : fault.isOfReference = true := by
  cases fault with
  | unresolvedReference => rfl
  | ambiguousReference => rfl
  | _ => cases h

/-! ## Tokens -/

namespace ReferenceSite

variable {site : ReferenceSite} {h : Hierarchy} {v : Hierarchy.Variable} {names : NameTable}

theorem referrer?_failure (token : String) (candidates : List String) :
    (site.failure token candidates).referrer? = some site.owner := by
  unfold failure
  split <;> rfl

/-- What is wrong with a token, by the candidates that the fault lists. -/
inductive Defect (h : Hierarchy) (names : NameTable) (rule : ReferenceRule)
    (v : Hierarchy.Variable) (token : String) : List String → Prop
  | unresolved (hresolve : h.resolve rule v token = .ok .unresolved) :
      Defect h names rule v token []
  | ambiguous {candidates : List String}
      (hresolve : h.resolve rule v token = .ok (.ambiguous candidates)) :
      Defect h names rule v token candidates
  | unnamed {path : String} {kind : ObjectKind}
      (hresolve : h.resolve rule v token = .ok (.object path kind))
      (hname : names.find? path kind rule.allowsBoth = none) :
      Defect h names rule v token []

/-- A strict run stops in a fault at a token of the value of an attribute. -/
inductive Stops (site : ReferenceSite) (h : Hierarchy) (names : NameTable)
    (v : Hierarchy.Variable) (value : String) : Fault → Prop
  | mk {references : References} {token : String} {candidates : List String}
      (hreferences : References.ofAttribute site.name value = .ok references)
      (htoken : token ∈ site.tokens references)
      (hdefect : Defect h names site.rule v token candidates) :
      Stops site h names v value (site.failure token candidates)

/-- A token that designates something has no defect. -/
theorem Designated.not_defect {rule : ReferenceRule} {token text : String}
    {candidates : List String} (h₁ : Designated h names rule v token text) :
    ¬ Defect h names rule v token candidates := by
  rintro h₂
  cases h₁ with
  -- a token has one outcome, and one path at most one flat name
  | standardName hresolve =>
    cases h₂ with
    | unresolved h' => cases hresolve.symm.trans h'
    | ambiguous h' => cases hresolve.symm.trans h'
    | unnamed h' _ => cases hresolve.symm.trans h'
  | object hresolve hfind =>
    cases h₂ with
    | unresolved h' => cases hresolve.symm.trans h'
    | ambiguous h' => cases hresolve.symm.trans h'
    | unnamed h' hnone =>
      cases hresolve.symm.trans h'
      cases hfind.symm.trans hnone

/-- A value cannot be settled because of one of its tokens. -/
theorem stops_of_settle {value : String} {fault : Fault} (hfault : ¬ fault.IsPlain)
    (herror : site.settle h v false value = .error fault) :
    site.Stops h names v value fault := by
  rcases Except.bind_eq_error_iff.mp herror with hread | ⟨references, hreferences, hrest⟩
  · exact absurd (Flatten.plain_ofAttribute _ _ _ hread) hfault
  -- the tokens are settled in their order, and the walk stops at the first fault
  rcases Except.bind_eq_error_iff.mp hrest with hwalk | ⟨settled, -, hpure⟩
  · obtain ⟨done, token, rest, out, hsplit, -, htoken⟩ := Except.mapM_eq_error_iff.mp hwalk
    have hmem : token ∈ site.tokens references := by
      rw [← List.mem_eraseDups, hsplit]
      simp
    rcases Except.bind_eq_error_iff.mp htoken with hresolve | ⟨outcome, houtcome, hsettle⟩
    · exact absurd (Flatten.plain_resolve _ _ _ _ _ hresolve) hfault
    rcases Except.bind_eq_error_iff.mp hsettle with hdegrade | ⟨_, -, hpure⟩
    · -- only what designates nothing or several objects is a fault
      cases outcome with
      | object => cases hdegrade
      | standardName => cases hdegrade
      | unresolved =>
        cases hdegrade
        exact .mk hreferences hmem (.unresolved houtcome)
      | ambiguous candidates =>
        cases hdegrade
        exact .mk hreferences hmem (.ambiguous houtcome)
    · cases hpure
  · cases hpure

section Settled

variable {value : String} {settled : Settled}
  (hsettle : site.settle h v false value = .ok settled)

include hsettle

/-- A settled value cannot be replaced because one of its tokens has no flat name. -/
theorem stops_of_replaceAll {fault : Fault}
    (herror : site.replaceAll names false settled.references settled.resolutions =
      .error fault) : site.Stops h names v value fault := by
  obtain ⟨hreferences, hsettled⟩ := settle_ok hsettle
  have hfaults : Except.FaultsIn (site.Stops h names v value)
      (site.replaceAll names false settled.references settled.resolutions) := by
    apply Flatten.faultsIn_replaceAll
    intro token htoken hnone _
    obtain ⟨outcome, resolution, degraded, houtcome, hresolution, hlookup⟩ :=
      hsettled token htoken
    rw [replacement?, hlookup] at hnone
    -- every token has been settled, so only an object can lack its flat name
    rcases settleOutcome_strict hresolution with ⟨path, kind, rfl, rfl⟩ | ⟨rfl, rfl⟩
    · exact .mk hreferences htoken (.unnamed houtcome hnone)
    · cases hnone
  exact hfaults fault herror

/-- A run does not stop at a value whose references have been replaced. -/
theorem not_stops_of_replaceAll {text : String}
    (hreplace : site.replaceAll names false settled.references settled.resolutions = .ok text)
    (fault : Fault) : ¬ site.Stops h names v value fault := by
  rintro ⟨hreferences, htoken, hdefect⟩
  obtain ⟨references, replaced, hreferences', hrewritten, -⟩ :=
    rewritten_of_settle hsettle hreplace
  obtain rfl := Except.ok.inj (hreferences.symm.trans hreferences')
  obtain ⟨text, hdesignated⟩ := hrewritten.exists_of_governed htoken
  exact hdesignated.not_defect hdefect

end Settled

end ReferenceSite

namespace Flatten

open Dataset (IsFlat)
open Transfer (recordOf appendRecords)

/-! ## Variables -/

/-- A variable of the group at `place` has a reference at which a strict run stops in the fault: it
stands in an attribute that a rule governs. -/
inductive BadReference (h : Hierarchy) (place : String) (v : Dataset.Variable) (fault : Fault) :
    Prop
  | mk {name : String} {value : AttributeValue} {rule : ReferenceRule} {text : String}
      {node : Hierarchy.Variable} (hentry : (name, value) ∈ v.attributes)
      (hrule : ReferenceRule.forAttribute? name = some rule)
      (htext : value.referenceText name = .ok text)
      (hnode : h.findVariable? (join place v.name) = some node)
      (hstops : ReferenceSite.Stops ⟨join place v.name, name, rule⟩ h (.ofHierarchy h) node text
        fault)

/-- The fault names the variable. -/
theorem BadReference.referrer?_eq {h : Hierarchy} {place : String} {v : Dataset.Variable}
    {fault : Fault} (hbad : BadReference h place v fault) :
    fault.referrer? = some (join place v.name) := by
  obtain ⟨-, -, -, -, hstops⟩ := hbad
  cases hstops
  exact ReferenceSite.referrer?_failure ..

/-- A variable with a flat copy has no bad reference. -/
theorem FlatCopy.not_badReference {input : Dataset} {h : Hierarchy} {settings : Settings}
    {place : String} {v copy : Dataset.Variable} (hstrict : settings.laxMode = false)
    (hcopy : FlatCopy input h (.ofHierarchy h) settings place v copy) (fault : Fault) :
    ¬ BadReference h place v fault := by
  rintro ⟨hentry, hrule, htext, hnode, hstops⟩
  obtain ⟨copied, -, hattribute⟩ :=
    Forall₂.exists_right hcopy.attributes ((fillFirst_perm v.attributes).mem_iff.mpr hentry)
  cases hattribute with
  | same hnone => cases hrule.symm.trans hnone
  -- all its references were settled and replaced
  | replaced hrule' htext' hnode' hsettle hreplace =>
    obtain rfl := Option.some.inj (hrule.symm.trans hrule')
    obtain rfl := Except.ok.inj (htext.symm.trans htext')
    obtain rfl := Option.some.inj (hnode.symm.trans hnode')
    rw [hstrict] at hsettle hreplace
    exact ReferenceSite.not_stops_of_replaceAll hsettle hreplace fault hstops

/-- The copy of a variable of the group at `place` that has been created, and whose references may
have been replaced in part. It has no data. -/
structure BegunCopy (h : Hierarchy) (names : NameTable) (settings : Settings) (place : String)
    (v copy : Dataset.Variable) : Prop where
  name : copy.name = flatName place v.name
  type : copy.type = v.type
  dimensions : List.Forall₂ (fun path flatPath => ∃ flat, names.dimensions.find? path = some flat ∧
    flatPath = join ObjectPath.root flat) v.dimensions copy.dimensions
  attributes : List.Forall₂ (fun entry copied => copied = entry ∨
    CopiedAttribute h names settings (join place v.name) entry copied) (fillFirst v.attributes)
    copy.attributes
  zero : ∀ index, copy.cell index = Cell.zero v.type

/-- The attributes of a copy after some of its references were replaced. -/
theorem begunAttributes {h : Hierarchy} {names : NameTable} {settings : Settings}
    {path flatPath : String} {attributes : Attributes} (hnodup : (attributes.map (·.1)).Nodup)
    {pending : List (Option Transfer.Pending)}
    (hpending : List.Forall₂ (fun entry pending =>
        Transfer.pending? path flatPath entry = .ok pending)
      (attributes.filter fun entry => entry.1 != fillValueName) pending)
    {done : List Transfer.Pending} (hdone : done ⊆ pending.filterMap id)
    {texts : List (String × AttributeValue)}
    (htexts : List.Forall₂ (Replaced h names settings path) done texts) :
    List.Forall₂ (fun entry copied => copied = entry ∨
      CopiedAttribute h names settings path entry copied) (fillFirst attributes)
      (Attributes.setAll (fillFirst attributes) texts) := by
  -- every text is one for an attribute with a rule
  have hsource : ∀ e ∈ texts, ∃ value, (e.1, value) ∈ attributes ∧
      CopiedAttribute h names settings path (e.1, value) e := by
    intro e he
    obtain ⟨q, hq, node, settled, result, hnode, hsettle, hreplace, rfl⟩ :=
      Forall₂.exists_left htexts he
    obtain ⟨o, ho, hsome⟩ := List.mem_filterMap.mp (hdone hq)
    obtain rfl : o = some q := hsome
    obtain ⟨⟨name, value⟩, hentry, hpend⟩ := Forall₂.exists_left hpending ho
    rcases pending?_eq_ok_iff.mp hpend with ⟨-, hnone⟩ | ⟨rule, text, hrule, htext, heq⟩
    · cases hnone
    · obtain rfl := Option.some.inj heq
      exact ⟨value, (List.mem_filter.mp hentry).1, .replaced hrule htext hnode hsettle hreplace⟩
  -- the attribute has been set before as it was, so its text takes that place
  have hthere : ∀ e ∈ texts, e.1 ∈ (fillFirst attributes).map (·.1) := by
    intro e he
    obtain ⟨value, hvalue, -⟩ := hsource e he
    have hmem := (fillFirst_perm attributes).mem_iff.mpr hvalue
    exact List.mem_map.mpr ⟨_, hmem, rfl⟩
  rw [Attributes.setAll_eq_map (nodup_fillFirst hnodup) hthere, List.forall₂_map_right_iff,
    List.forall₂_same]
  rintro ⟨name, value⟩ ha
  have ha := (fillFirst_perm attributes).mem_iff.mp ha
  cases hfind : Attributes.find? texts.reverse name with
  | none => exact Or.inl rfl
  | some text =>
    have hmem := List.mem_reverse.mp (Attributes.mem_of_find? hfind)
    obtain ⟨value', hvalue', hcopied⟩ := hsource _ hmem
    -- there is one attribute of the name
    have hsame := List.inj_on_of_nodup_map hnodup hvalue' ha rfl
    obtain ⟨-, rfl⟩ := Prod.mk.inj hsame
    exact Or.inr hcopied

section Pending

variable {h : Hierarchy} {settings : Settings} {node : Hierarchy.Variable} {fault : Fault}
  (hfault : ¬ fault.IsPlain) (hstrict : settings.laxMode = false)

include hfault hstrict

/-- The pending values of a variable cannot be settled because of one of them. -/
theorem stops_of_settlePending {pendings : List Transfer.Pending}
    (herror : pendings.mapM (settlePending h settings node) = .error fault) :
    ∃ pending ∈ pendings,
      pending.site.Stops h (.ofHierarchy h) node pending.value fault := by
  obtain ⟨done, pending, rest, out, hsplit, -, hstop⟩ := Except.mapM_eq_error_iff.mp herror
  rcases Except.bind_eq_error_iff.mp hstop with hstop | ⟨_, -, hpure⟩
  · rw [hstrict] at hstop
    exact ⟨pending, by simp [hsplit], ReferenceSite.stops_of_settle hfault hstop⟩
  · cases hpure

/-- The references of a settled value cannot be replaced because of it, and nothing has been set. -/
theorem stops_of_replacePending {pending : Transfer.Pending}
    {entry : Transfer.Pending × ReferenceSite.Settled} {t t' : Transfer Dataset}
    (hsettle : settlePending h settings node pending = .ok entry)
    (herror : replacePending (.ofHierarchy h) settings entry t = .error fault t') :
    t = t' ∧ pending.site.Stops h (.ofHierarchy h) node pending.value fault := by
  obtain ⟨settled, hsettled, rfl⟩ := settlePending_eq_ok_iff.mp hsettle
  -- replacing can stop at a reference, setting the text cannot
  rcases EStateM.bind_eq_error_iff.mp herror with hreplace | ⟨text, t₁, -, herror⟩
  · obtain ⟨hstop, rfl⟩ := Transfer.compute_eq_error_iff.mp hreplace
    rw [hstrict] at hsettled hstop
    exact ⟨rfl, ReferenceSite.stops_of_replaceAll hsettled hstop⟩
  · rcases EStateM.bind_eq_error_iff.mp herror with hset | ⟨_, _, -, hpure⟩
    · exact absurd (plain_setAttribute _ _ _ _ _ _ hset) hfault
    · cases hpure

end Pending

section Step

variable {input base : Dataset} (hb : base.IsFlat) {g : Dataset.Group} {p : ProvenanceMaps}
  {t' : Transfer Dataset} {h : Hierarchy} {settings : Settings} {place : String} {id : Nat}
  {v : Dataset.Variable} {fault : Fault} (hfault : ¬ fault.IsPlain)
  (hstrict : settings.laxMode = false)

include hb hfault hstrict

/-- Where replacing the references of the last variable stops, some of its pending attributes have
been set, and the run stops at the value of another one. -/
theorem stops_of_references {created : Transfer.Created} {before : List Dataset.Variable}
    (copy : Dataset.Variable) (hsep : separator ∉ copy.name.toList)
    (hnew : copy.name ∉ before.map (·.name))
    (howner : ∀ pending ∈ created.pending, pending.flatOwner = join ObjectPath.root copy.name)
    (hrun : references h (.ofHierarchy h) settings created
      ⟨base.withRoot { g with vars := before ++ [copy] }, p⟩ = .error fault t') :
    ∃ done texts, done ⊆ created.pending ∧
      List.Forall₂ (Replaced h (.ofHierarchy h) settings created.path) done texts ∧
      t' = ⟨base.withRoot { g with
        vars := before ++ [{ copy with attributes := Attributes.setAll copy.attributes texts }] },
        p⟩ ∧
      ∃ pending ∈ created.pending, ∃ node, h.findVariable? created.path = some node ∧
        pending.site.Stops h (.ofHierarchy h) node pending.value fault := by
  unfold references at hrun
  split at hrun
  · cases hrun
  rcases EStateM.bind_eq_error_iff.mp hrun with hnode | ⟨node, t₁, hnode, hrun⟩
  · obtain ⟨hnode, -⟩ := Transfer.compute_eq_error_iff.mp hnode
    exact absurd (plain_surveyed _ _ _ hnode) hfault
  obtain ⟨hsurveyed, rfl⟩ := Transfer.compute_eq_ok_iff.mp hnode
  have hfound := surveyed_eq_ok_iff.mp hsurveyed
  rcases EStateM.bind_eq_error_iff.mp hrun with hsettle | ⟨settled, t₂, hsettled, hrun⟩
  · -- settling sets nothing
    obtain ⟨hstop, rfl⟩ := Transfer.compute_eq_error_iff.mp hsettle
    obtain ⟨pending, hpending, hstops⟩ := stops_of_settlePending hfault hstrict hstop
    exact ⟨[], [], List.nil_subset _, .nil, rfl, pending, hpending, node, hfound, hstops⟩
  -- all attributes are settled from here on
  obtain ⟨hall, rfl⟩ := Transfer.compute_eq_ok_iff.mp hsettled
  have hall := Except.mapM_eq_ok_iff.mp hall
  rcases EStateM.bind_eq_error_iff.mp hrun with hwalk | ⟨_, _, -, hpure⟩
  · -- the attributes before have been set, and this one has not
    obtain ⟨done, entry, rest, out, t₃, rfl, hdone, herror⟩ := EStateM.mapM_eq_error_iff.mp hwalk
    obtain ⟨pending, hpending, hsettle⟩ := Forall₂.exists_left hall (b := entry) (by simp)
    have howners := flatOwner_of_settled hall howner
    obtain ⟨texts, htexts, rfl⟩ := replaceSettled_ok hb copy hsep hnew
      (fun entry hentry => howners entry (List.mem_append_left _ hentry)) hdone
    obtain ⟨rfl, hstops⟩ := stops_of_replacePending hfault hstrict hsettle herror
    exact ⟨created.pending.take done.length, texts, List.take_subset _ _,
      replaced_of_settled (List.forall₂_take_append _ _ _ hall) hfound htexts, rfl, pending,
      hpending, node, hfound, hstops⟩
  · cases hpure

/-- A variable at which a strict run stops for a reference has a bad one, and a copy of it has been
begun. -/
theorem begun_of_variableStep (hsep : separator ∉ (flatName place v.name).toList)
    (hfind : input.findVariable (join place v.name) = .ok (id, v))
    (hattributes : (v.attributes.map (·.1)).Nodup)
    (hrun : variableStep input h (.ofHierarchy h) settings place (input.listed v)
      ⟨base.withRoot g, p⟩ = .error fault t') :
    BadReference h place v fault ∧
      ∃ copy, BegunCopy h (.ofHierarchy h) settings place v copy ∧
        flatName place v.name ∉ g.vars.map (·.name) ∧
        t'.output = base.withRoot { g with vars := g.vars ++ [copy] } := by
  -- creating the copy has no fault of a reference, nor has copying its data
  rcases EStateM.bind_eq_error_iff.mp hrun with hcreate | ⟨created, t₁, hcreate, hrun⟩
  · exact absurd (plain_createVariable _ _ _ _ _ _ _ hcreate) hfault
  obtain ⟨flats, shape, pending, hflats, -, hnew, rfl, hpending, rfl⟩ :=
    createVariable_ok hb (input.listed v) hsep (Dataset.variableAttributes_eq hfind) hattributes
      hcreate
  rcases EStateM.bind_eq_error_iff.mp hrun with hreferences | ⟨tally, t₂, -, hrun⟩
  · obtain ⟨done, texts, hdone, htexts, rfl, pending', hmem, node, hnode, hstops⟩ :=
      stops_of_references hb hfault hstrict ⟨flatName place v.name, v.type,
        flats.map (join ObjectPath.root), fillFirst v.attributes, shape, ∅⟩ hsep hnew
        (flatOwner_of_pending? hpending) hreferences
    constructor
    · -- what is pending is an attribute with a rule
      obtain ⟨o, ho, hsome⟩ := List.mem_filterMap.mp hmem
      obtain rfl : o = some pending' := hsome
      obtain ⟨⟨name, value⟩, hentry, hpend⟩ := Forall₂.exists_left hpending ho
      rcases pending?_eq_ok_iff.mp hpend with ⟨-, hnone⟩ | ⟨rule, text, hrule, htext, heq⟩
      · cases hnone
      · obtain rfl := Option.some.inj heq
        exact ⟨(List.mem_filter.mp hentry).1, hrule, htext, hnode, hstops⟩
    · refine ⟨⟨flatName place v.name, v.type, flats.map (join ObjectPath.root),
        Attributes.setAll (fillFirst v.attributes) texts, shape, ∅⟩, ⟨rfl, rfl, ?_,
          begunAttributes hattributes hpending hdone htexts, fun index => ?_⟩, hnew, rfl⟩
      · rw [List.forall₂_map_right_iff]
        exact hflats.imp fun path flat hflat => ⟨flat, hflat, rfl⟩
      · exact Std.ExtTreeMap.getD_empty
  · rcases EStateM.bind_eq_error_iff.mp hrun with hdata | ⟨_, _, -, hpure⟩
    · exact absurd (plain_data _ _ _ _ _ _ _ _ hdata) hfault
    · cases hpure

end Step

end Flatten

end GroupFlattening
