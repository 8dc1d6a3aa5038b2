import GroupFlattening.Proofs.Flatten.Replacement
import GroupFlattening.Proofs.Flatten.Structure

/-!
# References of the Copies

A strict run that succeeds leaves no reference dangling: every governed token of an attribute is
replaced by the flat name of what it designates in the snapshot of the input, that name is the name
of a copy in the output, and the provenance leads from it back to the path that was designated
(`references_kept`). The tokens may refer to objects that were not yet carried over when they were
replaced: the name table knew their names in advance, and the run created them later.
-/

namespace GroupFlattening.Flatten

open Dataset (rootId)
open ObjectPath (join)
open Transfer (recordOf)

/-! ## Objects of both kinds -/

theorem objects_dim (d : Dataset) :
    d.objects .dim = (groupDimensions d).map fun e => (e.1, e.2.name) := by
  simp [Dataset.objects, groupDimensions, Dataset.located, Dataset.Group.objectNames,
    List.map_flatMap, Function.comp_def]

theorem objects_var (d : Dataset) :
    d.objects .var = (groupVariables d).map fun e => (e.1, e.2.name) := by
  simp [Dataset.objects, groupVariables, Dataset.located, Dataset.Group.objectNames,
    List.map_flatMap, Function.comp_def]

/-- A flat name for the object of one kind at a path: it is the name of a copy in the output, and
the provenance leads from it to the path. -/
structure Traced (input output : Dataset) (report : Report) (kind : ObjectKind)
    (path flat : String) : Prop where
  object : ∃ o ∈ input.objects kind, path = join o.1 o.2 ∧ flat = flatName o.1 o.2
  copy : flat ∈ output.root.objectNames kind
  origin : (report.provenance.ofKind kind).path? flat = some path

section Progress

variable {input base : Dataset} {h : Hierarchy} {settings : Settings} {g : Dataset.Group}
  {p : ProvenanceMaps}
  (hp : Progress input base h settings (groupDimensions input) (groupVariables input) g p)
  (kind : ObjectKind)

include hp

theorem Progress.records_ofKind :
    (p.ofKind kind).records = (input.objects kind).map fun o => recordOf o.1 o.2 := by
  cases kind with
  | dim =>
    rw [objects_dim, List.map_map]
    exact hp.dimensionRecords
  | var =>
    rw [objects_var, List.map_map]
    exact hp.variableRecords

theorem Progress.nodup_flatNames :
    ((input.objects kind).map fun o => flatName o.1 o.2).Nodup := by
  cases kind with
  | dim =>
    rw [objects_dim, List.map_map]
    exact (List.nodup_append.mp hp.distinct).2.1
  | var =>
    rw [objects_var, List.map_map]
    exact hp.nodup_variableNames

/-- The copies of the objects of one kind are there in the end. -/
theorem Progress.flatName_mem {o : String × String} (ho : o ∈ input.objects kind) :
    flatName o.1 o.2 ∈ g.objectNames kind := by
  cases kind with
  -- the dimensions of the groups were appended in order
  | dim =>
    rw [objects_dim] at ho
    obtain ⟨e, he, rfl⟩ := List.mem_map.mp ho
    rw [Dataset.Group.objectNames, hp.dimensionNames]
    exact List.mem_append_right _ (List.mem_map_of_mem he)
  -- and so were the copies, one for each variable
  | var =>
    rw [objects_var] at ho
    obtain ⟨e, he, rfl⟩ := List.mem_map.mp ho
    obtain ⟨copies, hcopies, hall⟩ := hp.copies
    obtain ⟨copy, hmem, hcopy⟩ := Forall₂.exists_right hall he
    rw [Dataset.Group.objectNames, hcopies, ← hcopy.name]
    exact List.mem_map_of_mem (List.mem_append_right _ hmem)

end Progress

theorem variableAttribute?_of_mem {d : Dataset} {path name : String} {id : Nat}
    {v : Dataset.Variable} {value : AttributeValue} (hfind : d.findVariable path = .ok (id, v))
    (hnodup : (v.attributes.map (·.1)).Nodup) (hmem : (name, value) ∈ v.attributes) :
    d.variableAttribute? path name = some value := by
  rw [Dataset.variableAttribute?, Dataset.variableAttributes_eq hfind]
  exact Attributes.find?_of_mem hnodup hmem

/-! ## What takes the place of a token -/

/-- What takes the place of a token: the token itself if it is a standard name, or else a flat name
that is traced back to the path that the token designates. The names of the other kind supply it
only if both kinds may be meant and no object of the kind that was resolved has this path. -/
inductive Kept (input output : Dataset) (report : Report) (h : Hierarchy) (rule : ReferenceRule)
    (v : Hierarchy.Variable) (token : String) : String → Prop
  | standardName : h.resolve rule v token = .ok .standardName →
      Kept input output report h rule v token token
  | object {path flat : String} {kind supplier : ObjectKind} :
      h.resolve rule v token = .ok (.object path kind) →
      (ObjectPath.isAbsolute token = true → path = token) →
      (supplier = kind ∨ supplier = kind.other ∧ rule.allowsBoth = true ∧
        ∀ o ∈ input.objects kind, join o.1 o.2 ≠ path) →
      Traced input output report supplier path flat →
      Kept input output report h rule v token flat

/-- An attribute of a variable of the group at `place` has become the text of the same value, with
every governed token replaced and nothing else changed. -/
def KeepsReferences (input output : Dataset) (report : Report) (h : Hierarchy) (place : String)
    (v : Dataset.Variable) (rule : ReferenceRule) (entry : String × AttributeValue) : Prop :=
  ∃ node text references replaced,
    h.findVariable? (join place v.name) = some node ∧
    Hierarchy.SurveyedVariable input place node.group v node ∧
    entry.2.referenceText entry.1 = .ok text ∧
    References.ofAttribute entry.1 text = .ok references ∧
    references.Rewritten rule.resolvesKeys rule.resolvesValues
      (Kept input output report h rule node) replaced ∧
    output.variableAttribute? (join ObjectPath.root (flatName place v.name)) entry.1 =
      some (.text replaced.text)

section Run

variable {input base : Dataset} (hinput : input.WellFormed) (hproper : input.HasProperNames)
  (hb : base.IsFlat) {h : Hierarchy} {limit : Nat}
  (hsnapshot : Hierarchy.ofDataset input limit = .ok h) {settings : Settings} {g : Dataset.Group}
  {report : Report}
  (hp : Progress input base h settings (groupDimensions input) (groupVariables input) g
    report.provenance) (attributes : Attributes)

include hinput hproper hb hsnapshot hp

/-- Flat names of the name table can be traced in the end. -/
theorem traced_of_find? {kind : ObjectKind} {path flat : String}
    (hfind : ((NameTable.ofHierarchy h).ofKind kind).find? path = some flat) :
    Traced input (base.withRoot { g with attributes := attributes }) report kind path flat := by
  obtain ⟨o, ho, rfl, rfl⟩ := NameTable.exists_object_of_ofKind hinput hproper.groups hsnapshot
    kind hfind
  refine ⟨⟨o, ho, rfl, rfl⟩, ?_, ?_⟩
  -- the flat object is in the output
  · have hmem := hp.flatName_mem kind ho
    rw [hb.root_withRoot]
    cases kind with
    | dim => exact hmem
    | var => exact hmem
  -- and its record leads back to the path
  · have hrecords : (report.provenance.ofKind kind).records =
        (input.objects kind).map fun o => (flatName o.1 o.2, join o.1 o.2) :=
      hp.records_ofKind kind
    exact Provenance.path?_of_mem hrecords (hp.nodup_flatNames kind) ho

theorem kept_of_designated {rule : ReferenceRule} {node : Hierarchy.Variable}
    {token text : String}
    (hdesignated : ReferenceSite.Designated h (NameTable.ofHierarchy h) rule node token text) :
    Kept input (base.withRoot { g with attributes := attributes }) report h rule node token
      text := by
  cases hdesignated with
  | standardName hresolve => exact .standardName hresolve
  | @object path _ kind hresolve hfind =>
    -- an absolute token is not searched for
    have habsolute : ObjectPath.isAbsolute token = true → path = token := by
      intro habsolute
      rw [Hierarchy.resolve, if_pos habsolute] at hresolve
      injection hresolve with houtcome
      injection houtcome with hpath
      exact hpath.symm
    rcases NameTable.find?_eq_some_iff.mp hfind with hown | ⟨hnone, hboth, hother⟩
    · exact .object hresolve habsolute (Or.inl rfl)
        (traced_of_find? hinput hproper hb hsnapshot hp attributes hown)
    · refine .object hresolve habsolute (Or.inr ⟨rfl, hboth, ?_⟩)
        (traced_of_find? hinput hproper hb hsnapshot hp attributes hother)
      -- the name table would know the path of such an object
      rintro o ho rfl
      obtain ⟨flat, hflat⟩ :=
        NameTable.exists_find?_of_mem_objects hinput hproper.groups hsnapshot ho
      rw [hflat] at hnone
      cases hnone

end Run

/-- A strict run that succeeds keeps the references of all attributes with a rule. -/
theorem references_kept {input output output' : Dataset} {settings : Settings} {report : Report}
    (hinput : input.Reachable) (hproper : input.HasProperNames) (houtput : output.Reachable)
    (hstrict : settings.laxMode = false)
    (hrun : flatten input settings output = .ok report output') :
    ∃ h, Hierarchy.ofDataset input settings.depthLimit = .ok h ∧
      ∀ e ∈ groupVariables input, ∀ entry ∈ e.2.attributes, ∀ rule,
        ReferenceRule.forAttribute? entry.1 = some rule →
          KeepsReferences input output' report h e.1 e.2 rule entry := by
  obtain ⟨h, g, hsnapshot, hb, hp, rfl⟩ :=
    progress_of_flatten hinput.wellFormed hproper houtput.wellFormed hrun
  refine ⟨h, hsnapshot, fun e he entry hentry rule hrule => ?_⟩
  -- `e.2` is a variable of the group with this number
  obtain ⟨id, hid, hplace, hv⟩ := Dataset.mem_located.mp he
  have hlt := hinput.wellFormed.mem_groupIds_iff.mp hid
  have hnodup := (hinput.wellFormed.groups id).variableAttributes e.2 hv
  obtain ⟨copy, hfind, hcopy⟩ := hp.exists_copy hb
    (Attributes.setAll g.attributes (provenanceEntries report.provenance)) hinput.wellFormed hproper
    he
  -- the attributes of the copy follow those of the original
  obtain ⟨copied, hcopied, hattribute⟩ := Forall₂.exists_right hcopy.attributes
    ((fillFirst_perm e.2.attributes).mem_iff.mpr hentry)
  -- an attribute with a rule is not one that was left as it is
  cases hattribute with
  | same hnone =>
    rw [hnone] at hrule
    cases hrule
  | @replaced name value rule' text result node settled hrule' htext hnode hsettle hreplace =>
    obtain rfl := Option.some.inj (hrule'.symm.trans hrule)
    rw [hstrict] at hsettle hreplace
    obtain ⟨references, replaced, hreferences, hrewritten, rfl⟩ :=
      ReferenceSite.rewritten_of_settle hsettle hreplace
    refine ⟨node, text, references, replaced, hnode, ?_, htext, hreferences, ?_, ?_⟩
    -- the node that the run looked up is the one that was surveyed from this variable
    · rw [← hplace] at hnode ⊢
      exact Hierarchy.surveyedVariable_of_findVariable? hinput.wellFormed hproper hsnapshot hlt hv
        hnode
    · exact hrewritten.imp_of_governed fun token _ flat hdesignated =>
        kept_of_designated hinput.wellFormed hproper hb hsnapshot hp _ hdesignated
    · exact variableAttribute?_of_mem hfind (hcopy.nodup_attributes hnodup) hcopied

/-- The coordinates of the wind at the station name the copies of both variables. -/
theorem station_references_kept : station.Reachable ∧ station.HasProperNames ∧
    archive.Reachable ∧ ∃ report output, flatten station {} archive = .ok report output ∧
      output.variableAttribute? "/site__wind" "coordinates" = some (.text "site__height time") ∧
      ∃ h, Hierarchy.ofDataset station ({} : Settings).depthLimit = .ok h ∧
        ∀ e ∈ groupVariables station, ∀ entry ∈ e.2.attributes, ∀ rule,
          ReferenceRule.forAttribute? entry.1 = some rule →
            KeepsReferences station output report h e.1 e.2 rule entry := by
  have hsucceeds : EStateM.succeedsWith (fun (_ : Report) (output : Dataset) =>
      decide (output.variableAttribute? "/site__wind" "coordinates" =
        some (.text "site__height time")))
      (flatten station {} archive) = true := by decide +kernel
  obtain ⟨report, output, hrun, hcoordinates⟩ := EStateM.exists_of_succeedsWith _ hsucceeds
  exact ⟨station_reachable, station_hasProperNames, archive_reachable, report, output, hrun,
    of_decide_eq_true hcoordinates,
    references_kept station_reachable station_hasProperNames archive_reachable rfl hrun⟩

end GroupFlattening.Flatten
