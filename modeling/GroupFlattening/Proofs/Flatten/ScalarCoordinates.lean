import GroupFlattening.Proofs.Flatten.References
import GroupFlattening.Proofs.Flatten.Refusal
import GroupFlattening.Proofs.Resolution.ScalarCoordinates

/-!
# Scalar Coordinates of a Run

Whatever store is flattened into whatever other one, a run that succeeds sets every attribute that a
rule governs to what its references are replaced by (`replaces_of_flatten`); for datasets in memory
this is what the copy holds in the end (`replaced_of_flatten`). Where the rule counts only scalar
coordinates, the tokens keep to that unless they are absolute paths (`restricted_of_flatten`).
-/

namespace GroupFlattening

namespace Flatten

open ObjectPath (join)
open ReferenceSite (RestrictedKey)

/-! ## Every governed attribute is replaced -/

section Replaces

variable {ι σ : Type} [Readable ι] [Writable σ]

/-- A successful walk goes through a successful step for each item, with writes before and after. -/
theorem exists_step_of_mapM {α β : Type} {S : Fault → σ → σ → Prop} (hS : Absorbs S)
    {f : α → TransferM σ β} {as : List α} (hf : ∀ a ∈ as, Refuses S (f a)) {bs : List β}
    {t t' : Transfer σ} (hrun : as.mapM f t = .ok bs t') {a : α} (ha : a ∈ as) :
    ∃ t₁ b t₂, Written t.output t₁.output ∧ f a t₁ = .ok b t₂ ∧
      Written t₂.output t'.output := by
  -- along the list: the step is the first one, or one of the rest
  induction as generalizing t bs with
  | nil => cases ha
  | cons first rest ih =>
    rw [List.forall_mem_cons] at hf
    rw [List.mapM_cons] at hrun
    obtain ⟨b, t₁, hfirst, hrun⟩ := EStateM.bind_eq_ok_iff.mp hrun
    obtain ⟨out, t₂, hrest, hpure⟩ := EStateM.bind_eq_ok_iff.mp hrun
    obtain ⟨-, rfl⟩ := EStateM.pure_eq_ok_iff.mp hpure
    rcases List.mem_cons.mp ha with rfl | ha
    · exact ⟨t, b, t₁, .refl, hfirst, (Refuses.mapM hS hf.2).written _ _ _ hrest⟩
    · obtain ⟨t₃, b', t₄, hbefore, hstep, hafter⟩ := ih hf.2 hrest ha
      exact ⟨t₃, b', t₄, (hf.1.written _ _ _ hfirst).trans hbefore, hstep, hafter⟩

/-- The references of an attribute are replaced: its value is settled for the variable at the path,
its tokens are replaced, and the text that results is set in the copy, among other writes. -/
inductive Replaces (h : Hierarchy) (settings : Settings) (path : String)
    (pending : Transfer.Pending) (output output' : σ) : Prop
  | mk {node : Hierarchy.Variable} {settled : ReferenceSite.Settled} {text : String}
      {before after : σ} (hnode : h.findVariable? path = some node)
      (hsettle : pending.site.settle h node settings.laxMode pending.value = .ok settled)
      (hreplace : pending.site.replaceAll (.ofHierarchy h) settings.laxMode settled.references
        settled.resolutions = .ok text)
      (hbefore : Written output before)
      (hset : Writable.setVariableAttribute pending.flatOwner pending.name (.text text) before =
        .ok () after)
      (hafter : Written after output')

theorem Replaces.trans {h : Hierarchy} {settings : Settings} {path : String}
    {pending : Transfer.Pending} {d d₁ d₂ d' : σ} (hbefore : Written d d₁)
    (hreplaces : Replaces h settings path pending d₁ d₂) (hafter : Written d₂ d') :
    Replaces h settings path pending d d' := by
  obtain ⟨hnode, hsettle, hreplace, hb, hset, ha⟩ := hreplaces
  exact ⟨hnode, hsettle, hreplace, hbefore.trans hb, hset, ha.trans hafter⟩

/-- No rule governs the fill value. -/
theorem ne_fillValueName_of_rule {name : String} {rule : ReferenceRule}
    (hrule : ReferenceRule.forAttribute? name = some rule) : name ≠ fillValueName := by
  rintro rfl
  have hnone : ReferenceRule.forAttribute? fillValueName = none := by decide +kernel
  rw [hnone] at hrule
  cases hrule

/-- A governed attribute of a variable is remembered when the copy is created. -/
theorem pending_of_createVariable {input : ι} {names : NameTable} {group : String}
    {info : VariableInfo} {t t' : Transfer σ} {created : Transfer.Created}
    (hrun : Transfer.createVariable input names group info t = .ok created t')
    {attributes : Attributes}
    (hattributes : Readable.variableAttributes input (join group info.name) = .ok attributes)
    {entry : String × AttributeValue} (hentry : entry ∈ attributes) {rule : ReferenceRule}
    (hrule : ReferenceRule.forAttribute? entry.1 = some rule) :
    ∃ value, entry.2.referenceText entry.1 = .ok value ∧
      ⟨join group info.name, join ObjectPath.root (flatName group info.name), entry.1, value,
        rule⟩ ∈ created.pending := by
  obtain ⟨attributes', pending, hread, hall, rfl⟩ := created_of_createVariable hrun
  obtain rfl := Except.ok.inj (hattributes.symm.trans hread)
  -- the fill value has no rule, so the entry is among those that are read for references
  have hother : entry ∈ attributes.filter fun entry => entry.1 != fillValueName :=
    List.mem_filter.mpr ⟨hentry, by simpa using ne_fillValueName_of_rule hrule⟩
  obtain ⟨o, ho, hgives⟩ := Forall₂.exists_right hall hother
  simp only [Transfer.pending?, hrule, Except.bind_eq_ok_iff, Except.pure_eq_ok_iff] at hgives
  obtain ⟨value, hvalue, rfl⟩ := hgives
  exact ⟨value, hvalue, List.mem_filterMap.mpr ⟨_, ho, rfl⟩⟩

/-- What is pending for a variable is replaced. -/
theorem replaces_of_references {h : Hierarchy} {settings : Settings}
    {created : Transfer.Created} {t t' : Transfer σ} {tally : Tally}
    (hrun : references h (.ofHierarchy h) settings created t = .ok tally t')
    {pending : Transfer.Pending} (hpending : pending ∈ created.pending) :
    Replaces h settings created.path pending t.output t'.output := by
  unfold references at hrun
  rw [if_neg (by rw [List.isEmpty_iff]; exact List.ne_nil_of_mem hpending)] at hrun
  obtain ⟨node, t₁, hcompute, hrun⟩ := EStateM.bind_eq_ok_iff.mp hrun
  obtain ⟨hnode, rfl⟩ := Transfer.compute_eq_ok_iff.mp hcompute
  obtain ⟨settled, t₂, hcompute, hrun⟩ := EStateM.bind_eq_ok_iff.mp hrun
  obtain ⟨hsettled, rfl⟩ := Transfer.compute_eq_ok_iff.mp hcompute
  obtain ⟨unnamed, t₃, hwalk, hpure⟩ := EStateM.bind_eq_ok_iff.mp hrun
  obtain ⟨-, rfl⟩ := EStateM.pure_eq_ok_iff.mp hpure
  -- what the pending value was settled to
  obtain ⟨entry, hentry, hsettles⟩ :=
    Forall₂.exists_right (Except.mapM_eq_ok_iff.mp hsettled) hpending
  obtain ⟨result, hsettle, rfl⟩ := settlePending_eq_ok_iff.mp hsettles
  -- the step that sets the attribute
  have hS := absorbs_caused (σ := σ) fun _ => False
  obtain ⟨t₄, out, t₅, hbefore, hstep, hafter⟩ := exists_step_of_mapM hS
    (fun entry _ => refuses_replacePending hS (.ofHierarchy h) settings entry) hwalk hentry
  obtain ⟨text, t₆, hcompute, hstep⟩ := EStateM.bind_eq_ok_iff.mp hstep
  obtain ⟨htext, rfl⟩ := Transfer.compute_eq_ok_iff.mp hcompute
  obtain ⟨⟨⟩, t₇, hset, hpure⟩ := EStateM.bind_eq_ok_iff.mp hstep
  obtain ⟨-, rfl⟩ := EStateM.pure_eq_ok_iff.mp hpure
  obtain ⟨after, hwrite, rfl⟩ := Transfer.onOutput_eq_ok_iff.mp hset
  exact ⟨surveyed_eq_ok_iff.mp hnode, hsettle, htext, hbefore, hwrite, hafter⟩

/-- A run that succeeds replaces the references of every governed attribute. -/
theorem replaces_of_flatten {input : ι} {settings : Settings} {output output' : σ}
    {report : Report} (hrun : flatten input settings output = .ok report output') :
    ∃ h, Hierarchy.ofDataset input settings.depthLimit = .ok h ∧
      ∀ g ∈ h.groups.labels, ∀ infos, Readable.variableInfos input g.path = .ok infos →
      ∀ info ∈ infos, ∀ attributes,
        Readable.variableAttributes input (join g.path info.name) = .ok attributes →
      ∀ entry ∈ attributes, ∀ rule, ReferenceRule.forAttribute? entry.1 = some rule →
      ∃ value, entry.2.referenceText entry.1 = .ok value ∧
        Replaces h settings (join g.path info.name) ⟨join g.path info.name,
          join ObjectPath.root (flatName g.path info.name), entry.1, value, rule⟩
          output output' := by
  obtain ⟨h, t', hsurvey, htransfer, rfl⟩ := flatten_eq_ok_iff.mp hrun
  obtain ⟨-, -, hsnapshot⟩ := Except.bind_eq_ok_iff.mp hsurvey
  refine ⟨h, hsnapshot, fun g hg infos hinfos info hinfo attributes hattributes entry hentry rule
    hrule => ?_⟩
  have hS := absorbs_late (σ := σ) input settings h
  -- the step for the group, the step for the variable, and the part of it for references
  obtain ⟨tallies, t₁, hgroups, hrest⟩ := EStateM.bind_eq_ok_iff.mp htransfer
  obtain ⟨provenance, t₂, hfinish, hpure⟩ := EStateM.bind_eq_ok_iff.mp hrest
  obtain ⟨-, rfl⟩ := EStateM.pure_eq_ok_iff.mp hpure
  have hfinished := (refuses_finish hS).written _ _ _ hfinish
  obtain ⟨t₃, tally, t₄, hbefore, hgroup, hafter⟩ := exists_step_of_mapM hS
    (fun g hg => late_groupStep input (.ofHierarchy h) settings hg) hgroups hg
  obtain ⟨infos', t₅, hcarry, hgroup⟩ := EStateM.bind_eq_ok_iff.mp hgroup
  obtain rfl := Except.ok.inj (hinfos.symm.trans (variableInfos_of_group hcarry))
  obtain ⟨tallies', t₆, hvars, hpure⟩ := EStateM.bind_eq_ok_iff.mp hgroup
  obtain ⟨-, rfl⟩ := EStateM.pure_eq_ok_iff.mp hpure
  have hcarried := (refuses_group hS input g.path).written _ _ _ hcarry
  obtain ⟨t₇, tally', t₈, hbefore', hvar, hafter'⟩ := exists_step_of_mapM hS
    (fun info hinfo => late_variableStep input (.ofHierarchy h) settings hg hinfos hinfo) hvars
    hinfo
  obtain ⟨created, t₉, hcreate, hvar⟩ := EStateM.bind_eq_ok_iff.mp hvar
  obtain ⟨value, hvalue, hpending⟩ :=
    pending_of_createVariable hcreate hattributes hentry hrule
  obtain ⟨hpath, -⟩ := written_createVariable hcreate
  obtain ⟨tally'', t₁₀, hreferences, hvar⟩ := EStateM.bind_eq_ok_iff.mp hvar
  obtain ⟨⟨⟩, t₁₁, hdata, hpure⟩ := EStateM.bind_eq_ok_iff.mp hvar
  obtain ⟨-, rfl⟩ := EStateM.pure_eq_ok_iff.mp hpure
  -- all that is written before and after the references of the variable
  have hcreated := (refuses_createVariable hS input (.ofHierarchy h) g.path info).written _ _ _
    hcreate
  have hcopied := (refuses_data input settings h created.path created.flatPath info).written _ _ _
    hdata
  refine ⟨value, hvalue, ?_⟩
  have hreplaces := replaces_of_references hreferences hpending
  rw [hpath] at hreplaces
  exact hreplaces.trans (((hbefore.trans hcarried).trans hbefore').trans hcreated)
    (((hcopied.trans hafter').trans hafter).trans hfinished)

end Replaces

/-- In a copy in memory every governed attribute is in the end what its references were replaced by
when it was settled for the variable that is found under its path. -/
theorem settled_of_flatten {input output output' : Dataset} {settings : Settings} {report : Report}
    (hinput : input.Reachable) (hproper : input.HasProperNames) (houtput : output.Reachable)
    (hrun : flatten input settings output = .ok report output') :
    ∃ h, Hierarchy.ofDataset input settings.depthLimit = .ok h ∧
      ∀ e ∈ groupVariables input, ∀ entry ∈ e.2.attributes, ∀ rule,
        ReferenceRule.forAttribute? entry.1 = some rule →
        ∃ node value settled text, h.findVariable? (join e.1 e.2.name) = some node ∧
          entry.2.referenceText entry.1 = .ok value ∧
          ReferenceSite.settle ⟨join e.1 e.2.name, entry.1, rule⟩ h node settings.laxMode value =
            .ok settled ∧
          ReferenceSite.replaceAll ⟨join e.1 e.2.name, entry.1, rule⟩ (.ofHierarchy h)
            settings.laxMode settled.references settled.resolutions = .ok text ∧
          output'.variableAttribute? (join ObjectPath.root (variableName e)) entry.1 =
            some (.text text) := by
  obtain ⟨h, g, hsnapshot, hb, hp, rfl⟩ :=
    progress_of_flatten hinput.wellFormed hproper houtput.wellFormed hrun
  refine ⟨h, hsnapshot, fun e he entry hentry rule hrule => ?_⟩
  obtain ⟨id, -, -, hv⟩ := Dataset.mem_located.mp he
  have hnodup := (hinput.wellFormed.groups id).variableAttributes e.2 hv
  obtain ⟨copy, hfind, hcopy⟩ := hp.exists_copy hb
    (Attributes.setAll g.attributes (provenanceEntries report.provenance)) hinput.wellFormed hproper
    he
  obtain ⟨copied, hcopied, hattribute⟩ := Forall₂.exists_right hcopy.attributes
    ((fillFirst_perm e.2.attributes).mem_iff.mpr hentry)
  -- an attribute with a rule was replaced
  cases hattribute with
  | same hnone =>
    rw [hnone] at hrule
    cases hrule
  | @replaced name value rule' text result node settled hrule' htext hnode hsettle hreplace =>
    obtain rfl := Option.some.inj (hrule'.symm.trans hrule)
    exact ⟨node, text, settled, result, hnode, htext, hsettle, hreplace,
      variableAttribute?_of_mem hfind (hcopy.nodup_attributes hnodup) hcopied⟩

/-- In a copy in memory every governed attribute is in the end what its references were replaced
by. -/
theorem replaced_of_flatten {input output output' : Dataset} {settings : Settings} {report : Report}
    (hinput : input.Reachable) (hproper : input.HasProperNames) (houtput : output.Reachable)
    (hrun : flatten input settings output = .ok report output') :
    ∃ h, Hierarchy.ofDataset input settings.depthLimit = .ok h ∧
      ∀ e ∈ groupVariables input, ∀ entry ∈ e.2.attributes, ∀ rule,
        ReferenceRule.forAttribute? entry.1 = some rule →
        ∃ node value settled text, Hierarchy.SurveyedVariable input e.1 node.group e.2 node ∧
          entry.2.referenceText entry.1 = .ok value ∧
          ReferenceSite.settle ⟨join e.1 e.2.name, entry.1, rule⟩ h node settings.laxMode value =
            .ok settled ∧
          ReferenceSite.replaceAll ⟨join e.1 e.2.name, entry.1, rule⟩ (.ofHierarchy h)
            settings.laxMode settled.references settled.resolutions = .ok text ∧
          output'.variableAttribute? (join ObjectPath.root (variableName e)) entry.1 =
            some (.text text) := by
  obtain ⟨h, hsnapshot, hall⟩ := settled_of_flatten hinput hproper houtput hrun
  refine ⟨h, hsnapshot, fun e he entry hentry rule hrule => ?_⟩
  obtain ⟨node, value, settled, text, hnode, hsettled⟩ := hall e he entry hentry rule hrule
  obtain ⟨id, hid, hplace, hv⟩ := Dataset.mem_located.mp he
  refine ⟨node, value, settled, text, ?_, hsettled⟩
  rw [← hplace] at hnode ⊢
  exact Hierarchy.surveyedVariable_of_findVariable? hinput.wellFormed hproper hsnapshot
    (hinput.wellFormed.mem_groupIds_iff.mp hid) hv hnode

/-! ## Attributes where only scalar coordinates count -/

/-- Whatever is flattened, a run that succeeds sets every attribute where only scalar coordinates
count to its old value with the keys replaced as `RestrictedKey` says; the coordinates that it looks
at are those that the input gives for the referring variable. Between datasets in memory whose names
are proper, the copy has the attribute like this in the end. -/
theorem restricted_of_flatten (settings : Settings) :
    (∀ (ι σ : Type) [Readable ι] [Writable σ] (input : ι) (output output' : σ) (report : Report),
      flatten input settings output = .ok report output' →
      ∃ h, Hierarchy.ofDataset input settings.depthLimit = .ok h ∧
        ∀ g ∈ h.groups.labels, ∀ infos, Readable.variableInfos input g.path = .ok infos →
        ∀ info ∈ infos, ∀ attributes,
          Readable.variableAttributes input (join g.path info.name) = .ok attributes →
        ∀ entry ∈ attributes, ∀ rule, ReferenceRule.forAttribute? entry.1 = some rule →
          rule.onlyScalarCoordinates = true →
        ∃ node value references replaced before after,
          h.findVariable? (join g.path info.name) = some node ∧
          Hierarchy.surveyCoordinates input node.path = .ok node.coordinates ∧
          entry.2.referenceText entry.1 = .ok value ∧
          References.ofAttribute entry.1 value = .ok references ∧
          references.Rewritten true false
            (RestrictedKey h (.ofHierarchy h) rule node settings.laxMode) replaced ∧
          Written output before ∧
          Writable.setVariableAttribute (join ObjectPath.root (flatName g.path info.name)) entry.1
            (.text replaced.text) before = .ok () after ∧
          Written after output') ∧
    ∀ (input output output' : Dataset) (report : Report), input.Reachable →
      input.HasProperNames → output.Reachable → flatten input settings output = .ok report output' →
      ∃ h, Hierarchy.ofDataset input settings.depthLimit = .ok h ∧
        ∀ e ∈ groupVariables input, ∀ entry ∈ e.2.attributes, ∀ rule,
          ReferenceRule.forAttribute? entry.1 = some rule → rule.onlyScalarCoordinates = true →
        ∃ node value references replaced,
          Hierarchy.SurveyedVariable input e.1 node.group e.2 node ∧
          entry.2.referenceText entry.1 = .ok value ∧
          References.ofAttribute entry.1 value = .ok references ∧
          references.Rewritten true false
            (RestrictedKey h (.ofHierarchy h) rule node settings.laxMode) replaced ∧
          output'.variableAttribute? (join ObjectPath.root (variableName e)) entry.1 =
            some (.text replaced.text) := by
  refine ⟨?_, ?_⟩
  · intro ι σ _ _ input output output' report hrun
    obtain ⟨h, hsnapshot, hall⟩ := replaces_of_flatten hrun
    refine ⟨h, hsnapshot, fun g hg infos hinfos info hinfo attributes hattributes entry hentry rule
      hrule honly => ?_⟩
    obtain ⟨value, hvalue, hnode, hsettle, hreplace, hbefore, hset, hafter⟩ :=
      hall g hg infos hinfos info hinfo attributes hattributes entry hentry rule hrule
    obtain ⟨references, replaced, hreferences, hrewritten, rfl⟩ :=
      ReferenceSite.restricted_of_settle hsnapshot hrule honly hsettle hreplace
    -- the coordinates of the node are those that were read in the survey
    obtain ⟨_, _, _, -, -, hlisted⟩ := Hierarchy.listed_of_findVariable? hsnapshot hnode
    exact ⟨_, value, references, replaced, _, _, hnode, hlisted.coordinates, hvalue, hreferences,
      hrewritten, hbefore, hset, hafter⟩
  · intro input output output' report hinput hproper houtput hrun
    obtain ⟨h, hsnapshot, hall⟩ := replaced_of_flatten hinput hproper houtput hrun
    refine ⟨h, hsnapshot, fun e he entry hentry rule hrule honly => ?_⟩
    obtain ⟨node, value, settled, text, hsurveyed, hvalue, hsettle, hreplace, hset⟩ :=
      hall e he entry hentry rule hrule
    obtain ⟨references, replaced, hreferences, hrewritten, rfl⟩ :=
      ReferenceSite.restricted_of_settle hsnapshot hrule honly hsettle hreplace
    exact ⟨node, value, references, replaced, hsurveyed, hvalue, hreferences, hrewritten, hset⟩

/-- Rain in a group, with methods for a dimension, a scalar coordinate and a coordinate that is
none, which is named and then given by its path. -/
def rain : Dataset :=
  (Dataset.create "rain" true).applyAll
    [.group "/" "g",
      .dimension "/g" "x" (some 2),
      .variable "/g" ⟨"height", .double, [], none⟩,
      .variable "/g" ⟨"w", .double, ["/g/x"], none⟩,
      .variable "/g" ⟨"v", .double, ["/g/x"], none⟩,
      .variableAttribute "/g/v" "coordinates" (.text "height w"),
      .variableAttribute "/g/v" "cell_methods" (.text "x: sum height: mean w: max /g/w: min")]

/-- The methods for the rain keep to the restriction up to the path. -/
theorem rain_restricted : rain.Reachable ∧ rain.HasProperNames ∧
    (Dataset.create "flat" false).Reachable ∧
    ∃ report output, flatten rain {} (Dataset.create "flat" false) = .ok report output ∧
      output.variableAttribute? "/g__v" "cell_methods" =
        some (.text "g__x: sum g__height: mean w: max g__w: min") ∧
      (∃ h, Hierarchy.ofDataset rain ({} : Settings).depthLimit = .ok h ∧
        ∀ e ∈ groupVariables rain, ∀ entry ∈ e.2.attributes, ∀ rule,
          ReferenceRule.forAttribute? entry.1 = some rule → rule.onlyScalarCoordinates = true →
          ∃ node value references replaced,
            Hierarchy.SurveyedVariable rain e.1 node.group e.2 node ∧
            entry.2.referenceText entry.1 = .ok value ∧
            References.ofAttribute entry.1 value = .ok references ∧
            references.Rewritten true false
              (RestrictedKey h (.ofHierarchy h) rule node false) replaced ∧
            output.variableAttribute? (join ObjectPath.root (variableName e)) entry.1 =
              some (.text replaced.text)) ∧
      ∃ h, Hierarchy.ofDataset rain ({} : Settings).depthLimit = .ok h ∧
        ∀ g ∈ h.groups.labels, ∀ infos, Readable.variableInfos rain g.path = .ok infos →
        ∀ info ∈ infos, ∀ attributes,
          Readable.variableAttributes rain (join g.path info.name) = .ok attributes →
        ∀ entry ∈ attributes, ∀ rule, ReferenceRule.forAttribute? entry.1 = some rule →
          rule.onlyScalarCoordinates = true →
          ∃ node, h.findVariable? (join g.path info.name) = some node ∧
            Hierarchy.surveyCoordinates rain node.path = .ok node.coordinates := by
  have hreachable : rain.Reachable := (Dataset.Reachable.create "rain" true).applyAll _
  have hproper : rain.HasProperNames := by decide +kernel
  have hflat : (Dataset.create "flat" false).Reachable := .create "flat" false
  have hsucceeds : EStateM.succeedsWith (fun (_ : Report) (output : Dataset) =>
      decide (output.variableAttribute? "/g__v" "cell_methods" =
        some (.text "g__x: sum g__height: mean w: max g__w: min")))
      (flatten rain {} (Dataset.create "flat" false)) = true := by decide +kernel
  obtain ⟨report, output, hrun, hmethods⟩ := EStateM.exists_of_succeedsWith _ hsucceeds
  obtain ⟨hany, hmemory⟩ := restricted_of_flatten {}
  obtain ⟨h, hsnapshot, hall⟩ := hany Dataset Dataset rain _ output report hrun
  refine ⟨hreachable, hproper, hflat, report, output, hrun, of_decide_eq_true hmethods,
    hmemory rain _ output report hreachable hproper hflat hrun, h, hsnapshot, ?_⟩
  intro g hg infos hinfos info hinfo attributes hattributes entry hentry rule hrule honly
  obtain ⟨node, -, -, -, -, -, hnode, hcoordinates, -⟩ :=
    hall g hg infos hinfos info hinfo attributes hattributes entry hentry rule hrule honly
  exact ⟨node, hnode, hcoordinates⟩

/-- A method for a variable with a dimension, given by its path. -/
def drought : Dataset :=
  (Dataset.create "drought" true).applyAll
    [.dimension "/" "x" (some 2),
      .variable "/" ⟨"w", .double, ["/x"], none⟩,
      .variable "/" ⟨"v", .double, ["/x"], none⟩,
      .variableAttribute "/v" "cell_methods" (.text "/w: mean")]

/-- The path of a variable is replaced although the variable has a dimension and the referring one
has no coordinates. -/
theorem drought_unrestricted : drought.Reachable ∧ drought.HasProperNames ∧
    drought.dimension "/w" = .error (.notFound (.path "/w")) ∧
    drought.variableAttribute? "/v" "coordinates" = none ∧
    (∃ id w, drought.findVariable "/w" = .ok (id, w) ∧ w.dimensions = ["/x"]) ∧
    ∃ report output, flatten drought {} (Dataset.create "flat" false) = .ok report output ∧
      output.variableAttribute? "/v" "cell_methods" = some (.text "w: mean") := by
  have hsucceeds : EStateM.succeedsWith (fun (_ : Report) (output : Dataset) =>
      decide (output.variableAttribute? "/v" "cell_methods" = some (.text "w: mean")))
      (flatten drought {} (Dataset.create "flat" false)) = true := by decide +kernel
  obtain ⟨report, output, hrun, hmethods⟩ := EStateM.exists_of_succeedsWith _ hsucceeds
  have hproper : drought.HasProperNames := by decide +kernel
  have hw : (drought.findVariable "/w").toOption.map (·.2.dimensions) = some ["/x"] := by
    decide +kernel
  refine ⟨(Dataset.Reachable.create "drought" true).applyAll _, hproper, by decide +kernel,
    by decide +kernel, ?_, report, output, hrun, of_decide_eq_true hmethods⟩
  -- the variable is there and has one dimension, so it is not a scalar
  cases hfind : drought.findVariable "/w" with
  | error fault => simp [hfind, Except.toOption] at hw
  | ok found =>
    obtain ⟨id, w⟩ := found
    exact ⟨id, w, rfl, by simpa [hfind, Except.toOption] using hw⟩

end Flatten

end GroupFlattening
