import GroupFlattening.Proofs.Flatten.ScalarCoordinates

/-!
# The Spelling of Scalar Coordinates

Where only scalar coordinates count, a key that is found to be a variable without dimensions is
compared with the coordinates of the referring variable by its spelling. It is replaced by the flat
name of the variable if it is an absolute path, which is never compared, or if it is spelled as one
of the coordinates is (`Variable.lists`); otherwise it stays as it is, although one of the
coordinates may be another spelling for the same variable (`spelled_of_restrictedKey`). So it is in
every run that succeeds (`spelled_of_flatten`).
-/

namespace GroupFlattening

open ObjectPath (join)

namespace Hierarchy

/-- Whether the attribute that lists the coordinates of a variable has the token, spelled in the
same way, as one of its keys. -/
def Variable.lists (v : Variable) (token : String) : Bool :=
  match v.coordinates with
  | none => false
  | some text => (References.ofText? text).any (·.contains token)

/-- A token is that of a scalar coordinate if it is listed and what it was found to be has no
dimensions. -/
theorem isScalarCoordinate_iff {h : Hierarchy} {v : Variable} {token found : String} :
    h.IsScalarCoordinate v token found ↔ v.lists token = true ∧
      ∃ target, h.findVariable? found = some target ∧ target.rank = 0 := by
  -- listed means that the coordinates can be read and hold the token
  have hlists : v.lists token = true ↔ ∃ text references, v.coordinates = some text ∧
      References.ofAttribute coordinatesName text = .ok references ∧
      references.contains token = true := by
    unfold Variable.lists References.ofAttribute
    cases v.coordinates with
    | none => simp
    | some text => cases hparse : References.ofText? text <;> simp [hparse]
  rw [hlists]
  exact ⟨fun h => ⟨h.listed, h.scalar⟩, fun h => ⟨h.1, h.2⟩⟩

/-- A token names no dimension and designates the variable at a path: it is found there by a search,
or it is itself this path. -/
inductive FindsVariable (h : Hierarchy) (rule : ReferenceRule) (v : Variable) (token : String) :
    String → Prop
  | searched {path : String} : ObjectPath.isAbsolute token = false →
      (∀ other, h.lookup rule v .dim token ≠ .found other) →
      h.lookup rule v .var token = .found path → FindsVariable h rule v token path
  | absolute : ObjectPath.isAbsolute token = true →
      (NameTable.ofHierarchy h).dimensions.find? token = none →
      (∃ flat, (NameTable.ofHierarchy h).vars.find? token = some flat) →
      FindsVariable h rule v token token

end Hierarchy

namespace ReferenceSite

open Hierarchy (FindsVariable)

/-- What stands in the end for a key that designates a variable without dimensions: the flat name of
the variable if the key is an absolute path or spelled as one of the coordinates, and otherwise the
key itself. -/
def SpelledKey (v : Hierarchy.Variable) (token flat text : String) : Prop :=
  text = if ObjectPath.isAbsolute token || v.lists token then flat else token

/-- Of the keys that designate variables without dimensions, the spelling decides which are
replaced. -/
theorem spelled_of_restrictedKey {σ : Type} [Readable σ] {dataset : σ} {limit : Nat} {h : Hierarchy}
    (hsnapshot : Hierarchy.ofDataset dataset limit = .ok h) {rule : ReferenceRule}
    {v : Hierarchy.Variable} {lax : Bool} {token path text : String} {target : Hierarchy.Variable}
    (hkey : RestrictedKey h (.ofHierarchy h) rule v lax token text)
    (hfinds : FindsVariable h rule v token path) (htarget : h.findVariable? path = some target)
    (hscalar : target.rank = 0) :
    ∃ flat, (NameTable.ofHierarchy h).vars.find? path = some flat ∧
      SpelledKey v token flat text := by
  unfold SpelledKey
  -- a token that was searched for, or one that is a path by itself
  cases hfinds with
  | searched hrelative hno hfound =>
    cases hkey with
    | dimension _ hdim _ => exact absurd hdim (hno _)
    -- listed, so it is replaced by the flat name
    | scalar _ _ hfound' hcoordinate hflat =>
      rw [hfound] at hfound'
      obtain rfl := Lookup.found.inj hfound'
      have hlisted := (Hierarchy.isScalarCoordinate_iff.mp hcoordinate).1
      exact ⟨text, hflat, by simp [hlisted]⟩
    | standardName _ _ hnot =>
      obtain ⟨flat, hflat⟩ := Hierarchy.exists_find?_of_lookup hsnapshot hfound
      -- what it designates has no dimensions, so it is not listed
      have hlisted : v.lists token = false := by
        rw [Bool.eq_false_iff]
        intro hlists
        exact hnot path hfound
          (Hierarchy.isScalarCoordinate_iff.mpr ⟨hlists, target, htarget, hscalar⟩)
      exact ⟨flat, hflat, by simp [hrelative, hlisted]⟩
    | absoluteDimension habsolute _ => simp [hrelative] at habsolute
    | absoluteVariable habsolute _ _ => simp [hrelative] at habsolute
    | missing habsolute _ _ _ => simp [hrelative] at habsolute
  | absolute habsolute hno hknown =>
    cases hkey with
    | absoluteVariable _ _ hflat => exact ⟨text, hflat, by simp [habsolute]⟩
    | absoluteDimension _ hdim =>
      rw [hno] at hdim
      cases hdim
    -- not missing, since the variable is known
    | missing _ _ _ hnone =>
      obtain ⟨flat, hflat⟩ := hknown
      rw [hnone] at hflat
      cases hflat
    | dimension hrelative _ _ => simp [habsolute] at hrelative
    | scalar hrelative _ _ _ _ => simp [habsolute] at hrelative
    | standardName hrelative _ _ => simp [habsolute] at hrelative

end ReferenceSite

namespace Flatten

open Hierarchy (FindsVariable)
open ReferenceSite (RestrictedKey SpelledKey)

/-- The name table of a snapshot has the flat name of a variable under its path. -/
theorem find?_variableName {input : Dataset} (hinput : input.WellFormed)
    (hproper : input.HasProperNames) {limit : Nat} {h : Hierarchy}
    (hsnapshot : Hierarchy.ofDataset input limit = .ok h) {e : String × Dataset.Variable}
    (he : e ∈ groupVariables input) :
    (NameTable.ofHierarchy h).vars.find? (join e.1 e.2.name) = some (variableName e) := by
  have hobject : (e.1, e.2.name) ∈ input.objects .var := by
    rw [objects_var]
    exact List.mem_map_of_mem (f := fun e : String × Dataset.Variable => (e.1, e.2.name)) he
  obtain ⟨flat, hflat⟩ :=
    NameTable.exists_find?_of_mem_objects hinput hproper.groups hsnapshot hobject
  obtain ⟨o, ho, hpath, rfl⟩ :=
    NameTable.exists_object_of_ofKind hinput hproper.groups hsnapshot .var hflat
  -- the path is that of no other variable
  rw [objects_var] at ho
  obtain ⟨e', he', rfl⟩ := List.mem_map.mp ho
  obtain rfl := variable_eq_of_join_eq hinput hproper he he' hpath
  exact hflat

/-- A variable of the dataset without dimensions is one of the snapshot without dimensions. -/
theorem exists_rank_eq_zero {input : Dataset} (hinput : input.WellFormed)
    (hproper : input.HasProperNames) {limit : Nat} {h : Hierarchy}
    (hsnapshot : Hierarchy.ofDataset input limit = .ok h) {e : String × Dataset.Variable}
    (he : e ∈ groupVariables input) (hscalar : e.2.dimensions = []) :
    ∃ target, h.findVariable? (join e.1 e.2.name) = some target ∧ target.rank = 0 := by
  obtain ⟨id, hid, hplace, hv⟩ := Dataset.mem_located.mp he
  have hlt := hinput.mem_groupIds_iff.mp hid
  obtain ⟨target, htarget⟩ := Hierarchy.exists_findVariable? hinput hproper hsnapshot hlt hv
  have hsurveyed :=
    Hierarchy.surveyedVariable_of_findVariable? hinput hproper hsnapshot hlt hv htarget
  refine ⟨target, hplace ▸ htarget, ?_⟩
  -- the node has the dimensions of the variable, of which there are none
  rw [Hierarchy.Variable.rank, hsurveyed.dimensions, hscalar]
  rfl

/-- Whatever is flattened, a run that succeeds replaces a key that designates a variable without
dimensions by the flat name of the variable just when the key is an absolute path or spelled as one
of the coordinates of the referring variable. Between datasets in memory whose names are proper, the
copy has the attribute like this in the end. -/
theorem spelled_of_flatten (settings : Settings) :
    (∀ (ι σ : Type) [Readable ι] [Writable σ] (input : ι) (output output' : σ) (report : Report),
      flatten input settings output = .ok report output' →
      ∃ h, Hierarchy.ofDataset input settings.depthLimit = .ok h ∧
        ∀ g ∈ h.groups.labels, ∀ infos, Readable.variableInfos input g.path = .ok infos →
        ∀ info ∈ infos, ∀ attributes,
          Readable.variableAttributes input (join g.path info.name) = .ok attributes →
        ∀ entry ∈ attributes, ∀ rule, ReferenceRule.forAttribute? entry.1 = some rule →
          rule.onlyScalarCoordinates = true →
        ∃ node value references replaced before after,
          h.findVariable? (join g.path info.name) = some node ∧
          Hierarchy.surveyCoordinates input node.path = .ok node.coordinates ∧
          entry.2.referenceText entry.1 = .ok value ∧
          References.ofAttribute entry.1 value = .ok references ∧
          references.Rewritten true false (fun token text => ∀ path target,
            FindsVariable h rule node token path → h.findVariable? path = some target →
            target.rank = 0 → ∃ flat, (NameTable.ofHierarchy h).vars.find? path = some flat ∧
              SpelledKey node token flat text) replaced ∧
          Written output before ∧
          Writable.setVariableAttribute (join ObjectPath.root (flatName g.path info.name)) entry.1
            (.text replaced.text) before = .ok () after ∧
          Written after output') ∧
    ∀ (input output output' : Dataset) (report : Report), input.Reachable →
      input.HasProperNames → output.Reachable → flatten input settings output = .ok report output' →
      ∃ h, Hierarchy.ofDataset input settings.depthLimit = .ok h ∧
        ∀ e ∈ groupVariables input, ∀ entry ∈ e.2.attributes, ∀ rule,
          ReferenceRule.forAttribute? entry.1 = some rule → rule.onlyScalarCoordinates = true →
        ∃ node value references replaced,
          Hierarchy.SurveyedVariable input e.1 node.group e.2 node ∧
          entry.2.referenceText entry.1 = .ok value ∧
          References.ofAttribute entry.1 value = .ok references ∧
          references.Rewritten true false (fun token text => ∀ x ∈ groupVariables input,
            x.2.dimensions = [] → FindsVariable h rule node token (join x.1 x.2.name) →
            SpelledKey node token (variableName x) text) replaced ∧
          output'.variableAttribute? (join ObjectPath.root (variableName e)) entry.1 =
            some (.text replaced.text) := by
  refine ⟨?_, ?_⟩
  · intro ι σ _ _ input output output' report hrun
    obtain ⟨h, hsnapshot, hall⟩ := replaces_of_flatten hrun
    refine ⟨h, hsnapshot, fun g hg infos hinfos info hinfo attributes hattributes entry hentry rule
      hrule honly => ?_⟩
    obtain ⟨value, hvalue, hnode, hsettle, hreplace, hbefore, hset, hafter⟩ :=
      hall g hg infos hinfos info hinfo attributes hattributes entry hentry rule hrule
    obtain ⟨references, replaced, hreferences, hrewritten, rfl⟩ :=
      ReferenceSite.restricted_of_settle hsnapshot hrule honly hsettle hreplace
    obtain ⟨_, _, _, -, -, hlisted⟩ := Hierarchy.listed_of_findVariable? hsnapshot hnode
    refine ⟨_, value, references, replaced, _, _, hnode, hlisted.coordinates, hvalue, hreferences,
      ?_, hbefore, hset, hafter⟩
    refine hrewritten.imp_of_governed fun token _ text hkey path target hfinds htarget hscalar => ?_
    exact ReferenceSite.spelled_of_restrictedKey hsnapshot hkey hfinds htarget hscalar
  -- for datasets, in terms of their variables
  · intro input output output' report hinput hproper houtput hrun
    obtain ⟨h, hsnapshot, hall⟩ := replaced_of_flatten hinput hproper houtput hrun
    refine ⟨h, hsnapshot, fun e he entry hentry rule hrule honly => ?_⟩
    obtain ⟨node, value, settled, text, hsurveyed, hvalue, hsettle, hreplace, hset⟩ :=
      hall e he entry hentry rule hrule
    obtain ⟨references, replaced, hreferences, hrewritten, rfl⟩ :=
      ReferenceSite.restricted_of_settle hsnapshot hrule honly hsettle hreplace
    refine ⟨node, value, references, replaced, hsurveyed, hvalue, hreferences, ?_, hset⟩
    refine hrewritten.imp_of_governed fun token _ text hkey x hx hscalar hfinds => ?_
    obtain ⟨target, htarget, hrank⟩ :=
      exists_rank_eq_zero hinput.wellFormed hproper hsnapshot hx hscalar
    obtain ⟨flat, hflat, hspelled⟩ :=
      ReferenceSite.spelled_of_restrictedKey hsnapshot hkey hfinds htarget hrank
    rw [find?_variableName hinput.wellFormed hproper hsnapshot hx] at hflat
    exact Option.some.inj hflat ▸ hspelled

/-- A mast in a group. The height at which the wind is measured is given as a coordinate by its path
and named in the methods. -/
def mast : Dataset :=
  (Dataset.create "mast" true).applyAll
    [.group "/" "g",
      .variable "/g" ⟨"height", .double, [], none⟩,
      .variable "/g" ⟨"wind", .double, [], none⟩,
      .variableAttribute "/g/wind" "coordinates" (.text "/g/height"),
      .variableAttribute "/g/wind" "cell_methods" (.text "height: mean")]

theorem mast_reachable : mast.Reachable := (Dataset.Reachable.create "mast" true).applyAll _

theorem mast_hasProperNames : mast.HasProperNames := by decide +kernel

/-- The coordinates of the wind are flattened, its methods are as they were. -/
theorem exists_flatten_mast : ∃ report output,
    flatten mast {} (Dataset.create "flat" false) = .ok report output ∧
    output.variableAttribute? "/g__wind" "coordinates" = some (.text "g__height") ∧
    output.variableAttribute? "/g__wind" "cell_methods" = some (.text "height: mean") := by
  have hsucceeds : EStateM.succeedsWith (fun (_ : Report) (output : Dataset) =>
      decide (output.variableAttribute? "/g__wind" "coordinates" = some (.text "g__height") ∧
        output.variableAttribute? "/g__wind" "cell_methods" = some (.text "height: mean")))
      (flatten mast {} (Dataset.create "flat" false)) = true := by decide +kernel
  obtain ⟨report, output, hrun, hkept⟩ := EStateM.exists_of_succeedsWith _ hsucceeds
  exact ⟨report, output, hrun, of_decide_eq_true hkept⟩

/-- The methods of the wind are as the spelling says. -/
theorem mast_spelled : mast.Reachable ∧ mast.HasProperNames ∧
    (Dataset.create "flat" false).Reachable ∧
    ∃ report output, flatten mast {} (Dataset.create "flat" false) = .ok report output ∧
      (∃ h, Hierarchy.ofDataset mast ({} : Settings).depthLimit = .ok h ∧
        ∀ e ∈ groupVariables mast, ∀ entry ∈ e.2.attributes, ∀ rule,
          ReferenceRule.forAttribute? entry.1 = some rule → rule.onlyScalarCoordinates = true →
          ∃ node value references replaced,
            Hierarchy.SurveyedVariable mast e.1 node.group e.2 node ∧
            entry.2.referenceText entry.1 = .ok value ∧
            References.ofAttribute entry.1 value = .ok references ∧
            references.Rewritten true false (fun token text => ∀ x ∈ groupVariables mast,
              x.2.dimensions = [] → FindsVariable h rule node token (join x.1 x.2.name) →
              SpelledKey node token (variableName x) text) replaced ∧
            output.variableAttribute? (join ObjectPath.root (variableName e)) entry.1 =
              some (.text replaced.text)) ∧
      ∃ h, Hierarchy.ofDataset mast ({} : Settings).depthLimit = .ok h ∧
        ∀ g ∈ h.groups.labels, ∀ infos, Readable.variableInfos mast g.path = .ok infos →
        ∀ info ∈ infos, ∀ attributes,
          Readable.variableAttributes mast (join g.path info.name) = .ok attributes →
        ∀ entry ∈ attributes, ∀ rule, ReferenceRule.forAttribute? entry.1 = some rule →
          rule.onlyScalarCoordinates = true →
          ∃ node, h.findVariable? (join g.path info.name) = some node ∧
            Hierarchy.surveyCoordinates mast node.path = .ok node.coordinates := by
  have hflat : (Dataset.create "flat" false).Reachable := .create "flat" false
  obtain ⟨report, output, hrun, -⟩ := exists_flatten_mast
  obtain ⟨hany, hmemory⟩ := spelled_of_flatten {}
  obtain ⟨h, hsnapshot, hall⟩ := hany Dataset Dataset mast _ output report hrun
  refine ⟨mast_reachable, mast_hasProperNames, hflat, report, output, hrun,
    hmemory mast _ output report mast_reachable mast_hasProperNames hflat hrun, h, hsnapshot, ?_⟩
  intro g hg infos hinfos info hinfo attributes hattributes entry hentry rule hrule honly
  obtain ⟨node, -, -, -, -, -, hnode, hcoordinates, -⟩ :=
    hall g hg infos hinfos info hinfo attributes hattributes entry hentry rule hrule honly
  exact ⟨node, hnode, hcoordinates⟩

/-- The coordinates and the methods of the wind designate the same variable without dimensions, but
only the coordinates follow it to its flat name. -/
theorem mast_height_kept : mast.Reachable ∧ mast.HasProperNames ∧
    (∃ h node target coordinates methods,
      Hierarchy.ofDataset mast ({} : Settings).depthLimit = .ok h ∧
      h.findVariable? "/g/wind" = some node ∧ h.findVariable? "/g/height" = some target ∧
      target.rank = 0 ∧ ReferenceRule.forAttribute? "coordinates" = some coordinates ∧
      h.resolve coordinates node "/g/height" = .ok (.object "/g/height" .var) ∧
      ReferenceRule.forAttribute? "cell_methods" = some methods ∧
      FindsVariable h methods node "height" "/g/height") ∧
    ∃ report output, flatten mast {} (Dataset.create "flat" false) = .ok report output ∧
      output.variableAttribute? "/g__wind" "coordinates" = some (.text "g__height") ∧
      output.variableAttribute? "/g__wind" "cell_methods" = some (.text "height: mean") := by
  refine ⟨mast_reachable, mast_hasProperNames, ?_, exists_flatten_mast⟩
  have hdesignated : (Hierarchy.ofDataset mast ({} : Settings).depthLimit).toOption.any (fun h =>
      (h.findVariable? "/g/wind").any fun node =>
      (h.findVariable? "/g/height").any fun target =>
      (ReferenceRule.forAttribute? "coordinates").any fun coordinates =>
      (ReferenceRule.forAttribute? "cell_methods").any fun methods =>
        decide ((h.resolve coordinates node "/g/height").toOption =
            some (.object "/g/height" .var) ∧
          h.lookup methods node .dim "height" = .missing ∧
          h.lookup methods node .var "height" = .found "/g/height" ∧ target.rank = 0)) = true := by
    decide +kernel
  simp only [Option.any_eq_true, decide_eq_true_eq, Except.toOption_eq_some_iff] at hdesignated
  obtain ⟨h, hh, node, hnode, target, htarget, coordinates, hcoordinates, methods, hmethods,
    hresolve, hdim, hvar, hrank⟩ := hdesignated
  exact ⟨h, node, target, coordinates, methods, hh, hnode, htarget, hrank, hcoordinates, hresolve,
    hmethods, .searched (by decide +kernel) (by simp [hdim]) hvar⟩

end Flatten

end GroupFlattening
