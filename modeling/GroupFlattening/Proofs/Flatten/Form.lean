import GroupFlattening.Proofs.Flatten.ScalarCoordinates
import GroupFlattening.Proofs.Reference.Form

/-!
# The Form of Copied References

Flat names are put into a value as they are, whatever the names of the groups above an object
consist of. What is put in for a token is a token again, or else the flat name of an object that was
searched for and whose group has a path with a character that no token has (`PutFor`). So a copied
attribute is read in the form of the original just when the flat names that were put into it happen
to be legible there (`form_of_flatten`), as they are if the paths of all groups are.
-/

namespace GroupFlattening

open ObjectPath (join)
open References (IsToken isIdentifierChar)

namespace References

theorem isToken_placeholder {token : String} (h : IsToken token) : IsToken (placeholder token) := by
  rw [isToken_iff] at h ⊢
  have hown : "REF_NOT_FOUND_".toList.all isIdentifierChar = true := by decide +kernel
  refine ⟨by simp [placeholder, ← String.toList_eq_nil_iff], fun c hc => ?_⟩
  rw [placeholder, String.toList_append] at hc
  exact (List.mem_append.mp hc).elim (List.all_eq_true.mp hown c) (h.2 c)

/-- What a token ends with is a token. -/
theorem IsToken.of_suffix {token text : String} (h : IsToken token) (hne : text ≠ "")
    (hsuffix : text.toList <:+ token.toList) : IsToken text :=
  ⟨hne, fun c hc => h.2 c (hsuffix.subset hc)⟩

end References

namespace Flatten

/-- What is put in for a token when a dataset is flattened. -/
inductive PutFor (input : Dataset) (token : String) : String → Prop
  /-- A standard name stays as it is. -/
  | standardName : PutFor input token token
  /-- Nothing that has a flat name is designated. -/
  | placeholder : PutFor input token (placeholder token)
  /-- The flat name of an object, which is a token. -/
  | legible {kind : ObjectKind} {o : String × String} : o ∈ input.objects kind →
      IsToken (flatName o.1 o.2) → PutFor input token (flatName o.1 o.2)
  /-- The flat name of an object that was searched for, with a character from the path of its group
  that no token has. -/
  | illegible {kind : ObjectKind} {o : String × String} {c : Char} : o ∈ input.objects kind →
      ObjectPath.isAbsolute token = false → IsToken o.2 →
      (FlatName.joined o.1 o.2).length < FlatName.lengthLimit → c ∈ o.1.toList →
      isIdentifierChar c = false → PutFor input token (flatName o.1 o.2)

/-- Whether the paths of groups that have objects consist of characters of tokens. -/
def HasLegiblePaths (d : Dataset) : Prop :=
  ∀ kind, ∀ o ∈ d.objects kind, ∀ c ∈ o.1.toList, isIdentifierChar c = true

theorem PutFor.isToken {input : Dataset} {token text : String} (h : PutFor input token text)
    (hlegible : HasLegiblePaths input) (htoken : IsToken token) : IsToken text := by
  cases h with
  | standardName => exact htoken
  | placeholder => exact References.isToken_placeholder htoken
  | legible _ hflat => exact hflat
  | @illegible kind o c ho _ _ _ hc hbad =>
    rw [hlegible kind o ho c hc] at hbad
    cases hbad

section Put

variable {input : Dataset} (hinput : input.WellFormed) (hproper : input.HasProperNames)

include hinput hproper

variable {h : Hierarchy} {limit : Nat} (hsnapshot : Hierarchy.ofDataset input limit = .ok h)
  {rule : ReferenceRule} {v : Hierarchy.Variable} {token path flat : String} {kind : ObjectKind}

include hsnapshot

/-- The flat name of what a token designates is that of an object whose name the token ends with. -/
theorem putFor_of_object (htoken : IsToken token)
    (hresolve : h.resolve rule v token = .ok (.object path kind)) {both : Bool}
    (hfind : (NameTable.ofHierarchy h).find? path kind both = some flat) :
    PutFor input token flat := by
  obtain ⟨supplier, hsupplier⟩ :
      ∃ supplier, ((NameTable.ofHierarchy h).ofKind supplier).find? path = some flat :=
    (NameTable.find?_eq_some_iff.mp hfind).elim (fun hown => ⟨_, hown⟩)
      (fun hother => ⟨_, hother.2.2⟩)
  -- the name belongs to an object of the input, at the path that was found
  obtain ⟨o, ho, hpath, rfl⟩ :=
    NameTable.exists_object_of_ofKind hinput hproper.groups hsnapshot supplier hsupplier
  have hname := Dataset.isName_of_mem_objects hinput ho hproper
  rcases Hierarchy.absolute_or_found_of_resolve hresolve with
    ⟨habsolute, rfl⟩ | ⟨hrelative, hfound⟩
  · -- an absolute path holds the path of the group too
    have hlist := (congrArg String.toList hpath).trans (ObjectPath.toList_join o.1 o.2)
    have hbase : IsToken o.2 := htoken.of_suffix hname.1 ⟨_, by rw [hlist, List.append_cons]⟩
    refine .legible ho ((References.isToken_flatName_iff hbase).mpr ?_)
    -- a root name is the base name alone
    by_cases hroot : ObjectPath.isRoot o.1 = true
    · exact Or.inl hroot
    · refine Or.inr (Or.inr fun c hc => (References.isToken_iff.mp htoken).2 c ?_)
      rw [hlist, if_neg hroot]
      exact List.mem_append_left _ hc
  -- a relative path that was searched for ends in the name of the object
  · obtain ⟨id, name, -, hfoundPath, hsuffix⟩ := Hierarchy.exists_defines_of_lookup hfound
    have hbase : IsToken o.2 := htoken.of_suffix hname.1
      ((ObjectPath.suffix_of_join_eq hname.2 (hpath.symm.trans hfoundPath)).trans hsuffix)
    by_cases hflat : IsToken (flatName o.1 o.2)
    · exact .legible ho hflat
    -- only a short name can show a character of its group that no token has
    · have hnot := mt (References.isToken_flatName_iff hbase).mpr hflat
      push Not at hnot
      obtain ⟨-, hshort, c, hc, hbad⟩ := hnot
      exact .illegible ho hrelative hbase hshort hc (Bool.eq_false_iff.mpr hbad)

/-- A value that is settled and replaced has for each governed token what is put in for it. -/
theorem putFor_of_replaceAll {site : ReferenceSite} {lax : Bool} {value text : String}
    {settled : ReferenceSite.Settled} (hsettle : site.settle h v lax value = .ok settled)
    (hreplace : site.replaceAll (.ofHierarchy h) lax settled.references settled.resolutions =
      .ok text) :
    ∃ references replaced, References.ofText? value = some references ∧
      references.Rewritten site.rule.resolvesKeys site.rule.resolvesValues
        (fun token text => IsToken token ∧ PutFor input token text) replaced ∧
      text = replaced.text := by
  obtain ⟨replaced, hreferences, hrewritten, rfl⟩ :=
    ReferenceSite.rewritten_of_replaceAll hsettle hreplace
  have hread := References.ofAttribute_eq_ok_iff.mp hreferences
  refine ⟨settled.references, replaced, hread, ?_, rfl⟩
  -- every word that is replaced is a token of the text that was read
  refine hrewritten.imp_of_governed fun token hgoverned text hsettledAs => ?_
  have htoken : IsToken token :=
    References.isToken_of_governed (References.wellFormed_of_ofText? hread).entries hgoverned
  refine ⟨htoken, ?_⟩
  obtain ⟨outcome, resolution, degraded, houtcome, hresolution, hlookup, htext⟩ := hsettledAs
  -- an object, a standard name that is left, or nothing that was found
  rcases ReferenceSite.settleOutcome_eq_ok hresolution with
    ⟨path, kind, rfl, rfl⟩ | ⟨-, rfl⟩ | ⟨-, rfl⟩
  · rcases ReferenceSite.replace_of_object hlookup htext with hfind | ⟨-, -, rfl⟩
    · exact putFor_of_object hinput hproper hsnapshot htoken houtcome hfind
    · exact .placeholder
  · simp only [ReferenceSite.replace, ReferenceSite.replacement?, hlookup] at htext
    exact Except.ok.inj htext ▸ .standardName
  · simp only [ReferenceSite.replace, ReferenceSite.replacement?, hlookup] at htext
    exact Except.ok.inj htext ▸ .placeholder

end Put

/-- A copy has attributes of the names that the original has. -/
theorem name_mem_of_flatten {input output output' : Dataset} {settings : Settings} {report : Report}
    (hinput : input.WellFormed) (hproper : input.HasProperNames) (houtput : output.WellFormed)
    (hrun : flatten input settings output = .ok report output') {e : String × Dataset.Variable}
    (he : e ∈ groupVariables input) {name : String} {value : AttributeValue}
    (hvalue : output'.variableAttribute? (join ObjectPath.root (variableName e)) name =
      some value) : name ∈ e.2.attributes.map (·.1) := by
  obtain ⟨h, g, -, hb, hp, rfl⟩ := progress_of_flatten hinput hproper houtput hrun
  obtain ⟨copy, hfind, hcopy⟩ := hp.exists_copy hb
    (Attributes.setAll g.attributes (provenanceEntries report.provenance)) hinput hproper he
  rw [Dataset.variableAttribute?, Dataset.variableAttributes_eq hfind] at hvalue
  have hmem := Attributes.mem_of_find? hvalue
  -- each attribute of the copy comes from one of the variable, under the same name
  obtain ⟨entry, hentry, hcopied⟩ := Forall₂.exists_left hcopy.attributes hmem
  have hname : entry.1 = name := by cases hcopied <;> rfl
  exact hname ▸ List.mem_map_of_mem ((fillFirst_perm e.2.attributes).mem_iff.mp hentry)

/-- A run between datasets in memory that succeeds leaves each governed attribute of a copy as a
text: that of the original value with what is put in for the governed tokens. The text is read in
the form of the original just when what was put in is legible there; if the paths of all groups with
objects are legible, it is, and its entries are those that were put in. A copy has no governed
attributes but those of its original. -/
theorem form_of_flatten {input output output' : Dataset} {settings : Settings} {report : Report}
    (hinput : input.Reachable) (hproper : input.HasProperNames) (houtput : output.Reachable)
    (hrun : flatten input settings output = .ok report output') :
    ∀ e ∈ groupVariables input,
      (∀ name value, output'.variableAttribute? (join ObjectPath.root (variableName e)) name =
        some value → name ∈ e.2.attributes.map (·.1)) ∧
      ∀ entry ∈ e.2.attributes, ∀ rule, ReferenceRule.forAttribute? entry.1 = some rule →
        ∃ value references replaced, entry.2.referenceText entry.1 = .ok value ∧
          References.ofText? value = some references ∧
          references.Rewritten rule.resolvesKeys rule.resolvesValues
            (fun token text => IsToken token ∧ PutFor input token text) replaced ∧
          output'.variableAttribute? (join ObjectPath.root (variableName e)) entry.1 =
            some (.text replaced.text) ∧
          (References.formOf? replaced.text = some references.form ↔ replaced.IsLegible) ∧
          (HasLegiblePaths input → References.formOf? replaced.text = some references.form ∧
            References.ofText? replaced.text = some (References.ofList replaced.entries)) := by
  obtain ⟨h, hsnapshot, hall⟩ := replaced_of_flatten hinput hproper houtput hrun
  refine fun e he => ⟨fun name value => name_mem_of_flatten hinput.wellFormed hproper
    houtput.wellFormed hrun he, fun entry hentry rule hrule => ?_⟩
  obtain ⟨node, value, settled, text, -, hvalue, hsettle, hreplace, hset⟩ :=
    hall e he entry hentry rule hrule
  obtain ⟨references, replaced, hread, hrewritten, rfl⟩ :=
    putFor_of_replaceAll hinput.wellFormed hproper hsnapshot hsettle hreplace
  have hwellFormed := References.wellFormed_of_ofText? hread
  have huniform : replaced.IsUniform := hrewritten.isUniform hwellFormed.form
  refine ⟨value, references, replaced, hvalue, hread, hrewritten, hset, ?_, fun hlegible => ?_⟩
  -- in general the form is read back exactly where the text is legible
  · rw [← hrewritten.form_eq]
    exact References.formOf?_text_iff huniform
  -- with legible group names every flat name is a token again
  · have hentries := hrewritten.entryWellFormed
      (fun token text hput => hput.2.isToken hlegible hput.1) hwellFormed.entries
    rw [← hrewritten.form_eq]
    exact ⟨References.formOf?_text_of_entryWellFormed huniform hentries,
      References.ofText?_text_eq hentries huniform⟩

/-- The groups of the station have legible names, so the coordinates of the wind stay a list. -/
theorem station_form_kept : station.Reachable ∧ station.HasProperNames ∧ archive.Reachable ∧
    HasLegiblePaths station ∧
    ∃ report output, flatten station {} archive = .ok report output ∧
      References.formOf? "site__height time" = some .list ∧
      output.variableAttribute? "/site__wind" "coordinates" = some (.text "site__height time") ∧
      ∀ e ∈ groupVariables station, ∀ entry ∈ e.2.attributes, ∀ rule,
        ReferenceRule.forAttribute? entry.1 = some rule →
        ∃ value references replaced, entry.2.referenceText entry.1 = .ok value ∧
          References.ofText? value = some references ∧
          references.Rewritten rule.resolvesKeys rule.resolvesValues
            (fun token text => IsToken token ∧ PutFor station token text) replaced ∧
          output.variableAttribute? (join ObjectPath.root (variableName e)) entry.1 =
            some (.text replaced.text) ∧
          References.formOf? replaced.text = some references.form := by
  have hall : ([ObjectKind.dim, .var].all fun kind => (station.objects kind).all fun o =>
      o.1.toList.all isIdentifierChar) = true := by decide +kernel
  -- the paths of its dimensions and variables are letters and separators
  have hlegible : HasLegiblePaths station := by
    intro kind o ho c hc
    have hkind := List.all_eq_true.mp hall kind (by cases kind <;> simp)
    exact List.all_eq_true.mp (List.all_eq_true.mp hkind o ho) c hc
  have hsucceeds : EStateM.succeedsWith (fun (_ : Report) (output : Dataset) =>
      decide (output.variableAttribute? "/site__wind" "coordinates" =
        some (.text "site__height time")))
      (flatten station {} archive) = true := by decide +kernel
  obtain ⟨report, output, hrun, hcoordinates⟩ := EStateM.exists_of_succeedsWith _ hsucceeds
  refine ⟨station_reachable, station_hasProperNames, archive_reachable, hlegible, report, output,
    hrun, by decide +kernel, of_decide_eq_true hcoordinates, fun e he entry hentry rule hrule => ?_⟩
  obtain ⟨value, references, replaced, hvalue, hread, hrewritten, hset, -, hform⟩ :=
    (form_of_flatten station_reachable station_hasProperNames archive_reachable hrun e he).2
      entry hentry rule hrule
  exact ⟨value, references, replaced, hvalue, hread, hrewritten, hset, (hform hlegible).1⟩

/-- A buoy in a group whose name has a hyphen. -/
def buoy : Dataset :=
  (Dataset.create "buoy" true).applyAll
    [.group "/" "north-sea",
      .variable "/north-sea" ⟨"lat", .double, [], none⟩,
      .variable "/north-sea" ⟨"waves", .double, [], none⟩,
      .variableAttribute "/north-sea/waves" "coordinates" (.text "lat")]

/-- The coordinates of the waves were a list; what they have become is not read at all. -/
theorem buoy_coordinates_unread : buoy.Reachable ∧ buoy.HasProperNames ∧
    ReferenceRule.forAttribute? "coordinates" ≠ none ∧
    References.formOf? "lat" = some .list ∧
    ∃ report output, flatten buoy {} (Dataset.create "flat" false) = .ok report output ∧
      output.variableAttribute? "/north-sea__waves" "coordinates" =
        some (.text "north-sea__lat") ∧
      References.ofText? "north-sea__lat" = none := by
  have hsucceeds : EStateM.succeedsWith (fun (_ : Report) (output : Dataset) =>
      decide (output.variableAttribute? "/north-sea__waves" "coordinates" =
        some (.text "north-sea__lat")))
      (flatten buoy {} (Dataset.create "flat" false)) = true := by decide +kernel
  obtain ⟨report, output, hrun, hcoordinates⟩ := EStateM.exists_of_succeedsWith _ hsucceeds
  have hproper : buoy.HasProperNames := by decide +kernel
  exact ⟨(Dataset.Reachable.create "buoy" true).applyAll _, hproper, by decide +kernel,
    by decide +kernel, report, output, hrun, of_decide_eq_true hcoordinates, by decide +kernel⟩

end Flatten

end GroupFlattening
