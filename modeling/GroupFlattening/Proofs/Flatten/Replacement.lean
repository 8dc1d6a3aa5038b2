import GroupFlattening.Flatten.Replacement
import GroupFlattening.Proofs.NameTable
import GroupFlattening.Proofs.Reference.References

/-!
# What Takes the Place of Tokens

Settling a value resolves every governed token once and remembers the answer, so that looking a
token up later gives what it was resolved to (`settle_ok`). What takes the place of a token depends
on that alone (`rewritten_of_replaceAll`). In strict mode no placeholder is ever put in: it is the
token itself, if it is a standard name, or the flat name of the object that it designates
(`rewritten_of_settle`).
-/

namespace GroupFlattening.ReferenceSite

variable {site : ReferenceSite} {h : Hierarchy} {v : Hierarchy.Variable} {names : NameTable}

/-- What takes the place of a token in strict mode. -/
inductive Designated (h : Hierarchy) (names : NameTable) (rule : ReferenceRule)
    (v : Hierarchy.Variable) (token : String) : String → Prop
  | standardName : h.resolve rule v token = .ok .standardName →
      Designated h names rule v token token
  | object {path flat : String} {kind : ObjectKind} :
      h.resolve rule v token = .ok (.object path kind) →
      names.find? path kind rule.allowsBoth = some flat → Designated h names rule v token flat

/-- A token is settled by an object, as a standard name, or in lax mode by a placeholder. -/
theorem settleOutcome_eq_ok {lax : Bool} {token : String} {outcome : Outcome}
    {resolution : Resolution} {degraded : Option DegradedReference}
    (hsettle : site.settleOutcome lax token outcome = .ok (resolution, degraded)) :
    (∃ path kind, outcome = .object path kind ∧ resolution = .object path kind) ∨
      (outcome = .standardName ∧ resolution = .standardName) ∨
      lax = true ∧ resolution = .placeholder (placeholder token) := by
  -- an undecided token succeeds in lax mode only, and gets a placeholder
  have hdegrade : ∀ candidates, site.degrade lax token candidates = .ok (resolution, degraded) →
      lax = true ∧ resolution = .placeholder (placeholder token) := by
    intro candidates hdegrade
    cases lax with
    | false => cases hdegrade
    | true =>
      cases hdegrade
      exact ⟨rfl, rfl⟩
  cases outcome with
  | object path kind =>
    cases hsettle
    exact Or.inl ⟨path, kind, rfl, rfl⟩
  | standardName =>
    cases hsettle
    exact Or.inr (Or.inl ⟨rfl, rfl⟩)
  | unresolved => exact Or.inr (Or.inr (hdegrade [] hsettle))
  | ambiguous candidates => exact Or.inr (Or.inr (hdegrade candidates hsettle))

/-- In strict mode a token is settled only by an object or as a standard name. -/
theorem settleOutcome_strict {token : String} {outcome : Outcome} {resolution : Resolution}
    {degraded : Option DegradedReference}
    (hsettle : site.settleOutcome false token outcome = .ok (resolution, degraded)) :
    (∃ path kind, outcome = .object path kind ∧ resolution = .object path kind) ∨
      outcome = .standardName ∧ resolution = .standardName := by
  rcases settleOutcome_eq_ok hsettle with hobject | hstandard | ⟨hlax, -⟩
  · exact Or.inl hobject
  · exact Or.inr hstandard
  · cases hlax

/-- What settling a value comes to: an entry for each of its governed tokens, taken once. -/
theorem entries_of_settle {lax : Bool} {value : String} {settled : Settled}
    (hsettle : site.settle h v lax value = .ok settled) :
    References.ofAttribute site.name value = .ok settled.references ∧
      ∃ entries, List.Forall₂ (fun token entry => ∃ outcome resolution degraded,
          h.resolve site.rule v token = .ok outcome ∧
          site.settleOutcome lax token outcome = .ok (resolution, degraded) ∧
          entry = (token, resolution, degraded))
          (site.tokens settled.references).eraseDups entries ∧
        settled.resolutions = entries.map (fun entry => (entry.1, entry.2.1)) ∧
        settled.degraded = entries.filterMap fun entry => entry.2.2 := by
  obtain ⟨references, hreferences, hrest⟩ := Except.bind_eq_ok_iff.mp hsettle
  obtain ⟨entries, hentries, hpure⟩ := Except.bind_eq_ok_iff.mp hrest
  obtain rfl := Except.pure_eq_ok_iff.mp hpure
  refine ⟨hreferences, entries, ?_, rfl, rfl⟩
  refine (Except.mapM_eq_ok_iff.mp hentries).imp fun token entry hentry => ?_
  obtain ⟨outcome, houtcome, hrest⟩ := Except.bind_eq_ok_iff.mp hentry
  obtain ⟨⟨resolution, degraded⟩, hresolution, hpure⟩ := Except.bind_eq_ok_iff.mp hrest
  exact ⟨outcome, resolution, degraded, houtcome, hresolution,
    (Except.pure_eq_ok_iff.mp hpure).symm⟩

/-- A settled value is the one that was read, and every governed token is found with what it was
resolved to. -/
theorem settle_ok {lax : Bool} {value : String} {settled : Settled}
    (hsettle : site.settle h v lax value = .ok settled) :
    References.ofAttribute site.name value = .ok settled.references ∧
      ∀ token ∈ site.tokens settled.references, ∃ outcome resolution degraded,
        h.resolve site.rule v token = .ok outcome ∧
        site.settleOutcome lax token outcome = .ok (resolution, degraded) ∧
        settled.resolutions.lookup token = some resolution := by
  obtain ⟨hreferences, entries, hentries, hresolutions, -⟩ := entries_of_settle hsettle
  refine ⟨hreferences, fun token htoken => ?_⟩
  rw [hresolutions]
  -- the token has an entry, and every entry for it holds what it was resolved to
  obtain ⟨entry, hmem, -, resolution, degraded, -, -, rfl⟩ :=
    Forall₂.exists_right hentries (List.mem_eraseDups.mpr htoken)
  obtain ⟨found, hfound⟩ : ∃ found,
      (entries.map fun entry => (entry.1, entry.2.1)).lookup token = some found := by
    rw [← Option.isSome_iff_exists, List.lookup_isSome_iff]
    exact ⟨(token, resolution), List.mem_map.mpr ⟨_, hmem, rfl⟩, by simp⟩
  obtain ⟨before, after, heq, -⟩ := List.lookup_eq_some_iff.mp hfound
  have hmem' : (token, found) ∈ entries.map fun entry => (entry.1, entry.2.1) := by simp [heq]
  obtain ⟨entry, hentry, hpair⟩ := List.mem_map.mp hmem'
  obtain ⟨token', -, outcome, resolution', degraded', houtcome, hresolution, rfl⟩ :=
    Forall₂.exists_left hentries hentry
  obtain ⟨rfl, rfl⟩ := Prod.mk.inj hpair
  exact ⟨outcome, resolution', degraded', houtcome, hresolution, hfound⟩

/-- A search for what a token designates has failed, and the candidates are those among which it
could not choose. -/
def Undecided (h : Hierarchy) (rule : ReferenceRule) (v : Hierarchy.Variable) (token : String)
    (candidates : List String) : Prop :=
  h.resolve rule v token = .ok .unresolved ∧ candidates = [] ∨
    h.resolve rule v token = .ok (.ambiguous candidates)

/-- What is reported of a settled value are tokens of it for which the search has failed. -/
theorem undecided_of_mem_degraded {lax : Bool} {value : String} {settled : Settled}
    (hsettle : site.settle h v lax value = .ok settled) {r : DegradedReference}
    (hr : r ∈ settled.degraded) :
    r.owner = site.owner ∧ r.name = site.name ∧
      Undecided h site.rule v r.reference r.candidates := by
  obtain ⟨-, entries, hentries, -, hdegraded⟩ := entries_of_settle hsettle
  rw [hdegraded] at hr
  obtain ⟨entry, hentry, hsome⟩ := List.mem_filterMap.mp hr
  obtain ⟨token, -, outcome, resolution, degraded, houtcome, hresolution, rfl⟩ :=
    Forall₂.exists_left hentries hentry
  obtain rfl : degraded = some r := hsome
  -- only an undecided outcome leaves a trace, and only in lax mode
  cases outcome with
  | object => cases hresolution
  | standardName => cases hresolution
  | unresolved =>
    cases lax
    · cases hresolution
    · cases hresolution
      exact ⟨rfl, rfl, Or.inl ⟨houtcome, rfl⟩⟩
  | ambiguous candidates =>
    cases lax
    · cases hresolution
    · cases hresolution
      exact ⟨rfl, rfl, Or.inr houtcome⟩

/-- A token for an object is replaced by a flat name, or else by a placeholder in lax mode. -/
theorem replace_of_object {site : ReferenceSite} {names : NameTable} {lax : Bool}
    {resolutions : List (String × Resolution)} {token path text : String} {kind : ObjectKind}
    (hlookup : resolutions.lookup token = some (.object path kind))
    (hreplace : site.replace names lax resolutions token = .ok text) :
    names.find? path kind site.rule.allowsBoth = some text ∨
      names.find? path kind site.rule.allowsBoth = none ∧ lax = true ∧
        text = placeholder token := by
  unfold replace replacement? at hreplace
  simp only [hlookup] at hreplace
  cases hfind : names.find? path kind site.rule.allowsBoth with
  | some flat =>
    rw [hfind] at hreplace
    exact Or.inl (congrArg some (Except.ok.inj hreplace))
  | none =>
    -- without a name the strict mode fails
    simp only [hfind] at hreplace
    split at hreplace
    · next hlax => exact Or.inr ⟨rfl, hlax, (Except.ok.inj hreplace).symm⟩
    · cases hreplace

/-- A value that is settled and replaced has in place of each governed token what this token,
settled as it was, is replaced by, and nothing else is changed. -/
theorem rewritten_of_replaceAll {lax : Bool} {value text : String} {settled : Settled}
    (hsettle : site.settle h v lax value = .ok settled)
    (hreplace : site.replaceAll names lax settled.references settled.resolutions = .ok text) :
    ∃ replaced, References.ofAttribute site.name value = .ok settled.references ∧
      settled.references.Rewritten site.rule.resolvesKeys site.rule.resolvesValues
        (fun token text => ∃ outcome resolution degraded,
          h.resolve site.rule v token = .ok outcome ∧
          site.settleOutcome lax token outcome = .ok (resolution, degraded) ∧
          settled.resolutions.lookup token = some resolution ∧
          site.replace names lax settled.resolutions token = .ok text) replaced ∧
      text = replaced.text := by
  obtain ⟨hreferences, hsettled⟩ := settle_ok hsettle
  obtain ⟨replaced, hmapM, hpure⟩ := Except.bind_eq_ok_iff.mp hreplace
  obtain rfl := Except.pure_eq_ok_iff.mp hpure
  refine ⟨replaced, hreferences, ?_, rfl⟩
  -- every token that is replaced is governed, and was therefore settled
  refine (References.mapM_eq_ok_iff.mp hmapM).imp_of_governed fun token htoken flat hflat => ?_
  obtain ⟨outcome, resolution, degraded, houtcome, hresolution, hlookup⟩ := hsettled token htoken
  exact ⟨outcome, resolution, degraded, houtcome, hresolution, hlookup, hflat⟩

/-- In strict mode a value that is settled and replaced has what they designate in place of its
governed tokens, and nothing else is changed. -/
theorem rewritten_of_settle {value text : String} {settled : Settled}
    (hsettle : site.settle h v false value = .ok settled)
    (hreplace : site.replaceAll names false settled.references settled.resolutions = .ok text) :
    ∃ references replaced, References.ofAttribute site.name value = .ok references ∧
      references.Rewritten site.rule.resolvesKeys site.rule.resolvesValues
        (Designated h names site.rule v) replaced ∧
      text = replaced.text := by
  obtain ⟨replaced, hreferences, hrewritten, rfl⟩ := rewritten_of_replaceAll hsettle hreplace
  refine ⟨settled.references, replaced, hreferences, ?_, rfl⟩
  refine hrewritten.imp_of_governed fun token _ text hsettledAs => ?_
  obtain ⟨outcome, resolution, degraded, houtcome, hresolution, hlookup, htext⟩ := hsettledAs
  -- in strict mode there are no placeholders
  rcases settleOutcome_strict hresolution with ⟨path, kind, rfl, rfl⟩ | ⟨rfl, rfl⟩
  · rcases replace_of_object hlookup htext with hfind | ⟨-, hlax, -⟩
    · exact .object houtcome hfind
    · cases hlax
  · simp only [replace, replacement?, hlookup] at htext
    obtain rfl := Except.ok.inj htext
    exact .standardName houtcome

end GroupFlattening.ReferenceSite
