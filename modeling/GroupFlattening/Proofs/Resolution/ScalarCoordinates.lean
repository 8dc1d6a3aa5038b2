import GroupFlattening.Proofs.Flatten.Replacement
import GroupFlattening.Proofs.Resolution.Search

/-!
# Scalar Coordinates

A rule may say that a variable counts only if it has no dimensions and the token for it is listed
among the coordinates of the referring variable. `RestrictedKey` says for each form that a token can
take what takes its place. A bare name or a relative path keeps to the restriction, whichever search
finds the object and whichever table has its flat name. An absolute path does not: it is never
searched for, so it is replaced by the flat name of the dimension with this path or else of the
variable, and the variable may be any. That is all that happens to the tokens of a value
(`restricted_of_settle`).
-/

namespace GroupFlattening

/-! ## The rule -/

/-- What the rules have in common that count only scalar coordinates: they govern keys, search for
dimensions and then for variables, and leave what is not found as a standard name. -/
structure ReferenceRule.SearchesBoth (rule : ReferenceRule) : Prop where
  resolvesKeys : rule.resolvesKeys = true
  resolvesValues : rule.resolvesValues = false
  kinds : rule.kinds = [.dim, .var]
  primaryKind : rule.primaryKind = .dim
  allowsBoth : rule.allowsBoth = true
  acceptsStandardNames : rule.acceptsStandardNames = true

theorem ReferenceRule.searchesBoth {name : String} {rule : ReferenceRule}
    (hrule : forAttribute? name = some rule) (honly : rule.onlyScalarCoordinates = true) :
    rule.SearchesBoth := by
  have htable : ∀ rule ∈ table, rule.onlyScalarCoordinates = true →
      rule.resolvesKeys = true ∧ rule.resolvesValues = false ∧ rule.kinds = [.dim, .var] ∧
        rule.primaryKind = .dim ∧ rule.allowsBoth = true ∧ rule.acceptsStandardNames = true := by
    decide
  obtain ⟨hkeys, hvalues, hkinds, hprimary, hboth, hstandard⟩ :=
    htable rule (List.mem_of_find?_eq_some hrule) honly
  exact ⟨hkeys, hvalues, hkinds, hprimary, hboth, hstandard⟩

namespace Hierarchy

/-- What a token was found to be is a variable without dimensions, and the token is listed among the
coordinates of the referring variable. -/
structure IsScalarCoordinate (h : Hierarchy) (v : Variable) (token found : String) : Prop where
  listed : ∃ text references, v.coordinates = some text ∧
    References.ofAttribute coordinatesName text = .ok references ∧
    references.contains token = true
  scalar : ∃ target, h.findVariable? found = some target ∧ target.rank = 0

theorem isScalarCoordinate_eq_ok_iff {h : Hierarchy} {v : Variable} {token found : String}
    {answer : Bool} (hanswer : h.isScalarCoordinate v token found = .ok answer) :
    answer = true ↔ h.IsScalarCoordinate v token found := by
  unfold isScalarCoordinate at hanswer
  split at hanswer
  -- a variable without coordinates lists nothing
  · next hnone =>
    cases hanswer
    -- the same reading of the coordinates on both sides
    constructor
    · intro htrue
      cases htrue
    · rintro ⟨⟨text, references, hsome, -⟩, -⟩
      rw [hnone] at hsome
      cases hsome
  · next text hsome =>
    obtain ⟨references, hreferences, hpure⟩ := Except.bind_eq_ok_iff.mp hanswer
    obtain rfl := Except.pure_eq_ok_iff.mp hpure
    rw [Bool.and_eq_true, Option.any_eq_true]
    constructor
    · rintro ⟨hlisted, target, htarget, hrank⟩
      exact ⟨⟨text, references, hsome, hreferences, hlisted⟩, target, htarget, beq_iff_eq.mp hrank⟩
    · rintro ⟨⟨text', references', hsome', hreferences', hlisted⟩, target, htarget, hrank⟩
      rw [hsome] at hsome'
      cases hsome'
      rw [hreferences] at hreferences'
      cases hreferences'
      exact ⟨hlisted, target, htarget, beq_iff_eq.mpr hrank⟩

end Hierarchy

namespace ReferenceSite

open Hierarchy (IsScalarCoordinate)

/-- What takes the place of a token where only scalar coordinates count. -/
inductive RestrictedKey (h : Hierarchy) (names : NameTable) (rule : ReferenceRule)
    (v : Hierarchy.Variable) (lax : Bool) (token : String) : String → Prop
  /-- A bare name or a relative path of a dimension. -/
  | dimension {path flat : String} : ObjectPath.isAbsolute token = false →
      h.lookup rule v .dim token = .found path → names.dimensions.find? path = some flat →
      RestrictedKey h names rule v lax token flat
  /-- A bare name or a relative path of a scalar coordinate. -/
  | scalar {path flat : String} : ObjectPath.isAbsolute token = false →
      (∀ path, h.lookup rule v .dim token ≠ .found path) →
      h.lookup rule v .var token = .found path → h.IsScalarCoordinate v token path →
      names.vars.find? path = some flat → RestrictedKey h names rule v lax token flat
  /-- Any other bare name or relative path. -/
  | standardName : ObjectPath.isAbsolute token = false →
      (∀ path, h.lookup rule v .dim token ≠ .found path) →
      (∀ path, h.lookup rule v .var token = .found path → ¬ h.IsScalarCoordinate v token path) →
      RestrictedKey h names rule v lax token token
  /-- The path of a dimension. -/
  | absoluteDimension {flat : String} : ObjectPath.isAbsolute token = true →
      names.dimensions.find? token = some flat → RestrictedKey h names rule v lax token flat
  /-- The path of a variable, whether it is a scalar coordinate or not. -/
  | absoluteVariable {flat : String} : ObjectPath.isAbsolute token = true →
      names.dimensions.find? token = none → names.vars.find? token = some flat →
      RestrictedKey h names rule v lax token flat
  /-- The path of nothing. -/
  | missing : ObjectPath.isAbsolute token = true → lax = true →
      names.dimensions.find? token = none → names.vars.find? token = none →
      RestrictedKey h names rule v lax token (placeholder token)

section Resolve

variable {h : Hierarchy} {rule : ReferenceRule} {v : Hierarchy.Variable} {token : String}
  {outcome : Outcome} (honly : rule.onlyScalarCoordinates = true)
  (hstandard : rule.acceptsStandardNames = true)

include honly hstandard

/-- A token that is only searched for among variables is a scalar coordinate or a standard name. -/
theorem resolveAmong_var {ambiguous : Option (List String)}
    (hresolve : h.resolveAmong rule v token [.var] ambiguous = .ok outcome) :
    (∃ path, h.lookup rule v .var token = .found path ∧ h.IsScalarCoordinate v token path ∧
        outcome = .object path .var) ∨
      (∀ path, h.lookup rule v .var token = .found path → ¬ h.IsScalarCoordinate v token path) ∧
        outcome = .standardName := by
  -- under these rules what is missing is a standard name
  have hmissing : ∀ ambiguous, Hierarchy.outcomeOfMissing rule ambiguous = .standardName := by
    intro ambiguous
    unfold Hierarchy.outcomeOfMissing
    rw [if_pos hstandard]
  simp only [Hierarchy.resolveAmong, hmissing] at hresolve
  split at hresolve
  · next path hfound =>
    rw [if_pos ⟨honly, trivial⟩] at hresolve
    obtain ⟨answer, hanswer, hresolve⟩ := Except.bind_eq_ok_iff.mp hresolve
    have hiff := Hierarchy.isScalarCoordinate_eq_ok_iff hanswer
    split at hresolve
    · next htrue =>
      obtain rfl := Except.pure_eq_ok_iff.mp hresolve
      exact Or.inl ⟨path, hfound, hiff.mp htrue, rfl⟩
    · next hfalse =>
      obtain rfl := Except.pure_eq_ok_iff.mp hresolve
      refine Or.inr ⟨fun path' hfound' hscalar => hfalse (hiff.mpr ?_), rfl⟩
      rw [hfound] at hfound'
      cases hfound'
      exact hscalar
  -- an ambiguous name is a standard name too
  · next hfound =>
    exact Or.inr ⟨fun path h => by simp [hfound] at h, (Except.ok.inj hresolve).symm⟩
  · next hfound =>
    exact Or.inr ⟨fun path h => by simp [hfound] at h, (Except.ok.inj hresolve).symm⟩

/-- A token that is no absolute path is a dimension, or else a scalar coordinate, or else a standard
name. -/
theorem resolve_of_relative (hkinds : rule.kinds = [.dim, .var])
    (hrelative : ObjectPath.isAbsolute token = false)
    (hresolve : h.resolve rule v token = .ok outcome) :
    (∃ path, h.lookup rule v .dim token = .found path ∧ outcome = .object path .dim) ∨
      (∀ path, h.lookup rule v .dim token ≠ .found path) ∧
        ((∃ path, h.lookup rule v .var token = .found path ∧ h.IsScalarCoordinate v token path ∧
            outcome = .object path .var) ∨
          (∀ path, h.lookup rule v .var token = .found path →
            ¬ h.IsScalarCoordinate v token path) ∧ outcome = .standardName) := by
  rw [Hierarchy.resolve, hrelative, hkinds] at hresolve
  simp only [Bool.false_eq_true, if_false] at hresolve
  unfold Hierarchy.resolveAmong at hresolve
  split at hresolve
  · next path hfound =>
    rw [if_neg (by simp)] at hresolve
    exact Or.inl ⟨path, hfound, (Except.ok.inj hresolve).symm⟩
  -- the variables decide, whether there were several dimensions or none
  · next hfound =>
    exact Or.inr ⟨fun path h => by simp [hfound] at h, resolveAmong_var honly hstandard hresolve⟩
  · next hfound =>
    exact Or.inr ⟨fun path h => by simp [hfound] at h, resolveAmong_var honly hstandard hresolve⟩

end Resolve

/-! ## Values -/

/-- The flat name of an object of a snapshot is that of an object of its own kind. -/
theorem replace_of_lookup {σ : Type} [Readable σ] {dataset : σ} {limit : Nat} {h : Hierarchy}
    (hsnapshot : Hierarchy.ofDataset dataset limit = .ok h) {site : ReferenceSite}
    {v : Hierarchy.Variable} {lax : Bool} {resolutions : List (String × Resolution)}
    {token path text : String} {kind : ObjectKind}
    (hfound : h.lookup site.rule v kind token = .found path)
    (hlookup : resolutions.lookup token = some (.object path kind))
    (hreplace : site.replace (.ofHierarchy h) lax resolutions token = .ok text) :
    ((NameTable.ofHierarchy h).ofKind kind).find? path = some text := by
  obtain ⟨flat, hflat⟩ := Hierarchy.exists_find?_of_lookup hsnapshot hfound
  have hfind : (NameTable.ofHierarchy h).find? path kind site.rule.allowsBoth = some flat :=
    NameTable.find?_eq_some_iff.mpr (Or.inl hflat)
  rcases replace_of_object hlookup hreplace with hsome | ⟨hnone, -⟩
  · rw [hfind] at hsome
    rw [hflat, hsome]
  · rw [hfind] at hnone
    cases hnone

/-- A value of an attribute where only scalar coordinates count has its keys replaced as
`RestrictedKey` says, and nothing else is changed. -/
theorem restricted_of_settle {σ : Type} [Readable σ] {dataset : σ} {limit : Nat} {h : Hierarchy}
    (hsnapshot : Hierarchy.ofDataset dataset limit = .ok h) {site : ReferenceSite}
    {v : Hierarchy.Variable} {lax : Bool} {value text : String} {settled : Settled}
    (hrule : ReferenceRule.forAttribute? site.name = some site.rule)
    (honly : site.rule.onlyScalarCoordinates = true)
    (hsettle : site.settle h v lax value = .ok settled)
    (hreplace : site.replaceAll (.ofHierarchy h) lax settled.references settled.resolutions =
      .ok text) :
    ∃ references replaced, References.ofAttribute site.name value = .ok references ∧
      references.Rewritten true false (RestrictedKey h (.ofHierarchy h) site.rule v lax) replaced ∧
      text = replaced.text := by
  obtain ⟨hkeys, hvalues, hkinds, hprimary, hboth, hstandard⟩ :=
    ReferenceRule.searchesBoth hrule honly
  obtain ⟨replaced, hreferences, hrewritten, rfl⟩ := rewritten_of_replaceAll hsettle hreplace
  refine ⟨settled.references, replaced, hreferences, ?_, rfl⟩
  rw [← hkeys, ← hvalues]
  refine hrewritten.imp_of_governed fun token _ flat hsettledAs => ?_
  obtain ⟨outcome, resolution, degraded, houtcome, hresolution, hlookup, hflat⟩ := hsettledAs
  cases habsolute : ObjectPath.isAbsolute token with
  | true =>
    -- an absolute path is taken as it is, first for a dimension and then for a variable
    rw [Hierarchy.resolve, if_pos habsolute, hprimary] at houtcome
    obtain rfl := Except.ok.inj houtcome
    obtain ⟨rfl, -⟩ := Prod.mk.inj (Except.ok.inj hresolution)
    have hcases := replace_of_object hlookup hflat
    rw [hboth] at hcases
    rcases hcases with hsome | ⟨hnone, hlax, rfl⟩
    · rcases NameTable.find?_eq_some_iff.mp hsome with hdim | ⟨hnone, -, hvar⟩
      · exact .absoluteDimension habsolute hdim
      · exact .absoluteVariable habsolute hnone hvar
    · simp only [NameTable.find?, if_true] at hnone
      split at hnone
      · cases hnone
      · next hdim => exact .missing habsolute hlax hdim hnone
  | false =>
    rcases resolve_of_relative honly hstandard hkinds habsolute houtcome with
      ⟨path, hfound, rfl⟩ | ⟨hno, ⟨path, hfound, hscalar, rfl⟩ | ⟨hnot, rfl⟩⟩ <;>
      obtain ⟨rfl, -⟩ := Prod.mk.inj (Except.ok.inj hresolution)
    -- a dimension, a scalar coordinate, or neither
    · exact .dimension habsolute hfound (replace_of_lookup hsnapshot hfound hlookup hflat)
    · exact .scalar habsolute hno hfound hscalar
        (replace_of_lookup hsnapshot hfound hlookup hflat)
    · simp only [replace, replacement?, hlookup] at hflat
      obtain rfl := Except.ok.inj hflat
      exact .standardName habsolute hno hnot

end ReferenceSite

end GroupFlattening
