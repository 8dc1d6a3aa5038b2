import GroupFlattening.Proofs.Flatten.Faults
import GroupFlattening.Proofs.Flatten.References

/-!
# Strict and Lax Runs

A strict run and a lax run of the same flattening differ in nothing but references: where the lax
run degrades no reference the strict run does the same, and where the strict run fails for another
reason the lax run fails for that reason, with the same output (`strict_lax_agree`).

The two runs are compared step by step. `Agree` relates a strict step to its lax counterpart, given
whether anything was degraded before; it is closed under sequences and walks, so that the mode
matters in two places only, where a token is settled and where it is replaced.
-/

namespace GroupFlattening

namespace Flatten

/-! ## Steps that agree -/

/-- A strict step agrees with its lax counterpart: given that nothing was degraded before, the
strict step succeeds just when the lax one does with a clean result, and fails otherwise for a
reference or as the lax one does. No result of the lax step is clean if anything was degraded
before, and its faults are not about references. -/
structure Agree {σ α : Type} (before : Prop) (clean : α → Prop) (strict lax : TransferM σ α) :
    Prop where
  ok_iff : before → ∀ t a t', strict t = .ok a t' ↔ lax t = .ok a t' ∧ clean a
  error : before → ∀ t fault t', strict t = .error fault t' → fault.IsPlain →
    lax t = .error fault t'
  before : ∀ t a t', lax t = .ok a t' → clean a → before
  plain : EStateM.FaultsIn Fault.IsPlain lax

namespace Agree

variable {σ α β : Type} {before : Prop} {clean : α → Prop}

/-- A step that does not depend on the mode agrees with itself. -/
theorem same {step : TransferM σ α} (hstep : EStateM.FaultsIn Fault.IsPlain step) :
    Agree before (fun _ => before) step step where
  ok_iff hbefore _ _ _ := by simp [hbefore]
  error _ _ _ _ h _ := h
  before _ _ _ _ h := h
  plain := hstep

theorem pure {a : α} (ha : clean a ↔ before) :
    Agree before clean (Pure.pure a : TransferM σ α) (Pure.pure a) where
  ok_iff hbefore t b t' := by
    rw [EStateM.pure_eq_ok_iff]
    constructor
    · rintro ⟨rfl, rfl⟩
      exact ⟨⟨rfl, rfl⟩, ha.mpr hbefore⟩
    · rintro ⟨h, -⟩
      exact h
  error _ _ _ _ h _ := h
  before t b t' h hb := by
    obtain ⟨rfl, -⟩ := EStateM.pure_eq_ok_iff.mp h
    exact ha.mp hb
  plain := .pure a

theorem bind {middle : α → Prop} {clean : β → Prop} {strict lax : TransferM σ α}
    {strict' lax' : α → TransferM σ β} (hfirst : Agree before middle strict lax)
    (hnext : ∀ a, Agree (middle a) clean (strict' a) (lax' a)) :
    Agree before clean (strict >>= strict') (lax >>= lax') where
  ok_iff hbefore t b t' := by
    simp only [EStateM.bind_eq_ok_iff]
    constructor
    · rintro ⟨a, t₁, hrun, hrest⟩
      obtain ⟨hlax, ha⟩ := (hfirst.ok_iff hbefore t a t₁).mp hrun
      obtain ⟨hlax', hb⟩ := ((hnext a).ok_iff ha t₁ b t').mp hrest
      exact ⟨⟨a, t₁, hlax, hlax'⟩, hb⟩
    · rintro ⟨⟨a, t₁, hlax, hlax'⟩, hb⟩
      -- a clean result comes from a clean one
      have ha := (hnext a).before t₁ b t' hlax' hb
      exact ⟨a, t₁, (hfirst.ok_iff hbefore t a t₁).mpr ⟨hlax, ha⟩,
        ((hnext a).ok_iff ha t₁ b t').mpr ⟨hlax', hb⟩⟩
  error hbefore t fault t' h hplain := by
    rw [EStateM.bind_eq_error_iff] at h ⊢
    rcases h with h | ⟨a, t₁, hrun, hrest⟩
    · exact Or.inl (hfirst.error hbefore t fault t' h hplain)
    · obtain ⟨hlax, ha⟩ := (hfirst.ok_iff hbefore t a t₁).mp hrun
      exact Or.inr ⟨a, t₁, hlax, (hnext a).error ha t₁ fault t' hrest hplain⟩
  before t b t' h hb := by
    obtain ⟨a, t₁, hlax, hlax'⟩ := EStateM.bind_eq_ok_iff.mp h
    exact hfirst.before t a t₁ hlax ((hnext a).before t₁ b t' hlax' hb)
  plain := hfirst.plain.bind fun a => (hnext a).plain

/-- A step agrees whatever came before it, if it does after nothing. -/
theorem frame {strict lax : TransferM σ α} (h : Agree True clean strict lax) :
    Agree before (fun a => before ∧ clean a) strict lax where
  ok_iff hbefore t a t' := by simp [h.ok_iff trivial t a t', hbefore]
  error _ := h.error trivial
  before _ _ _ _ ha := ha.1
  plain := h.plain

/-- A walk agrees if every step does, and is clean if every result is. -/
theorem mapM {C : β → Prop} {strict lax : α → TransferM σ β}
    (h : ∀ a, Agree True C (strict a) (lax a)) (as : List α) :
    Agree before (fun bs => before ∧ ∀ b ∈ bs, C b) (as.mapM strict) (as.mapM lax) := by
  -- along the list, where the results of the elements before are in `before`
  induction as generalizing before with
  | nil => exact pure (by simp)
  | cons a rest ih =>
    rw [List.mapM_cons, List.mapM_cons]
    apply bind (frame (h a))
    intro b
    apply bind ih
    intro bs
    apply pure
    rw [List.forall_mem_cons, and_assoc]

/-- Computations agree if the strict one has the clean results of the lax one, and has no faults
but those of references. -/
theorem compute {strict lax : Except Fault α}
    (hok : ∀ a, strict = .ok a ↔ lax = .ok a ∧ clean a)
    (herror : Except.FaultsIn (fun fault => fault.isOfReference = true) strict)
    (hplain : Except.FaultsIn Fault.IsPlain lax) :
    Agree True clean (Transfer.compute strict : TransferM σ α) (Transfer.compute lax) where
  ok_iff _ t a t' := by
    simp only [Transfer.compute_eq_ok_iff, hok]
    tauto
  error _ t fault t' h hfault := by
    -- a fault of the strict result is of a reference, so it is not plain
    have hreference := faultsIn_compute herror t fault t' h
    rw [hfault] at hreference
    cases hreference
  before _ _ _ _ _ := trivial
  plain := faultsIn_compute hplain

end Agree

/-! ## References -/

section References

variable {σ α β : Type}

theorem compute_pure (a : α) : (Transfer.compute (pure a) : TransferM σ α) = pure a := rfl

theorem compute_bind (x : Except Fault α) (f : α → Except Fault β) :
    (Transfer.compute (x >>= f) : TransferM σ β) =
      Transfer.compute x >>= fun a => Transfer.compute (f a) := by
  cases x <;> rfl

theorem compute_mapM (f : α → Except Fault β) (as : List α) :
    (Transfer.compute (as.mapM f) : TransferM σ (List β)) =
      as.mapM fun a => Transfer.compute (f a) := by
  induction as with
  | nil => rfl
  | cons a rest ih => simp only [List.mapM_cons, compute_bind, compute_pure, ih]

/-- The fault of an undecided token is one of a reference. -/
theorem faults_failure (site : ReferenceSite) (token : String) (candidates : List String) :
    (site.failure token candidates).isOfReference = true := by
  unfold ReferenceSite.failure
  split <;> rfl

/-- A token is settled in the same way unless the lax mode degrades it. -/
theorem agree_settleOutcome (site : ReferenceSite) (token : String) (outcome : Outcome) :
    Agree True (fun r => r.2 = none)
      (Transfer.compute (site.settleOutcome false token outcome) : TransferM σ _)
      (Transfer.compute (site.settleOutcome true token outcome)) := by
  cases outcome with
  | object path kind => exact .pure (by simp)
  | standardName => exact .pure (by simp)
  | unresolved =>
    apply Agree.compute
    -- the strict mode fails where the lax one degrades
    · simp [ReferenceSite.settleOutcome, ReferenceSite.degrade]
    · exact .error (faults_failure site token [])
    · exact .ok _
  | ambiguous candidates =>
    apply Agree.compute
    · simp [ReferenceSite.settleOutcome, ReferenceSite.degrade]
    · exact .error (faults_failure site token candidates)
    · exact .ok _

/-- Settling a value is clean if no token of it is degraded. -/
theorem agree_settle (site : ReferenceSite) (h : Hierarchy) (v : Hierarchy.Variable)
    (value : String) :
    Agree True (fun settled => settled.degraded = [])
      (Transfer.compute (site.settle h v false value) : TransferM σ _)
      (Transfer.compute (site.settle h v true value)) := by
  simp only [ReferenceSite.settle, compute_bind, compute_mapM, compute_pure]
  apply (Agree.same (faultsIn_compute (plain_ofAttribute site.name value))).bind
  intro references
  -- the tokens are settled one after the other, whatever was degraded
  apply (Agree.mapM (C := fun entry => entry.2.2 = none) (fun token => ?_) _).bind
  · intro settled
    apply Agree.pure
    simp [List.filterMap_eq_nil_iff]
  · apply (Agree.same (faultsIn_compute (plain_resolve h site.rule v token))).bind
    intro outcome
    apply (agree_settleOutcome site token outcome).bind
    intro r
    apply Agree.pure
    rfl

theorem replace_eq_ok_iff {site : ReferenceSite} {names : NameTable}
    {resolutions : List (String × Resolution)} {token text : String} :
    site.replace names false resolutions token = .ok text ↔
      site.replace names true resolutions token = .ok text ∧
        (site.replacement? names resolutions token).isSome := by
  unfold ReferenceSite.replace
  cases site.replacement? names resolutions token <;> simp

/-- The strict mode replaces a value as the lax mode does, if no flat name is missing. -/
theorem replaceAll_eq_ok_iff {site : ReferenceSite} {names : NameTable} {references : References}
    {resolutions : List (String × Resolution)} {text : String} :
    site.replaceAll names false references resolutions = .ok text ↔
      site.replaceAll names true references resolutions = .ok text ∧
        site.unnamed names references resolutions = [] := by
  have hunnamed : site.unnamed names references resolutions = [] ↔
      ∀ token ∈ site.tokens references,
        (site.replacement? names resolutions token).isSome = true := by
    simp [ReferenceSite.unnamed, Option.isSome_iff_ne_none]
  simp only [ReferenceSite.replaceAll, Except.bind_eq_ok_iff, Except.pure_eq_ok_iff,
    References.mapM_eq_ok_iff, hunnamed, replace_eq_ok_iff]
  constructor
  -- a strict success has a name for every token
  · rintro ⟨replaced, hreplaced, rfl⟩
    refine ⟨⟨replaced, ?_, rfl⟩, fun token htoken => ?_⟩
    · exact hreplaced.imp_of_governed fun token _ text h => h.1
    · obtain ⟨text, -, hsome⟩ := hreplaced.exists_of_governed htoken
      exact hsome
  · rintro ⟨⟨replaced, hreplaced, rfl⟩, hnamed⟩
    exact ⟨replaced, hreplaced.imp_of_governed fun token htoken text h =>
      ⟨h, hnamed token htoken⟩, rfl⟩

/-- Replacing tokens fails only in strict mode, for a token whose flat name is missing. -/
theorem faultsIn_replaceAll {P : Fault → Prop} {site : ReferenceSite} {names : NameTable}
    {lax : Bool} {references : References} {resolutions : List (String × Resolution)}
    (hP : ∀ token ∈ site.tokens references,
      site.replacement? names resolutions token = none → lax = false → P (site.failure token [])) :
    Except.FaultsIn P (site.replaceAll names lax references resolutions) := by
  refine (References.faultsIn_mapM fun token htoken => ?_).bind fun replaced => .pure _
  unfold ReferenceSite.replace
  split
  -- a token with a replacement
  · exact .ok _
  · next hnone =>
    split
    · exact .ok _
    -- one without, in strict mode
    · next hlax => exact .error (hP token htoken hnone (by simpa using hlax))

/-- Replacing the references of an attribute is clean if no flat name is missing. -/
theorem agree_replacePending [Writable σ] (names : NameTable) (settings : Settings)
    (entry : Transfer.Pending × ReferenceSite.Settled) :
    Agree True (fun unnamed => unnamed = [])
      (replacePending names { settings with laxMode := false } entry : TransferM σ _)
      (replacePending names { settings with laxMode := true } entry) := by
  obtain ⟨pending, settled⟩ := entry
  have hstrict : Except.FaultsIn (fun fault => fault.isOfReference = true)
      (pending.site.replaceAll names false settled.references settled.resolutions) :=
    faultsIn_replaceAll fun token _ _ _ => faults_failure pending.site token []
  have hlax : Except.FaultsIn Fault.IsPlain
      (pending.site.replaceAll names true settled.references settled.resolutions) :=
    faultsIn_replaceAll fun _ _ _ h => nomatch h
  -- the modes differ only in the names that are missing
  apply (Agree.compute (fun text => replaceAll_eq_ok_iff) hstrict hlax).bind
  intro text
  apply (Agree.same (plain_setAttribute _ _ _)).bind
  intro _
  apply Agree.pure
  rfl

end References

/-! ## Variables and groups -/

/-- Nothing was degraded in the work that a tally is of. -/
def IsClean (tally : Tally) : Prop := tally.unresolved = [] ∧ tally.unnamed = []

/-- A sum is clean exactly if both parts are. -/
theorem isClean_append {a b : Tally} : IsClean (a.append b) ↔ IsClean a ∧ IsClean b := by
  unfold IsClean Tally.append
  simp only [List.append_eq_nil_iff]
  tauto

/-- A total is clean exactly if every tally is. -/
theorem isClean_total {tallies : List Tally} :
    IsClean (Tally.total tallies) ↔ ∀ tally ∈ tallies, IsClean tally := by
  -- along the tallies, from any tally of the work before them
  have hfold : ∀ start : Tally, IsClean (tallies.foldl Tally.append start) ↔
      IsClean start ∧ ∀ tally ∈ tallies, IsClean tally := by
    induction tallies with
    | nil => simp
    | cons tally rest ih =>
      intro start
      rw [List.foldl_cons, ih, isClean_append, List.forall_mem_cons, and_assoc]
  unfold Tally.total
  rw [hfold]
  simp [IsClean]

section Run

variable {ι σ : Type} [Readable ι] [Writable σ]

theorem agree_references (h : Hierarchy) (names : NameTable) (settings : Settings)
    (created : Transfer.Created) :
    Agree True IsClean
      (references h names { settings with laxMode := false } created : TransferM σ Tally)
      (references h names { settings with laxMode := true } created) := by
  unfold references
  split
  -- without pending attributes both modes have an empty tally
  · exact .pure (by simp [IsClean])
  · apply (Agree.same (faultsIn_compute (plain_surveyed h created.path))).bind
    intro v
    simp only [compute_mapM, settlePending, compute_bind, compute_pure]
    -- first all are settled, then all are replaced
    apply (Agree.mapM (C := fun entry => entry.2.degraded = []) (fun pending => ?_) _).bind
    · intro settled
      apply (Agree.mapM (agree_replacePending names settings) settled).bind
      intro unnamed
      apply Agree.pure
      simp [IsClean]
    · apply (agree_settle pending.site h v pending.value).bind
      intro settled
      apply Agree.pure
      rfl

theorem agree_variableStep (input : ι) (h : Hierarchy) (names : NameTable) (settings : Settings)
    (group : String) (info : VariableInfo) :
    Agree True IsClean
      (variableStep input h names { settings with laxMode := false } group info :
        TransferM σ Tally)
      (variableStep input h names { settings with laxMode := true } group info) := by
  apply (Agree.same (plain_createVariable input names group info)).bind
  intro created
  apply (agree_references h names settings created).bind
  intro tally
  -- the data is copied in the same way in both modes
  apply (Agree.same (plain_data input settings created.path created.flatPath info)).bind
  intro _
  apply Agree.pure
  rfl

theorem agree_groupStep (input : ι) (h : Hierarchy) (names : NameTable) (settings : Settings)
    (group : Hierarchy.Group) :
    Agree True IsClean
      (groupStep input h names { settings with laxMode := false } group : TransferM σ Tally)
      (groupStep input h names { settings with laxMode := true } group) := by
  apply (Agree.same (plain_group input group.path)).bind
  intro infos
  apply (Agree.mapM (agree_variableStep input h names settings group.path) infos).bind
  intro tallies
  apply Agree.pure
  simp [isClean_total]

theorem agree_transferAll (input : ι) (settings : Settings) (h : Hierarchy) :
    Agree True (fun report => report.degraded = [])
      (transferAll input { settings with laxMode := false } h : TransferM σ Report)
      (transferAll input { settings with laxMode := true } h) := by
  apply (Agree.mapM (agree_groupStep input h (NameTable.ofHierarchy h) settings) _).bind
  intro tallies
  apply (Agree.same plain_finish).bind
  intro provenance
  apply Agree.pure
  rw [List.append_eq_nil_iff, true_and, ← isClean_total]
  rfl

/-! ## The whole run -/

theorem flatten_eq_ok_iff {input : ι} {settings : Settings} {output output' : σ}
    {report : Report} :
    flatten input settings output = .ok report output' ↔
      ∃ h t', survey input output settings = .ok h ∧
        transferAll input settings h ⟨output, {}⟩ = .ok report t' ∧ t'.output = output' := by
  unfold flatten
  cases survey input output settings with
  | error fault => simp
  | ok h => cases hrun : transferAll input settings h ⟨output, {}⟩ <;> simp [hrun]

theorem flatten_eq_error_iff {input : ι} {settings : Settings} {output output' : σ}
    {fault : Fault} :
    flatten input settings output = .error fault output' ↔
      survey input output settings = .error fault ∧ output = output' ∨
        ∃ h t', survey input output settings = .ok h ∧
          transferAll input settings h ⟨output, {}⟩ = .error fault t' ∧ t'.output = output' := by
  unfold flatten
  cases survey input output settings with
  | error fault => simp
  | ok h => cases hrun : transferAll input settings h ⟨output, {}⟩ <;> simp [hrun]

theorem plain_surveyOf (input : ι) (output : σ) (settings : Settings) :
    Except.FaultsIn Fault.IsPlain (survey input output settings) :=
  (plain_checkDatasets input output settings).bind fun _ => plain_survey input _ _ _ _ _

/-- The strict and the lax run of a flattening, compared: a strict success is a lax success that
degrades nothing, with the same report and output, and the reverse; a strict fault that is not about
a reference is the fault of the lax run too, with the same output; and no lax fault is about a
reference. -/
theorem strict_lax_agree (input : ι) (output : σ) (settings : Settings) :
    (∀ report output',
      flatten input { settings with laxMode := false } output = .ok report output' →
        flatten input { settings with laxMode := true } output = .ok report output' ∧
          report.degraded = []) ∧
    (∀ report output',
      flatten input { settings with laxMode := true } output = .ok report output' →
        report.degraded = [] →
          flatten input { settings with laxMode := false } output = .ok report output') ∧
    (∀ fault output',
      flatten input { settings with laxMode := false } output = .error fault output' →
        fault.IsPlain →
          flatten input { settings with laxMode := true } output = .error fault output') ∧
    ∀ fault output',
      flatten input { settings with laxMode := true } output = .error fault output' →
        fault.IsPlain := by
  -- the mode plays no part in the survey
  have hsurvey : survey input output { settings with laxMode := true } =
      survey input output { settings with laxMode := false } := rfl
  have hagree := agree_transferAll (σ := σ) input settings
  simp only [flatten_eq_ok_iff, flatten_eq_error_iff, hsurvey]
  refine ⟨?_, ?_, ?_, ?_⟩
  · rintro report output' ⟨h, t', hsnapshot, hrun, hout⟩
    obtain ⟨hlax, hclean⟩ := ((hagree h).ok_iff trivial _ report t').mp hrun
    exact ⟨⟨h, t', hsnapshot, hlax, hout⟩, hclean⟩
  -- a lax run with an empty report is a strict one
  · rintro report output' ⟨h, t', hsnapshot, hrun, hout⟩ hclean
    exact ⟨h, t', hsnapshot, ((hagree h).ok_iff trivial _ report t').mpr ⟨hrun, hclean⟩, hout⟩
  -- a plain fault, in the survey or in the transfer
  · rintro fault output' (hsnapshot | ⟨h, t', hsnapshot, hrun, hout⟩) hplain
    · exact Or.inl hsnapshot
    · exact Or.inr ⟨h, t', hsnapshot, (hagree h).error trivial _ fault t' hrun hplain, hout⟩
  · rintro fault output' (⟨hsnapshot, -⟩ | ⟨h, t', -, hrun, -⟩)
    · exact plain_surveyOf input output _ fault hsnapshot
    · exact (hagree h).plain _ fault t' hrun

end Run

/-- A dataset with a variable whose name the wind at the station would get. -/
def occupied : Dataset :=
  (Dataset.create "occupied" false).applyAll [.variable "/" ⟨"site__wind", .int, [], none⟩]

/-- All references of the station can be replaced, so both runs into the archive agree, from either
side; into the occupied dataset both fail where the name is taken, with what was written before. -/
theorem station_modes_agree :
    (∃ report output, flatten station { laxMode := false } archive = .ok report output ∧
      flatten station { laxMode := true } archive = .ok report output ∧ report.degraded = []) ∧
    (∃ report output, flatten station { laxMode := true } archive = .ok report output ∧
      report.degraded = [] ∧
      flatten station { laxMode := false } archive = .ok report output) ∧
    ∃ fault output, flatten station { laxMode := false } occupied = .error fault output ∧
      flatten station { laxMode := true } occupied = .error fault output ∧ fault.IsPlain := by
  obtain ⟨hstrict, hlax, -, -⟩ := strict_lax_agree station archive {}
  obtain ⟨-, -, herror, hplain⟩ := strict_lax_agree station occupied {}
  have hsucceeds : EStateM.succeedsWith (fun (_ : Report) (_ : Dataset) => true)
      (flatten station { laxMode := false } archive) = true := by decide +kernel
  obtain ⟨report, output, hrun, -⟩ := EStateM.exists_of_succeedsWith _ hsucceeds
  have hclean : EStateM.succeedsWith
      (fun (report : Report) (_ : Dataset) => decide (report.degraded = []))
      (flatten station { laxMode := true } archive) = true := by decide +kernel
  obtain ⟨report', output', hrun', hdegraded⟩ := EStateM.exists_of_succeedsWith _ hclean
  have hdegraded := of_decide_eq_true hdegraded
  have hfails : EStateM.failsWith (fun fault : Fault => !fault.isOfReference)
      (flatten station { laxMode := false } occupied) = true := by decide +kernel
  obtain ⟨fault, output'', hfault, hother⟩ := EStateM.exists_of_failsWith _ hfails
  have hrun'' := herror fault output'' hfault (by simpa [Fault.IsPlain] using hother)
  exact ⟨⟨report, output, hrun, hstrict report output hrun⟩,
    ⟨report', output', hrun', hdegraded, hlax report' output' hrun' hdegraded⟩,
    ⟨fault, output'', hfault, hrun'', hplain fault output'' hrun''⟩⟩

end Flatten

end GroupFlattening
