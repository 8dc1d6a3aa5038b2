import GroupFlattening.Proofs.Flatten.Structure

/-!
# The Sizes of Dimensions

An unlimited dimension is created empty and grows only when data is written. Its copy is as large
as the dimension itself if it is empty, or if the data of some variable was copied up to its end;
otherwise the copy is empty. So a run keeps all sizes, and with them the shapes of all variables,
just when data reaches the end of every unlimited dimension that is not empty
(`sizes_kept_iff`).
-/

namespace GroupFlattening.Flatten

open Dataset (rootId)
open ObjectPath (join)

/-- Whether the copy of every dimension has the size of the dimension and is unlimited if the
dimension is. -/
def KeepsSizes (input output : Dataset) : Prop :=
  ∀ e ∈ groupDimensions input,
    output.dimension (join ObjectPath.root (dimensionName e)) =
      .ok ⟨dimensionName e, e.2.size, e.2.isUnlimited⟩

/-- Whether the copy of every variable has the shape of the variable. -/
def KeepsShapes (input output : Dataset) : Prop :=
  ∀ e ∈ groupVariables input, ∃ copy shape,
    output.findVariable (join ObjectPath.root (variableName e)) = .ok (rootId, copy) ∧
      input.shapeOf e.2.dimensions = .ok shape ∧ output.shapeOf copy.dimensions = .ok shape

/-- Paths of dimensions that were found have the same sizes as the copies of these dimensions, if
sizes are kept. -/
theorem KeepsSizes.exists_shape {input output : Dataset} (hkept : KeepsSizes input output)
    {paths flatPaths : List String}
    (hcopies : List.Forall₂ (fun path flatPath => ∃ e ∈ groupDimensions input,
      path = join e.1 e.2.name ∧ input.dimension path = .ok e.2 ∧
      flatPath = join ObjectPath.root (dimensionName e)) paths flatPaths) :
    ∃ shape, input.shapeOf paths = .ok shape ∧ output.shapeOf flatPaths = .ok shape := by
  simp only [Dataset.shapeOf_eq_ok_iff]
  induction hcopies with
  | nil => exact ⟨[], .nil, .nil⟩
  | cons hcopy _ ih =>
    -- one axis more, which is as long in the copy
    obtain ⟨e, he, -, hdim, rfl⟩ := hcopy
    obtain ⟨shape, hpaths, hflatPaths⟩ := ih
    exact ⟨e.2.size :: shape, .cons ⟨e.2, hdim, rfl⟩ hpaths, .cons ⟨_, hkept e he, rfl⟩ hflatPaths⟩

section Run

variable {input output output' : Dataset} {settings : Settings} {report : Report}
  (hinput : input.Reachable) (hproper : input.HasProperNames) (houtput : output.Reachable)
  (hrun : flatten input settings output = .ok report output')

include hinput hproper houtput hrun

/-- The copy of a dimension after a run. -/
theorem dimension_of_flatten {e : String × Dimension} (he : e ∈ groupDimensions input) :
    output'.dimension (join ObjectPath.root (dimensionName e)) =
      .ok (flatDimension input settings (groupVariables input) e) := by
  obtain ⟨h, g, hsnapshot, hb, hp, rfl⟩ :=
    progress_of_flatten hinput.wellFormed hproper houtput.wellFormed hrun
  exact hp.dimension hb _ hinput.wellFormed hproper he

theorem keepsSizes_iff : KeepsSizes input output' ↔ ∀ e ∈ groupDimensions input,
    e.2.isUnlimited = true → e.2.size ≠ 0 →
      isReached input settings (groupVariables input) e = true := by
  refine forall₂_congr fun e he => ?_
  rw [dimension_of_flatten hinput hproper houtput hrun he, Except.ok.injEq, flatDimension_eq_iff]

/-- Variables keep their shapes if dimensions keep their sizes. -/
theorem KeepsSizes.keepsShapes (hkept : KeepsSizes input output') : KeepsShapes input output' := by
  obtain ⟨h, g, hsnapshot, hb, hp, rfl⟩ :=
    progress_of_flatten hinput.wellFormed hproper houtput.wellFormed hrun
  intro e he
  -- the copy has the copies of its dimensions, which have the sizes of the dimensions
  obtain ⟨copy, hfind, hcopy⟩ := hp.exists_copy hb _ hinput.wellFormed hproper he
  have hflat := isFlatCopy_of_flatCopy hinput.wellFormed hproper hsnapshot hcopy
  obtain ⟨shape, hshape, hshape'⟩ := hkept.exists_shape hflat.dimensions
  exact ⟨copy, shape, hfind, hshape, hshape'⟩

end Run

/-- A run keeps the sizes of all dimensions and the shapes of all variables just when each
unlimited dimension that is not empty has a variable whose data was copied and which has no empty
axis. -/
theorem sizes_kept_iff {input output output' : Dataset} {settings : Settings} {report : Report}
    (hinput : input.Reachable) (hproper : input.HasProperNames) (houtput : output.Reachable)
    (hrun : flatten input settings output = .ok report output') :
    (KeepsSizes input output' ∧ KeepsShapes input output') ↔
      ∀ e ∈ groupDimensions input, e.2.isUnlimited = true → e.2.size ≠ 0 →
        isReached input settings (groupVariables input) e = true := by
  rw [← keepsSizes_iff hinput hproper houtput hrun]
  constructor
  · exact fun hkept => hkept.1
  · exact fun hkept => ⟨hkept, hkept.keepsShapes hinput hproper houtput hrun⟩

/-- The sizes and shapes of the station are kept in an empty dataset. -/
theorem station_sizes_kept : station.Reachable ∧ station.HasProperNames ∧
    ∃ report output, flatten station {} (Dataset.create "flat" false) = .ok report output ∧
      KeepsSizes station output ∧ KeepsShapes station output := by
  have hsucceeds : EStateM.succeedsWith (fun (_ : Report) (_ : Dataset) => true)
      (flatten station {} (Dataset.create "flat" false)) = true := by decide +kernel
  obtain ⟨report, output, hrun, -⟩ := EStateM.exists_of_succeedsWith _ hsucceeds
  exact ⟨station_reachable, station_hasProperNames, report, output, hrun,
    (sizes_kept_iff station_reachable station_hasProperNames (.create "flat" false) hrun).mpr
      (by decide +kernel)⟩

/-- Three times that no variable has. -/
def calendar : Dataset :=
  (Dataset.create "calendar" true).applyAll [.sizedDimension "/" ⟨"time", 3, true⟩]

/-- The copy of a dimension without variables is empty. -/
theorem calendar_emptied : calendar.Reachable ∧ calendar.HasProperNames ∧
    calendar.dimension "/time" = .ok ⟨"time", 3, true⟩ ∧
    ∃ report output, flatten calendar {} (Dataset.create "flat" false) = .ok report output ∧
      output.dimension "/time" = .ok ⟨"time", 0, true⟩ := by
  refine ⟨(Dataset.Reachable.create "calendar" true).applyAll _, by decide +kernel,
    by decide +kernel, ?_⟩
  have hsucceeds : EStateM.succeedsWith (fun (_ : Report) (output : Dataset) =>
      decide ((output.dimension "/time").toOption = some ⟨"time", 0, true⟩))
      (flatten calendar {} (Dataset.create "flat" false)) = true := by decide +kernel
  obtain ⟨report, output, hrun, hcheck⟩ := EStateM.exists_of_succeedsWith _ hsucceeds
  refine ⟨report, output, hrun, ?_⟩
  have hdim := of_decide_eq_true hcheck
  -- what was decided on options is the result of the lookup
  cases hread : output.dimension "/time" with
  | error fault =>
    rw [hread] at hdim
    cases hdim
  | ok dim =>
    rw [hread] at hdim
    rw [Option.some.inj hdim]

end GroupFlattening.Flatten
