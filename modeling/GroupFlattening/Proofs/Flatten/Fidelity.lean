import GroupFlattening.Proofs.Flatten.Sizes

/-!
# The Data of a Flat Output

Where data is copied, the flat copy of a variable is read as the variable itself, however the data
was cut into slices (`data_kept`). Of the slices nothing is left but that they cover the variable,
which `FlatCopy` records; what remains is the shape of the copy. An axis of the copy is as long as
the axis of the variable if the variable has data, for then its own data has reached the end of the
dimension, and otherwise an axis of both is empty. Two runs that differ in their slices leave
datasets that no read can tell apart, since neither copies nor dimensions depend on slices.
-/

namespace GroupFlattening.Flatten

open Dataset (rootId currentShape)
open ObjectPath (join)

/-- Whether the copy of every variable, read as a whole, gives what the variable gives, read as a
whole. -/
def KeepsData (input output : Dataset) : Prop :=
  ∀ e ∈ groupVariables input, ∃ data,
    input.readData (join e.1 e.2.name) .all = .ok data ∧
      output.readData (join ObjectPath.root (variableName e)) .all = .ok data

/-- Whether two datasets give the same data, and the same faults, whatever is read. -/
def ReadAlike (output output' : Dataset) : Prop :=
  ∀ path selection, output.readData path selection = output'.readData path selection

/-! ## Copies after a run -/

/-- A variable whose data was copied and that has no empty axis reaches its dimensions. -/
theorem isReached_of_mem {input : Dataset} {settings : Settings}
    {vars : List (String × Dataset.Variable)} {u : String × Dataset.Variable}
    {e : String × Dimension} (hcopied : settings.copyData = true) (hu : u ∈ vars)
    (hpath : join e.1 e.2.name ∈ u.2.dimensions) (hdata : 0 ∉ input.currentShape u.2) :
    isReached input settings vars e = true := by
  -- a variable with data has no empty axis, this dimension included
  have hall : ∀ q ∈ u.2.dimensions, input.sizeOf q ≠ 0 := by
    intro q hq hzero
    apply hdata
    rw [← hzero]
    exact List.mem_map_of_mem hq
  unfold isReached
  rw [hcopied, Bool.true_and, List.any_eq_true]
  exact ⟨u, hu, by simpa [Dataset.reaches, hpath] using hall⟩

section Run

variable {input output output' : Dataset} {settings : Settings} {report : Report}
  (hinput : input.Reachable) (hproper : input.HasProperNames) (houtput : output.Reachable)
  (hrun : flatten input settings output = .ok report output')
  {e : String × Dataset.Variable} (he : e ∈ groupVariables input)

include hinput hproper houtput hrun he

/-- The copy of a variable after a run. Where data is copied it holds what the variable holds inside
its shape, and nothing else. -/
theorem exists_copy_of_flatten (hcopied : settings.copyData = true) : ∃ copy,
    output'.findVariable (join ObjectPath.root (variableName e)) = .ok (rootId, copy) ∧
      IsFlatCopy input e.1 e.2 copy ∧ ∀ index, copy.cell index =
        if (input.currentShape e.2).Within index then e.2.cell index else Cell.zero e.2.type := by
  obtain ⟨h, g, hsnapshot, hb, hp, rfl⟩ :=
    progress_of_flatten hinput.wellFormed hproper houtput.wellFormed hrun
  obtain ⟨copy, hfind, hcopy⟩ := hp.exists_copy hb _ hinput.wellFormed hproper he
  obtain ⟨id, -, -, hv⟩ := Dataset.mem_located.mp he
  have htyped := (hinput.wellStored id e.2 hv).hasType
  exact ⟨copy, hfind, isFlatCopy_of_flatCopy hinput.wellFormed hproper hsnapshot hcopy,
    hcopy.data hcopied htyped⟩

section Copy

variable {copy : Dataset.Variable} (hcopy : IsFlatCopy input e.1 e.2 copy)

include hcopy

omit he in
/-- The dimensions of a copy are found. -/
theorem shapeOf_copy : output'.shapeOf copy.dimensions = .ok (output'.currentShape copy) := by
  apply Dataset.shapeOf_eq_ok_iff.mpr
  unfold currentShape
  rw [List.forall₂_map_right_iff, List.forall₂_same]
  intro flatPath hflatPath
  obtain ⟨path, -, dim, hdim, -, -, rfl⟩ := Forall₂.exists_left hcopy.dimensions hflatPath
  have hfound := dimension_of_flatten hinput hproper houtput hrun hdim
  exact ⟨_, hfound, (Dataset.sizeOf_of_dimension hfound).symm⟩

/-- The axes of a copy are no longer than those of the variable, and just as long if the data of the
variable was copied. -/
theorem forall₂_axes_copy (hcopied : settings.copyData = true) :
    List.Forall₂ (fun size n => n ≤ size ∧ (0 ∉ input.currentShape e.2 → n = size))
      (input.currentShape e.2) (output'.currentShape copy) := by
  unfold currentShape
  rw [List.forall₂_map_left_iff, List.forall₂_map_right_iff]
  have hdims := (List.forall₂_and_left _ _).mpr ⟨fun path hpath => hpath, hcopy.dimensions⟩
  -- axis by axis: a dimension and its flat copy
  refine hdims.imp fun path flatPath hpath => ?_
  obtain ⟨hpath, dim, hdim, rfl, hsize, rfl⟩ := hpath
  have hfound := dimension_of_flatten hinput hproper houtput hrun hdim
  rw [Dataset.sizeOf_of_dimension hfound, Dataset.sizeOf_of_dimension hsize]
  refine ⟨size_flatDimension_le, fun hdata => ?_⟩
  -- the data of the variable itself has reached the end of the dimension
  have hreached := isReached_of_mem hcopied he hpath hdata
  rw [flatDimension_eq_iff.mpr fun _ _ => hreached]

/-- A copy that holds the cells of the variable holds them at the indices of its own shape. -/
theorem cells_copy (hcopied : settings.copyData = true)
    (hcells : ∀ index, copy.cell index =
      if (input.currentShape e.2).Within index then e.2.cell index else Cell.zero e.2.type) :
    (output'.currentShape copy).indices.map copy.cell =
      (input.currentShape e.2).indices.map e.2.cell := by
  have haxes := forall₂_axes_copy hinput hproper houtput hrun he hcopy hcopied
  by_cases hempty : 0 ∈ input.currentShape e.2
  · -- an empty axis is empty in the copy as well
    obtain ⟨n, hn, hle, -⟩ := Forall₂.exists_right haxes hempty
    obtain rfl := Nat.le_zero.mp hle
    rw [Shape.indices_eq_nil hempty, Shape.indices_eq_nil hn]
    rfl
  -- without empty axes the two shapes are equal
  · have heq : input.currentShape e.2 = output'.currentShape copy := by
      rw [← List.forall₂_eq_eq_eq]
      exact haxes.imp fun size n hsize => (hsize.2 hempty).symm
    rw [← heq]
    refine List.map_congr_left fun index hindex => ?_
    rw [hcells, if_pos (Shape.mem_indices_iff.mp hindex)]

end Copy

/-- The copy of a variable is read as the variable. -/
theorem readData_copy (hcopied : settings.copyData = true) : ∃ data,
    input.readData (join e.1 e.2.name) .all = .ok data ∧
      output'.readData (join ObjectPath.root (variableName e)) .all = .ok data := by
  obtain ⟨copy, hfind', hcopy, hcells⟩ :=
    exists_copy_of_flatten hinput hproper houtput hrun he hcopied
  have hshape' := shapeOf_copy hinput hproper houtput hrun hcopy
  have hsame := cells_copy hinput hproper houtput hrun he hcopy hcopied hcells
  -- the variable itself is found where the tree has it
  obtain ⟨id, hid, hplace, hv⟩ := Dataset.mem_located.mp he
  have hfind : input.findVariable (join e.1 e.2.name) = .ok (id, e.2) := by
    rw [← hplace]
    exact hinput.wellFormed.findVariable_join hproper
      (hinput.wellFormed.mem_groupIds_iff.mp hid) hv
  have hshape := hinput.wellFormed.shapeOf_eq hv
  refine ⟨e.2.read (Box.whole (input.currentShape e.2)), ?_, ?_⟩
  -- a whole read of the variable in its group
  · rw [Dataset.readData_eq hfind hshape]
    rfl
  -- and one of its copy at the root, which goes through the same cells
  · rw [Dataset.readData_eq hfind' hshape']
    show Except.ok (copy.read (Box.whole (output'.currentShape copy))) = _
    unfold Dataset.Variable.read
    rw [Box.indices_whole, Box.indices_whole, hsame, hcopy.type]

end Run

/-! ## Other slices -/

/-- Copies of one variable read alike, whatever was chosen for them, if both have its data. -/
theorem FlatCopy.readsAs {input : Dataset} {h : Hierarchy} {names : NameTable}
    {settings settings' : Settings} {place : String} {v copy copy' : Dataset.Variable}
    (hcopy : FlatCopy input h names settings place v copy)
    (hcopy' : FlatCopy input h names settings' place v copy')
    (hcopied : settings.copyData = true) (hcopied' : settings'.copyData = true)
    (htyped : ∀ index, (v.cell index).HasType v.type) : copy.ReadsAs copy' := by
  refine
    { name := hcopy.name.trans hcopy'.name.symm
      type := hcopy.type.trans hcopy'.type.symm
      dimensions := ?_
      cell := ?_ }
  -- both follow the dimensions of the one variable, under the same flat names
  · rw [← List.forall₂_eq_eq_eq]
    have hboth := Forall₂.comp hcopy.dimensions.flip hcopy'.dimensions
    refine hboth.imp fun flatPath flatPath' hpaths => ?_
    obtain ⟨path, ⟨flat, hflat, rfl⟩, flat', hflat', rfl⟩ := hpaths
    rw [Option.some.inj (hflat.symm.trans hflat')]
  -- both hold its cells
  · funext index
    rw [hcopy.data hcopied htyped, hcopy'.data hcopied' htyped]

/-- Runs that differ in their slices leave datasets that read alike. -/
theorem readAlike_of_slices {input output output₁ output₂ : Dataset} {settings : Settings}
    {report₁ report₂ : Report} (hinput : input.Reachable) (hproper : input.HasProperNames)
    (houtput : output.Reachable) (hcopied : settings.copyData = true)
    (sliceShapes : Option (SortedMap (Option Shape))) (sliceBudget : Nat)
    (hrun₁ : flatten input settings output = .ok report₁ output₁)
    (hrun₂ : flatten input { settings with sliceShapes := sliceShapes, sliceBudget := sliceBudget }
      output = .ok report₂ output₂) :
    ReadAlike output₁ output₂ := by
  obtain ⟨h₁, g₁, hsnapshot₁, hb, hp₁, rfl⟩ :=
    progress_of_flatten hinput.wellFormed hproper houtput.wellFormed hrun₁
  obtain ⟨h₂, g₂, hsnapshot₂, -, hp₂, rfl⟩ :=
    progress_of_flatten hinput.wellFormed hproper houtput.wellFormed hrun₂
  -- the snapshot of the input is the same in both runs
  obtain rfl := Except.ok.inj (hsnapshot₁.symm.trans hsnapshot₂)
  obtain ⟨copies₁, hvars₁, hall₁⟩ := hp₁.copies
  obtain ⟨copies₂, hvars₂, hall₂⟩ := hp₂.copies
  intro path selection
  apply hb.readData_congr
  · -- sizes do not depend on slices
    show g₁.dimensions = g₂.dimensions
    rw [hp₁.sizes hp₁.distinct, hp₂.sizes hp₂.distinct]
    rfl
  · show List.Forall₂ Dataset.Variable.ReadsAs g₁.vars g₂.vars
    rw [hvars₁, hvars₂]
    apply Forall₂.append
    -- the variables that were there before
    · exact List.forall₂_same.mpr fun v _ => .refl v
    -- and the copies, each of one variable of the input
    · have hall₁' := (List.forall₂_and_left _ _).mpr ⟨fun e he => he, hall₁⟩
      refine (Forall₂.comp hall₁'.flip hall₂).imp fun copy₁ copy₂ hboth => ?_
      obtain ⟨e, ⟨he, hcopy₁⟩, hcopy₂⟩ := hboth
      obtain ⟨id, -, -, hv⟩ := Dataset.mem_located.mp he
      exact hcopy₁.readsAs hcopy₂ hcopied hcopied (hinput.wellStored id e.2 hv).hasType

/-- A run that copies data leaves copies that are read as the variables themselves, whatever slices
the data was copied in, and runs that differ in nothing else leave datasets that read alike. -/
theorem data_kept {input output output' : Dataset} {settings : Settings} {report : Report}
    (hinput : input.Reachable) (hproper : input.HasProperNames) (houtput : output.Reachable)
    (hcopied : settings.copyData = true)
    (hrun : flatten input settings output = .ok report output') :
    KeepsData input output' ∧
      ∀ sliceShapes sliceBudget report' sliced,
        flatten input { settings with sliceShapes := sliceShapes, sliceBudget := sliceBudget }
          output = .ok report' sliced → ReadAlike output' sliced := by
  refine ⟨fun e he => readData_copy hinput hproper houtput hrun he hcopied, ?_⟩
  intro sliceShapes sliceBudget report' sliced hrun'
  exact readAlike_of_slices hinput hproper houtput hcopied sliceShapes sliceBudget hrun hrun'

/-- Depths of three times on two levels. -/
def cast : Dataset :=
  (Dataset.create "cast" true).applyAll
    [.sizedDimension "/" ⟨"time", 3, true⟩, .group "/" "ship",
      .sizedDimension "/ship" ⟨"level", 2, true⟩,
      .variable "/ship" ⟨"depth", .byte, ["/time", "/ship/level"], none⟩,
      .data "/ship/depth" .all (.bytes [1, 2, 3, 4, 5, 6])]

/-- The depths are kept, also when they are copied two times and one level at once. -/
theorem cast_kept : cast.Reachable ∧ cast.HasProperNames ∧ archive.Reachable ∧
    ({} : Settings).copyData = true ∧
    ∃ report output report' sliced, flatten cast {} archive = .ok report output ∧
      flatten cast (({} : Settings).withSliceShape "/ship/depth" (some [2, 1])) archive =
        .ok report' sliced ∧
      (sliced.readData "/ship__depth" .all).toOption = some (.bytes [1, 2, 3, 4, 5, 6]) ∧
      KeepsData cast output ∧ ReadAlike output sliced := by
  have hcast : cast.Reachable := (Dataset.Reachable.create "cast" true).applyAll _
  have hproper : cast.HasProperNames := by decide +kernel
  have hwhole : EStateM.succeedsWith (fun (_ : Report) (_ : Dataset) => true)
      (flatten cast {} archive) = true := by decide +kernel
  have hslices : EStateM.succeedsWith (fun (_ : Report) (sliced : Dataset) =>
      decide ((sliced.readData "/ship__depth" .all).toOption = some (.bytes [1, 2, 3, 4, 5, 6])))
      (flatten cast (({} : Settings).withSliceShape "/ship/depth" (some [2, 1])) archive) =
        true := by decide +kernel
  obtain ⟨report, output, hrun, -⟩ := EStateM.exists_of_succeedsWith _ hwhole
  obtain ⟨report', sliced, hrun', hread⟩ := EStateM.exists_of_succeedsWith _ hslices
  obtain ⟨hkept, halike⟩ := data_kept hcast hproper archive_reachable rfl hrun
  exact ⟨hcast, hproper, archive_reachable, rfl, report, output, report', sliced, hrun, hrun',
    of_decide_eq_true hread, hkept, halike _ _ report' sliced hrun'⟩

end GroupFlattening.Flatten
