import GroupFlattening.Proofs.Flatten.Variables

/-!
# Copying Data

Copying the data of a variable grows the dimensions of its flat copy to the shape of the original
and fills boxes that cover it, and does so whether the data is copied whole or in slices: every
slice ends inside the shape, and the last one ends where the shape ends (`data_ok`). A variable
without data, and every variable when data is not to be copied, leaves all dimensions as they are.
-/

namespace GroupFlattening.Flatten

open Dataset (IsFlat)
open ObjectPath (join separator)
open Transfer (recordOf appendRecords)

/-- Each end that belongs to a name is within the length that belongs to it. -/
theorem exists_zip_le {names : List String} {ends shape : List Nat}
    (h : List.Forall₂ (· ≤ ·) ends shape) :
    ∀ e ∈ names.zip ends, ∃ axis ∈ names.zip shape, axis.1 = e.1 ∧ e.2 ≤ axis.2 := by
  induction h generalizing names with
  | nil => simp
  | @cons stop length ends shape hle _ ih =>
    cases names with
    | nil => simp
    | cons name names =>
      intro e he
      rw [List.zip_cons_cons] at he ⊢
      rcases List.mem_cons.mp he with rfl | he
      · exact ⟨(name, length), List.mem_cons_self, rfl, hle⟩
      · obtain ⟨axis, haxis, hname, hle⟩ := ih e he
        exact ⟨axis, List.mem_cons_of_mem _ haxis, hname, hle⟩

section Data

variable {input base : Dataset} (hb : base.IsFlat) {g : Dataset.Group} {p : ProvenanceMaps}
  {t' : Transfer Dataset} {before : List Dataset.Variable} (copy : Dataset.Variable)
  (hsep : separator ∉ copy.name.toList) (hnew : copy.name ∉ before.map (·.name))
  {flats : List String} (hflats : ∀ f ∈ flats, separator ∉ f.toList)
  (hdims : copy.dimensions = flats.map (join ObjectPath.root))
  (hnodup : (g.dimensions.map (·.name)).Nodup)
  {path : String} {id : Nat} {v : Dataset.Variable}
  (hfind : input.findVariable path = .ok (id, v)) (htype : copy.type = v.type)

include hb hsep hnew hflats hdims hnodup hfind htype

/-- One part of the data fills a box of the last variable, and grows its dimensions to the end of
the box. -/
theorem dataPart_ok {part : Selection} {box : Box}
    (hpart : part.bounds (input.currentShape v) = box)
    (hrun : Transfer.dataPart input path (join ObjectPath.root copy.name) part (.box box)
      ⟨base.withRoot { g with vars := before ++ [copy] }, p⟩ = .ok () t') :
    ∃ stored, t' = ⟨base.withRoot { g with
      dimensions := g.dimensions.map (Dimension.grown (flats.zip box.stop))
      vars := before ++
        [{ copy.fill box ((v.read box).cells v.type) with stored := stored }] }, p⟩ := by
  obtain ⟨data, t₁, hinput, hwrite⟩ := EStateM.bind_eq_ok_iff.mp hrun
  obtain ⟨hread, rfl⟩ := Transfer.fromInput_eq_ok_iff.mp hinput
  obtain ⟨output, hdata, rfl⟩ := Transfer.onOutput_eq_ok_iff.mp hwrite
  have hlast := Dataset.find?_append_singleton hnew (x := copy) rfl
  obtain ⟨shape, stored, -, rfl⟩ := hb.writeData_join (g := { g with vars := before ++ [copy] })
    hsep hflats hnodup hlast hdims hdata
  -- what is written is what the original holds in the box
  obtain rfl := Dataset.eq_read_of_readData hfind hread
  rw [Dataset.changeFirst_append_singleton hnew rfl, hpart, htype]
  exact ⟨stored, rfl⟩

/-- A walk over slices that end inside the shape copies them, and keeps the dimensions on their
way. -/
theorem slices_ok {shape : Shape} {slices : List Box}
    (hslices : ∀ box ∈ slices, List.Forall₂ (· ≤ ·) box.stop shape)
    (hrun : slices.forM (fun box => Transfer.dataPart input path
      (join ObjectPath.root copy.name) (.box box) (.box box))
      ⟨base.withRoot { g with vars := before ++ [copy] }, p⟩ = .ok () t') :
    ∃ dims stored,
      List.Forall₂ (Dimension.OnTheWay (flats.zip shape)) g.dimensions dims ∧
      t' = ⟨base.withRoot { g with
        dimensions := dims
        vars := before ++ [{ copy with
          stored := stored, cells := (Dataset.Variable.copyBoxes v slices copy).cells }] }, p⟩ := by
  -- along the slices that are copied: dimensions are on their way, and the copy holds these slices
  refine EStateM.forM_induction
    (I := fun done t => ∃ dims stored,
      List.Forall₂ (Dimension.OnTheWay (flats.zip shape)) g.dimensions dims ∧
      t = ⟨base.withRoot { g with
        dimensions := dims
        vars := before ++ [{ copy with
          stored := stored, cells := (Dataset.Variable.copyBoxes v done copy).cells }] }, p⟩)
    (fun done box rest t t' hsplit ht hstep => ?_)
    ⟨g.dimensions, copy.stored, List.forall₂_same.mpr fun dim _ => .refl _ dim, rfl⟩ hrun
  -- every slice ends inside the shape, so no dimension is taken past it
  obtain ⟨dims, stored, hway, rfl⟩ := ht
  -- names stay the same, so paths still lead to the same dimensions
  have hnames : g.dimensions.map (·.name) = dims.map (·.name) :=
    Forall₂.map_eq hway fun dim dim' h => h.name.symm
  have hbounds : (Selection.box box).bounds (input.currentShape v) = box := rfl
  obtain ⟨stored', rfl⟩ := dataPart_ok hb { copy with
      stored := stored, cells := (Dataset.Variable.copyBoxes v done copy).cells }
    hsep hnew hflats hdims (g := { g with dimensions := dims }) (hnames ▸ hnodup) hfind htype
    hbounds hstep
  have hends := hslices box (by simp [hsplit])
  refine ⟨dims.map (Dimension.grown (flats.zip box.stop)), stored', ?_, ?_⟩
  · rw [List.forall₂_map_right_iff]
    exact hway.imp fun dim dim' h => h.grown (exists_zip_le hends)
  · rw [Dataset.Variable.copyBoxes_append_singleton]
    rfl

/-- All slices of a shape together grow the dimensions of the last variable to the shape. -/
theorem allSlices_ok {shape sliceShape : Shape} (hshape : 0 ∉ shape)
    (hrun : (SliceGrid.mk shape sliceShape).slices.forM (fun box => Transfer.dataPart input path
      (join ObjectPath.root copy.name) (.box box) (.box box))
      ⟨base.withRoot { g with vars := before ++ [copy] }, p⟩ = .ok () t') :
    ∃ stored, t' = ⟨base.withRoot { g with
      dimensions := g.dimensions.map (Dimension.grown (flats.zip shape))
      vars := before ++ [{ copy with
        stored := stored
        cells := (Dataset.Variable.copyBoxes v
          (SliceGrid.mk shape sliceShape).slices copy).cells }] }, p⟩ := by
  rw [SliceGrid.slices_eq_append _ hshape] at hrun ⊢
  obtain ⟨t₁, hinit, hrest⟩ := EStateM.forM_append_eq_ok_iff.mp hrun
  obtain ⟨⟨⟩, t₂, hlast, hpure⟩ := EStateM.bind_eq_ok_iff.mp hrest
  obtain ⟨-, rfl⟩ := EStateM.pure_eq_ok_iff.mp hpure
  have hinside : ∀ box ∈ (List.range ((SliceGrid.mk shape sliceShape).count - 1)).map
      (SliceGrid.mk shape sliceShape).slice, List.Forall₂ (· ≤ ·) box.stop shape := by
    intro box hbox
    obtain ⟨k, hk, rfl⟩ := List.mem_map.mp hbox
    have hlt := List.mem_range.mp hk
    exact SliceGrid.stop_slice_le _ (Nat.lt_of_lt_of_le hlt (Nat.sub_le ..))
  -- all slices but the last leave the dimensions on their way
  obtain ⟨dims, stored, hway, rfl⟩ :=
    slices_ok hb copy hsep hnew hflats hdims hnodup hfind htype hinside hinit
  have hnames : g.dimensions.map (·.name) = dims.map (·.name) :=
    Forall₂.map_eq hway fun dim dim' h => h.name.symm
  have hbounds : (Selection.box ((SliceGrid.mk shape sliceShape).slice
      ((SliceGrid.mk shape sliceShape).count - 1))).bounds (input.currentShape v) =
      (SliceGrid.mk shape sliceShape).slice ((SliceGrid.mk shape sliceShape).count - 1) := rfl
  obtain ⟨stored', rfl⟩ := dataPart_ok hb { copy with stored := stored, cells := _ } hsep hnew
    hflats hdims (g := { g with dimensions := dims }) (hnames ▸ hnodup) hfind htype hbounds hlast
  -- the last slice ends where the shape ends, wherever the dimensions are by then
  have hend := SliceGrid.stop_slice_last ⟨shape, sliceShape⟩ hshape
  have hgrown := Forall₂.map_eq hway fun dim dim' h => h.grown_eq.symm
  rw [hend, ← hgrown, Dataset.Variable.copyBoxes_append_singleton]
  exact ⟨stored', rfl⟩

/-- Copying the data of the last variable fills boxes that cover the shape of the original, and
grows the dimensions to that shape, if there is data to copy. -/
theorem data_ok {settings : Settings} {info : VariableInfo}
    (hinfo : info.shape = input.currentShape v)
    (hrun : Transfer.data input settings path (join ObjectPath.root copy.name) info
      ⟨base.withRoot { g with vars := before ++ [copy] }, p⟩ = .ok () t') :
    ∃ stored boxes, (settings.copyData = true → info.shape.CoveredBy boxes) ∧
      t' = ⟨base.withRoot { g with
        dimensions := if settings.copyData = true ∧ 0 ∉ info.shape then
          g.dimensions.map (Dimension.grown (flats.zip info.shape)) else g.dimensions
        vars := before ++ [{ copy with
          stored := stored, cells := (Dataset.Variable.copyBoxes v boxes copy).cells }] }, p⟩ := by
  rw [Transfer.data] at hrun
  split at hrun
  -- an empty variable is covered by no boxes
  · next hnone =>
    obtain ⟨-, rfl⟩ := EStateM.pure_eq_ok_iff.mp hrun
    refine ⟨copy.stored, [], fun hcopied => ?_, ?_⟩
    · exact Shape.coveredBy_nil (by tauto)
    · rw [if_neg (by tauto)]
      rfl
  · next hsome =>
    -- whole or in slices, the data ends where the shape ends
    have hcopied : settings.copyData = true ∧ 0 ∉ info.shape := by
      simpa [not_or] using hsome
    rw [if_pos hcopied]
    cases hslice : settings.sliceShapeFor path info.shape info.type.size with
    | none =>
      -- as a whole: one box, which ends where the shape ends
      rw [hslice] at hrun
      have hwhole : Selection.all.bounds (input.currentShape v) = Box.whole info.shape := by
        rw [hinfo]
        rfl
      obtain ⟨stored, hpart⟩ :=
        dataPart_ok hb copy hsep hnew hflats hdims hnodup hfind htype hwhole hrun
      rw [Box.stop_whole] at hpart
      exact ⟨stored, [Box.whole info.shape], fun _ => Shape.coveredBy_whole info.shape, hpart⟩
    | some sliceShape =>
      rw [hslice] at hrun
      simp only at hrun
      split at hrun
      · exact absurd hrun EStateM.throw_ne_ok
      · rw [SliceGrid.forSlices_eq] at hrun
        obtain ⟨stored, hall⟩ :=
          allSlices_ok hb copy hsep hnew hflats hdims hnodup hfind htype hcopied.2 hrun
        exact ⟨stored, _, fun _ => SliceGrid.coveredBy_slices ⟨info.shape, sliceShape⟩, hall⟩

end Data

/-! ## The whole step -/

/-- What is pending belongs to the flat copy. -/
theorem flatOwner_of_pending? {path flatPath : String} {entries : Attributes}
    {pending : List (Option Transfer.Pending)}
    (hpending : List.Forall₂ (fun entry pending =>
      Transfer.pending? path flatPath entry = .ok pending) entries pending) :
    ∀ q ∈ pending.filterMap id, q.flatOwner = flatPath := by
  intro q hq
  obtain ⟨o, ho, rfl⟩ := List.mem_filterMap.mp hq
  obtain ⟨entry, -, hentry⟩ := Forall₂.exists_left hpending ho
  rcases pending?_eq_ok_iff.mp hentry with ⟨-, h⟩ | ⟨rule, text, -, -, heq⟩
  · cases h
  · rw [Option.some.inj heq]

/-- Dimensions of the root that have sizes are there. -/
theorem mem_dimensions_of_shapeOf {base : Dataset} (hb : base.IsFlat) {g : Dataset.Group}
    {flats : List String} (hsep : ∀ f ∈ flats, separator ∉ f.toList) {shape : Shape}
    (hshape : (base.withRoot g).shapeOf (flats.map (join ObjectPath.root)) = .ok shape) :
    ∀ f ∈ flats, f ∈ g.dimensions.map (·.name) := by
  intro f hf
  obtain ⟨size, -, dim, hdim, -⟩ := Forall₂.exists_right (Dataset.shapeOf_eq_ok_iff.mp hshape)
    (List.mem_map_of_mem (f := join ObjectPath.root) hf)
  have hfind := (hb.dimension_join (hsep f hf)).mp hdim
  have hname : dim.name = f := by simpa using List.find?_some hfind
  exact hname ▸ List.mem_map_of_mem (List.mem_of_find?_eq_some hfind)

/-- A copy that was empty holds what the original holds, once boxes that cover the original have
been copied. -/
theorem cell_of_coveredBy {v copy : Dataset.Variable} {shape : Shape} {boxes : List Box}
    (hcovered : shape.CoveredBy boxes) (htype : copy.type = v.type) (hempty : copy.cells = ∅)
    (htyped : ∀ index, (v.cell index).HasType v.type) (stored : Shape) (index : Index) :
    { copy with stored := stored
                cells := (Dataset.Variable.copyBoxes v boxes copy).cells }.cell index =
      if shape.Within index then v.cell index else Cell.zero v.type := by
  have hcopied : { copy with stored := stored
                             cells := (Dataset.Variable.copyBoxes v boxes copy).cells }.cell index =
      (Dataset.Variable.copyBoxes v boxes copy).cell index := by
    rw [Dataset.Variable.cell, Dataset.Variable.cell, Dataset.Variable.type_copyBoxes]
  -- the copy was empty before the data came
  have hzero : copy.cell index = Cell.zero v.type := by
    rw [Dataset.Variable.cell, hempty, htype]
    exact Std.ExtTreeMap.getD_empty
  rw [hcopied, Dataset.Variable.cell_copyBoxes htyped hcovered.rank, hzero]
  simp only [hcovered.exists_mem_iff]

/-- Carrying over a variable appends its flat copy to the variables of the root, and grows the
dimensions of the copy to the shape of the original if there is data to copy. -/
theorem variableStep_ok {input base : Dataset} (hb : base.IsFlat) {g : Dataset.Group}
    {p : ProvenanceMaps} {t' : Transfer Dataset} {h : Hierarchy} {names : NameTable}
    {settings : Settings} {place : String} {id : Nat} {v : Dataset.Variable} {tally : Tally}
    (hsep : separator ∉ (flatName place v.name).toList)
    (hnames : ∀ path flat, names.dimensions.find? path = some flat → separator ∉ flat.toList)
    (hfind : input.findVariable (join place v.name) = .ok (id, v))
    (hattributes : (v.attributes.map (·.1)).Nodup)
    (hnodup : (g.dimensions.map (·.name)).Nodup)
    (hrun : variableStep input h names settings place
      ⟨v.name, v.type, v.dimensions, input.currentShape v⟩ ⟨base.withRoot g, p⟩ = .ok tally t') :
    ∃ flats copy,
      List.Forall₂ (fun path flat => names.dimensions.find? path = some flat) v.dimensions flats ∧
      (∀ f ∈ flats, f ∈ g.dimensions.map (·.name)) ∧
      FlatCopy input h names settings place v copy ∧
      flatName place v.name ∉ g.vars.map (·.name) ∧
      t' = ⟨base.withRoot { g with
          dimensions := if settings.copyData = true ∧ 0 ∉ input.currentShape v then
            g.dimensions.map (Dimension.grown (flats.zip (input.currentShape v)))
            else g.dimensions
          vars := g.vars ++ [copy] },
        { p with vars := appendRecords p.vars [recordOf place v.name] }⟩ := by
  obtain ⟨created, t₁, hcreate, hrest⟩ := EStateM.bind_eq_ok_iff.mp hrun
  obtain ⟨flats, stored, pending, hflats, hstored, hnew, rfl, hpending, rfl⟩ :=
    createVariable_ok hb ⟨v.name, v.type, v.dimensions, input.currentShape v⟩ hsep
      (Dataset.variableAttributes_eq hfind) hattributes hcreate
  obtain ⟨tally', t₂, hreferences, hrest⟩ := EStateM.bind_eq_ok_iff.mp hrest
  -- references are replaced before the data is copied
  obtain ⟨texts, htexts, rfl⟩ := references_ok hb ⟨flatName place v.name, v.type,
    flats.map (join ObjectPath.root), fillFirst v.attributes, stored, ∅⟩ hsep hnew
    (flatOwner_of_pending? hpending) hreferences
  have hcopied := copiedAttributes hattributes hpending htexts
  obtain ⟨⟨⟩, t₃, hdata, hpure⟩ := EStateM.bind_eq_ok_iff.mp hrest
  obtain ⟨-, rfl⟩ := EStateM.pure_eq_ok_iff.mp hpure
  -- flat names of dimensions are names of the root
  have hsepFlats : ∀ f ∈ flats, separator ∉ f.toList := by
    intro f hf
    obtain ⟨path, -, hpath⟩ := Forall₂.exists_left hflats hf
    exact hnames path f hpath
  let created : Dataset.Variable := ⟨flatName place v.name, v.type,
    flats.map (join ObjectPath.root), Attributes.setAll (fillFirst v.attributes) texts, stored, ∅⟩
  obtain ⟨stored', boxes, hcovered, rfl⟩ := data_ok hb created hsep hnew hsepFlats rfl hnodup
    hfind rfl rfl hdata
  refine ⟨flats, { created with
      stored := stored', cells := (Dataset.Variable.copyBoxes v boxes created).cells }, hflats,
    mem_dimensions_of_shapeOf hb hsepFlats hstored,
    ⟨rfl, rfl, ?_, hcopied, fun hcopy htyped index => ?_⟩, hnew, rfl⟩
  · rw [List.forall₂_map_right_iff]
    exact hflats.imp fun path flat hflat => ⟨flat, hflat, rfl⟩
  · exact cell_of_coveredBy (hcovered hcopy) (show created.type = v.type from rfl)
      (show created.cells = ∅ from rfl) htyped stored' index

end GroupFlattening.Flatten
