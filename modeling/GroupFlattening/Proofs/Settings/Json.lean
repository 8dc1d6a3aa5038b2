import GroupFlattening.Proofs.Json.Value
import GroupFlattening.Proofs.Run
import GroupFlattening.Proofs.SortedMap
import GroupFlattening.Settings.Json

/-!
# Settings Read Back

All numbers of settings that are read from a text have at most sixty-four bits
(`fitsWords_of_ofJson`). Such settings are read back from the text that they are written as: the
value that stands for them is well formed, so nothing is lost in the text, and each of the five
choices is found again under its name, a missing map of slice shapes apart from an empty one, a
missing shape apart from one without lengths, whatever characters the paths have (`ofJson_toJson`).
-/

namespace GroupFlattening.Settings

open Json (Value)

/-- Whether the lengths of a slice shape have at most sixty-four bits. -/
def ShapeFits (shape : Option Shape) : Prop :=
  ∀ lengths ∈ shape, ∀ length ∈ lengths, length < Value.natLimit

instance : DecidablePred ShapeFits := fun shape =>
  inferInstanceAs (Decidable (∀ lengths ∈ shape, _))

/-- Whether all slice shapes of a map have lengths of at most sixty-four bits. -/
def ShapesFit (shapes : Option (SortedMap (Option Shape))) : Prop :=
  ∀ m ∈ shapes, ∀ entry ∈ m.entries, ShapeFits entry.2

instance : DecidablePred ShapesFit := fun shapes =>
  inferInstanceAs (Decidable (∀ m ∈ shapes, _))

/-- Whether all numbers have at most sixty-four bits. -/
structure FitsWords (settings : Settings) : Prop where
  sliceShapes : ShapesFit settings.sliceShapes
  sliceBudget : settings.sliceBudget < Value.natLimit
  depthLimit : settings.depthLimit < Value.natLimit

/-! ## What is read fits -/

theorem shapeFits_of_shape? {value : Value} {shape : Option Shape} (h : shape? value = some shape) :
    ShapeFits shape := by
  cases value with
  | null =>
    cases h
    intro lengths heq
    cases heq
  | array items =>
    obtain ⟨lengths, hlengths, rfl⟩ := Option.map_eq_some_iff.mp h
    intro lengths' heq length hlength
    cases heq
    -- each length was read from a number of one word
    obtain ⟨item, -, hitem⟩ := Forall₂.exists_left (Option.mapM_eq_some_iff.mp hlengths) hlength
    exact Value.lt_of_nat? hitem
  | _ => cases h

theorem shapesFit_of_shapes? {value : Value} {shapes : Option (SortedMap (Option Shape))}
    (h : shapes? value = some shapes) : ShapesFit shapes := by
  cases value with
  | null =>
    cases h
    intro m heq
    cases heq
  | object fields =>
    obtain ⟨entries, hentries, hmap⟩ := Option.bind_eq_some_iff.mp h
    cases hmap
    intro m heq entry hentry
    cases heq
    -- each shape of the map was read from a field
    obtain ⟨field, -, hfield⟩ := Forall₂.exists_left (Option.mapM_eq_some_iff.mp hentries)
      (SortedMap.mem_of_mem_ofList hentry)
    obtain ⟨path, -, hpath⟩ := Option.bind_eq_some_iff.mp hfield
    obtain ⟨shape, hshape, hpair⟩ := Option.bind_eq_some_iff.mp hpath
    cases hpair
    exact shapeFits_of_shape? hshape
  | _ => cases h

/-- What holds of a default and of everything that is read holds of a field. -/
theorem of_field {α : Type} {P : α → Prop} {fields : List (String × Value)} {name : String}
    {read : Value → Option α} {default a : α} (h : field fields name read default = some a)
    (hdefault : P default) (hread : ∀ {value : Value} {a : α}, read value = some a → P a) :
    P a := by
  rw [field] at h
  split at h
  · cases h
    exact hdefault
  · exact hread h

theorem fitsWords_of_ofFields? {fields : List (String × Value)} {settings : Settings}
    (h : ofFields? fields = some settings) : settings.FitsWords := by
  rw [ofFields?] at h
  obtain ⟨-, -, hfields⟩ := Option.bind_eq_some_iff.mp h
  simp only [Option.bind_eq_bind, Option.bind_eq_some_iff] at hfields
  obtain ⟨laxMode, -, copyData, -, shapes, hshapes, budget, hbudget, depth, hdepth, heq⟩ := hfields
  cases heq
  exact
    { sliceShapes := of_field (P := ShapesFit) hshapes (by decide) shapesFit_of_shapes?
      sliceBudget := of_field (P := (· < Value.natLimit)) hbudget (by decide) Value.lt_of_nat?
      depthLimit := of_field (P := (· < Value.natLimit)) hdepth (by decide) Value.lt_of_nat? }

/-- All numbers of settings that are read from a text have at most sixty-four bits, so that the
settings can be written and read again. -/
theorem fitsWords_of_ofJson {text : String} {settings : Settings}
    (h : ofJson text = .ok settings) : settings.FitsWords := by
  rw [ofJson] at h
  split at h
  · next read hread =>
    cases h
    obtain ⟨value, -, hvalue⟩ := Option.bind_eq_some_iff.mp hread
    cases value with
    -- the fields by name, or in order as an array
    | object fields =>
      obtain ⟨named, -, hnamed⟩ := Option.bind_eq_some_iff.mp hvalue
      exact fitsWords_of_ofFields? hnamed
    | array items =>
      rw [ofValue?] at hvalue
      split at hvalue
      · exact fitsWords_of_ofFields? hvalue
      · cases hvalue
    | _ => cases hvalue
  · cases h

/-! ## The value is well formed -/

theorem isWritable_key (s : String) :
    ∀ unit ∈ s.toList.map Json.TextUnit.ofChar, unit.IsWritable :=
  List.forall_mem_map.mpr fun c _ => Json.TextUnit.isWritable_ofChar c

theorem isWellFormed_shapeValue (shape : Option Shape) : (shapeValue shape).IsWellFormed := by
  cases shape with
  | none => exact .null
  | some shape => exact .array (List.forall_mem_map.mpr fun n _ => Value.isWellFormed_ofNat n)

theorem isWellFormed_shapesValue (shapes : Option (SortedMap (Option Shape))) :
    (shapesValue shapes).IsWellFormed := by
  cases shapes with
  | none => exact .null
  | some shapes =>
    exact .object (List.forall_mem_map.mpr fun entry _ => isWritable_key entry.1)
      (List.forall_mem_map.mpr fun entry _ => isWellFormed_shapeValue entry.2)

/-- The fields that settings are written with, by name. -/
def namedFields (settings : Settings) : List (String × Value) :=
  [("lax_mode", .boolean settings.laxMode), ("copy_data", .boolean settings.copyData),
    ("copy_slice_shapes", shapesValue settings.sliceShapes),
    ("default_slice_bytes", .ofNat settings.sliceBudget),
    ("max_group_depth", .ofNat settings.depthLimit)]

theorem toValue_eq (settings : Settings) :
    settings.toValue = .object (settings.namedFields.map fun field =>
      (field.1.toList.map Json.TextUnit.ofChar, field.2)) := rfl

theorem isWellFormed_toValue (settings : Settings) : settings.toValue.IsWellFormed := by
  rw [toValue_eq]
  refine .object (List.forall_mem_map.mpr fun field _ => isWritable_key field.1)
    (List.forall_mem_map.mpr ?_)
  simp only [namedFields, List.forall_mem_cons]
  exact ⟨.boolean _, .boolean _, isWellFormed_shapesValue _, Value.isWellFormed_ofNat _,
    Value.isWellFormed_ofNat _, List.forall_mem_nil _⟩

/-! ## Each choice is read back -/

/-- What is read back one by one is read back as a list. -/
theorem mapM_map_of_forall {α β : Type} {write : α → β} {read : β → Option α} {items : List α}
    (h : ∀ item ∈ items, read (write item) = some item) :
    (items.map write).mapM read = some items := by
  rw [Option.mapM_eq_some_iff, List.forall₂_map_left_iff, List.forall₂_same]
  exact h

theorem shape?_shapeValue {shape : Option Shape} (h : ShapeFits shape) :
    shape? (shapeValue shape) = some shape := by
  cases shape with
  | none => rfl
  | some lengths =>
    rw [shapeValue, shape?,
      mapM_map_of_forall fun length hlength => Value.nat?_ofNat (h lengths rfl length hlength)]
    rfl

theorem shapes?_shapesValue {shapes : Option (SortedMap (Option Shape))} (h : ShapesFit shapes) :
    shapes? (shapesValue shapes) = some shapes := by
  cases shapes with
  | none => rfl
  | some m =>
    -- the entries are read one by one as they were written
    have hentries : (m.entries.map fun entry =>
        (entry.1.toList.map Json.TextUnit.ofChar, shapeValue entry.2)).mapM (fun field => do
          let path ← Json.key? field.1
          let shape ← shape? field.2
          pure (path, shape)) = some m.entries := by
      refine mapM_map_of_forall fun entry hentry => ?_
      rw [Json.key?_map_ofChar, shape?_shapeValue (h m rfl entry hentry)]
      rfl
    rw [shapesValue, shapes?, hentries, Option.bind_eq_bind, Option.bind_some,
      SortedMap.ofList_entries]
    rfl

/-- The fields that settings are written with are read back as these settings: each one is found
under its name, and no default is taken. -/
theorem ofFields?_namedFields {settings : Settings} (h : settings.FitsWords) :
    ofFields? settings.namedFields = some settings := by
  have hnodup : (fieldNames.filter fieldNames.contains).Nodup := by decide
  -- every field is written once
  have hknown : (guard ((settings.namedFields.map (·.1)).filter fieldNames.contains).Nodup :
      Option Unit) = some () := if_pos hnodup
  -- so each is found under its name, whatever its default
  have hlax (default : Bool) :
      field settings.namedFields "lax_mode" Value.bool? default = some settings.laxMode := rfl
  have hcopy (default : Bool) :
      field settings.namedFields "copy_data" Value.bool? default = some settings.copyData := rfl
  have hshapes (default : Option (SortedMap (Option Shape))) :
      field settings.namedFields "copy_slice_shapes" shapes? default = some settings.sliceShapes :=
    shapes?_shapesValue h.sliceShapes
  have hbudget (default : Nat) :
      field settings.namedFields "default_slice_bytes" Value.nat? default =
        some settings.sliceBudget :=
    Value.nat?_ofNat h.sliceBudget
  have hdepth (default : Nat) :
      field settings.namedFields "max_group_depth" Value.nat? default = some settings.depthLimit :=
    Value.nat?_ofNat h.depthLimit
  rw [ofFields?]
  dsimp only
  rw [hknown, hlax, hcopy, hshapes, hbudget, hdepth]
  rfl

/-- The settings are read back from their value. -/
theorem ofValue?_toValue {settings : Settings} (h : settings.FitsWords) :
    ofValue? settings.toValue = some settings := by
  have hnamed : (settings.namedFields.map fun field =>
      (field.1.toList.map Json.TextUnit.ofChar, field.2)).mapM
        (fun field => (Json.key? field.1).map (·, field.2)) = some settings.namedFields :=
    mapM_map_of_forall fun field _ => by rw [Json.key?_map_ofChar, Option.map_some]
  rw [toValue_eq, ofValue?, hnamed]
  exact ofFields?_namedFields h

/-- Settings whose numbers have at most sixty-four bits are read back from their text. -/
theorem ofJson_toJson {settings : Settings} (h : settings.FitsWords) :
    ofJson settings.toJson = .ok settings := by
  have hread : Value.ofChars? settings.toJson.toList = some settings.toValue := by
    rw [toJson, String.toList_ofList]
    exact Value.ofChars?_written (isWellFormed_toValue settings)
  rw [ofJson, hread, Option.bind_some, ofValue?_toValue h]

/-- Settings with paths that need escapes, shapes that are missing or have no lengths, and the
greatest numbers. -/
def demanding : Settings where
  laxMode := true
  copyData := false
  sliceShapes := some
    ⟨[("", some []), ("/\"\\\n\x01", none), ("/µ", some [0, Value.natLimit - 1])], by decide⟩
  sliceBudget := Value.natLimit - 1
  depthLimit := Value.natLimit - 1

theorem ofJson_toJson_demanding :
    demanding.FitsWords ∧ ofJson demanding.toJson = .ok demanding := by
  have hfits : demanding.FitsWords := ⟨by decide, by decide, by decide⟩
  exact ⟨hfits, ofJson_toJson hfits⟩

end GroupFlattening.Settings
