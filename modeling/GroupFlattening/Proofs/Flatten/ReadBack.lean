import GroupFlattening.Proofs.Flatten.GroupAttributes
import GroupFlattening.Proofs.Flatten.Structure
import GroupFlattening.Proofs.Provenance.Text

/-!
# Reading Back the Provenance

The provenance that a run leaves in its output is meant to be read again. It is read back just when
no flat name holds a colon followed by a space (`read_of_flatten`), since that is what a text is cut
at. Nothing else stands in the way: the three attributes are written last, so that no attribute of
the input takes their place, flat names are not empty and have no slash, and paths are absolute. A
provenance that cannot be read back is not misread, it is a fault.
-/

namespace GroupFlattening

namespace ProvenanceMaps

open ObjectPath (separator)
open Provenance (HasSeparator recordText record?)

/-- The records of all three kinds. -/
def records (maps : ProvenanceMaps) : List (String × String) :=
  maps.attributes.records ++ maps.dimensions.records ++ maps.vars.records

/-- A fault in reading an attribute is one in reading its value, and the attribute has one of the
three names. -/
theorem readAttribute_eq_error {maps : ProvenanceMaps} {entry : String × AttributeValue}
    {fault : Fault} (h : maps.readAttribute entry = .error fault) :
    (entry.1 = attributesName ∨ entry.1 = dimensionsName ∨ entry.1 = variablesName) ∧
      Provenance.ofAttribute entry.1 entry.2 = .error fault := by
  unfold readAttribute at h
  split at h
  · next hname => exact ⟨Or.inl hname, Except.map_eq_error_iff.mp h⟩
  · split at h
    · next hname => exact ⟨Or.inr (Or.inl hname), Except.map_eq_error_iff.mp h⟩
    · split at h
      · next hname => exact ⟨Or.inr (Or.inr hname), Except.map_eq_error_iff.mp h⟩
      · cases h

section Held

variable {attributes : Attributes} {maps maps' : ProvenanceMaps}
  (hnodup : (attributes.map (·.1)).Nodup)
  (hheld : ∀ entry ∈ Flatten.provenanceEntries maps,
    Attributes.find? attributes entry.1 = some entry.2)

include hnodup hheld

/-- Where attributes hold the texts of all three maps, each map is read from its texts. -/
theorem foldlM_readAttribute_of_held :
    attributes.foldlM readAttribute {} = .ok maps' ↔
      Provenance.ofAttribute attributesName maps.attributes.toAttribute = .ok maps'.attributes ∧
      Provenance.ofAttribute dimensionsName maps.dimensions.toAttribute = .ok maps'.dimensions ∧
      Provenance.ofAttribute variablesName maps.vars.toAttribute = .ok maps'.vars := by
  simp only [Flatten.provenanceEntries, List.forall_mem_cons] at hheld
  obtain ⟨hattributes, hdimensions, hvars, -⟩ := hheld
  rw [foldlM_readAttribute_eq_ok_iff hnodup, Reads, Reads, Reads, hattributes, hdimensions, hvars]

/-- Maps are read back just when all their records are. -/
theorem foldlM_readAttribute_eq_self_iff :
    attributes.foldlM readAttribute {} = .ok maps ↔
      ∀ record ∈ maps.records, ¬ HasSeparator record.1 ∧ record.1 ≠ "" ∧
        ObjectPath.isAbsolute record.2 = true := by
  rw [foldlM_readAttribute_of_held hnodup hheld, records, List.forall_mem_append,
    List.forall_mem_append, Provenance.ofAttribute_toAttribute_iff,
    Provenance.ofAttribute_toAttribute_iff, Provenance.ofAttribute_toAttribute_iff, and_assoc]

/-- Where no flat name has a slash, no other maps are read. -/
theorem eq_of_foldlM_readAttribute (hflat : ∀ record ∈ maps.records, separator ∉ record.1.toList)
    (hread : attributes.foldlM readAttribute {} = .ok maps') : maps' = maps := by
  obtain ⟨hattributes, hdimensions, hvars⟩ :=
    (foldlM_readAttribute_of_held hnodup hheld).mp hread
  simp only [records, List.forall_mem_append] at hflat
  obtain ⟨⟨hflatAttributes, hflatDimensions⟩, hflatVars⟩ := hflat
  obtain ⟨a, d, v⟩ := maps
  obtain ⟨a', d', v'⟩ := maps'
  -- each of the three maps is what was read from its own attribute
  obtain rfl := Provenance.ofAttribute_toAttribute_eq hflatAttributes hattributes
  obtain rfl := Provenance.ofAttribute_toAttribute_eq hflatDimensions hdimensions
  obtain rfl := Provenance.ofAttribute_toAttribute_eq hflatVars hvars
  rfl

/-- A fault in reading maps names a text that is not that of a record read back. -/
theorem foldlM_readAttribute_eq_error {fault : Fault}
    (hread : attributes.foldlM readAttribute {} = .error fault) :
    ∃ name, ∃ record ∈ maps.records, record? (recordText record) = none ∧
      fault = .parse name (recordText record) := by
  -- the first attribute that does not decode
  obtain ⟨done, entry, rest, before, hsplit, -, hfault⟩ := Except.foldlM_eq_error_iff.mp hread
  obtain ⟨hname, hvalue⟩ := readAttribute_eq_error hfault
  have hfind : Attributes.find? attributes entry.1 = some entry.2 :=
    Attributes.find?_of_mem hnodup (by simp [hsplit])
  simp only [Flatten.provenanceEntries, List.forall_mem_cons] at hheld
  obtain ⟨hattributes, hdimensions, hvars, -⟩ := hheld
  -- what is found under the name are the texts of one of the maps
  have hp : ∃ p : Provenance, (∀ record ∈ p.records, record ∈ maps.records) ∧
      entry.2 = p.toAttribute := by
    rcases hname with hname | hname | hname <;> rw [hname] at hfind
    · exact ⟨maps.attributes, fun record h => by simp [records, h],
        Option.some.inj (hfind.symm.trans hattributes)⟩
    · exact ⟨maps.dimensions, fun record h => by simp [records, h],
        Option.some.inj (hfind.symm.trans hdimensions)⟩
    · exact ⟨maps.vars, fun record h => by simp [records, h],
        Option.some.inj (hfind.symm.trans hvars)⟩
  obtain ⟨p, hsub, heq⟩ := hp
  rw [heq] at hvalue
  obtain ⟨record, hrecord, hnone, hfault⟩ := Provenance.ofAttribute_toAttribute_eq_error hvalue
  exact ⟨entry.1, record, hsub record hrecord, hnone, hfault⟩

end Held

end ProvenanceMaps

namespace Flatten

open ObjectPath (IsName join separator)
open Provenance (HasSeparator recordText)
open Transfer (recordOf)

/-! ## After a run -/

/-- The attributes of groups, the dimensions and the variables of a dataset, each by the path of its
group and its name. -/
def namedObjects (d : Dataset) : List (String × String) :=
  (groupAttributes d).map (fun e => (e.1, e.2.1)) ++
    (groupDimensions d).map (fun e => (e.1, e.2.name)) ++
    (groupVariables d).map fun e => (e.1, e.2.name)

/-- Whether paths could hold the names of all attributes of groups too. -/
def HasProperAttributeNames (d : Dataset) : Prop :=
  ∀ entry ∈ groupAttributes d, IsName entry.2.1

instance (d : Dataset) : Decidable (HasProperAttributeNames d) :=
  inferInstanceAs (Decidable (∀ _ ∈ _, _))

/-- The provenance is read along the attributes of the root. -/
theorem read_eq_foldlM (d : Dataset) : ProvenanceMaps.read d =
    d.root.attributes.foldlM ProvenanceMaps.readAttribute {} := by
  have hroot : d.groupAttributes ObjectPath.root = .ok d.root.attributes :=
    groupAttributes_eq_ok_iff.mpr ⟨_, d.groupId_root, rfl⟩
  show (do
    let attributes ← (d.groupAttributes ObjectPath.root).mapError Fault.store
    attributes.foldlM ProvenanceMaps.readAttribute {}) = _
  rw [hroot]
  rfl

section Run

variable {input output' : Dataset} {location : String} {isNested : Bool} {settings : Settings}
  {report : Report} (hinput : input.WellFormed) (hproper : input.HasProperNames)

include hinput hproper

/-- A named object has a proper name. -/
theorem isName_of_mem_namedObjects (hattributes : HasProperAttributeNames input)
    {o : String × String} (ho : o ∈ namedObjects input) : IsName o.2 := by
  simp only [namedObjects, List.mem_append, List.mem_map] at ho
  rcases ho with (⟨e, he, rfl⟩ | ⟨e, he, rfl⟩) | ⟨e, he, rfl⟩
  · exact hattributes e he
  · obtain ⟨id, hid, -, hdim⟩ := Dataset.mem_located.mp he
    exact hproper.dimensions id (hinput.mem_groupIds_iff.mp hid) e.2 hdim
  · obtain ⟨id, hid, -, hv⟩ := Dataset.mem_located.mp he
    exact hproper.vars id (hinput.mem_groupIds_iff.mp hid) e.2 hv

omit hproper in
/-- The group of a named object has an absolute path. -/
theorem isAbsolute_of_mem_namedObjects {o : String × String} (ho : o ∈ namedObjects input) :
    ObjectPath.isAbsolute o.1 = true := by
  simp only [namedObjects, List.mem_append, List.mem_map] at ho
  rcases ho with (⟨e, he, rfl⟩ | ⟨e, he, rfl⟩) | ⟨e, he, rfl⟩ <;>
  · obtain ⟨id, hid, hpath, -⟩ := Dataset.mem_located.mp he
    exact hpath ▸ hinput.isAbsolute_path (hinput.mem_groupIds_iff.mp hid)

/-- Apart from a separator of records nothing is wrong with the record of an object. -/
theorem flatName_of_mem_namedObjects (hattributes : HasProperAttributeNames input)
    {o : String × String} (ho : o ∈ namedObjects input) : flatName o.1 o.2 ≠ "" ∧
      separator ∉ (flatName o.1 o.2).toList ∧ ObjectPath.isAbsolute (join o.1 o.2) = true := by
  have hname := isName_of_mem_namedObjects hinput hproper hattributes ho
  exact ⟨flatName_ne_empty hname.1, separator_not_mem_flatName hname.2,
    ObjectPath.isAbsolute_join (isAbsolute_of_mem_namedObjects hinput ho) o.2⟩

theorem record?_recordOf (hattributes : HasProperAttributeNames input) {o : String × String}
    (ho : o ∈ namedObjects input) (hfree : ¬ HasSeparator (flatName o.1 o.2)) :
    Provenance.record? (recordText (recordOf o.1 o.2)) = some (recordOf o.1 o.2) := by
  obtain ⟨hne, -, habsolute⟩ := flatName_of_mem_namedObjects hinput hproper hattributes ho
  exact Provenance.record?_eq_some_iff.mpr ⟨rfl, hfree, hne, habsolute⟩

variable (hrun : flatten input settings (Dataset.create location isNested) = .ok report output')

include hrun

/-- The provenance has one record for each object. -/
theorem records_of_flatten :
    report.provenance.records = (namedObjects input).map fun o => recordOf o.1 o.2 := by
  have hempty := Dataset.WellFormed.create location isNested
  obtain ⟨-, hattributes⟩ := attributes_of_flatten hinput hproper.groups hempty hrun
  obtain ⟨h, g, -, -, hp, -⟩ := progress_of_flatten hinput hproper hempty hrun
  rw [ProvenanceMaps.records, hattributes, hp.dimensionRecords, hp.variableRecords, namedObjects,
    List.map_append, List.map_append, List.map_map, List.map_map, List.map_map]
  rfl

/-- The root holds the texts of the provenance, whatever attributes the input has. -/
theorem find?_provenanceEntries : (output'.root.attributes.map (·.1)).Nodup ∧
    ∀ entry ∈ provenanceEntries report.provenance,
      Attributes.find? output'.root.attributes entry.1 = some entry.2 := by
  obtain ⟨hroot, -⟩ := attributes_of_flatten hinput hproper.groups
    (Dataset.WellFormed.create location isNested) hrun
  rw [hroot]
  have hempty : ((Dataset.create location isNested).root.attributes.map (·.1)).Nodup :=
    List.nodup_nil
  refine ⟨Attributes.nodup_setAll (Attributes.nodup_setAll hempty _) _, fun entry hentry => ?_⟩
  -- the provenance is set last
  rw [Attributes.find?_setAll, Attributes.find?_reverse_of_mem
    (nodup_names_provenanceEntries report.provenance) hentry]
  rfl

end Run

/-- A run into an empty output leaves a provenance that is read back just when no flat name holds a
separator of records; it is never read as another one, and the fault of a provenance that is not
read back shows the record of an object whose flat name holds a separator. -/
theorem read_of_flatten {input output' : Dataset} {location : String} {isNested : Bool}
    {settings : Settings} {report : Report} (hinput : input.Reachable)
    (hproper : input.HasProperNames) (hattributes : HasProperAttributeNames input)
    (hrun : flatten input settings (Dataset.create location isNested) = .ok report output') :
    (ProvenanceMaps.read output' = .ok report.provenance ↔
      ∀ o ∈ namedObjects input, ¬ HasSeparator (flatName o.1 o.2)) ∧
    (∀ maps, ProvenanceMaps.read output' = .ok maps → maps = report.provenance) ∧
    ∀ fault, ProvenanceMaps.read output' = .error fault →
      ∃ name, ∃ o ∈ namedObjects input, HasSeparator (flatName o.1 o.2) ∧
        fault = .parse name (recordText (recordOf o.1 o.2)) := by
  obtain ⟨hnodup, hheld⟩ := find?_provenanceEntries hinput.wellFormed hproper hrun
  have hrecords := records_of_flatten hinput.wellFormed hproper hrun
  have hform := fun (o : String × String) (ho : o ∈ namedObjects input) =>
    flatName_of_mem_namedObjects hinput.wellFormed hproper hattributes ho
  rw [read_eq_foldlM]
  refine ⟨?_, fun maps hmaps => ?_, fun fault hfault => ?_⟩
  -- of the three conditions on a record, the form of flat names meets two
  · rw [ProvenanceMaps.foldlM_readAttribute_eq_self_iff hnodup hheld, hrecords,
      List.forall_mem_map]
    constructor
    · intro h o ho
      exact (h o ho).1
    · intro h o ho
      obtain ⟨hne, -, habsolute⟩ := hform o ho
      exact ⟨h o ho, hne, habsolute⟩
  -- whatever is read is what was written
  · refine ProvenanceMaps.eq_of_foldlM_readAttribute hnodup hheld ?_ hmaps
    rw [hrecords, List.forall_mem_map]
    exact fun o ho => (hform o ho).2.1
  · obtain ⟨name, record, hrecord, hnone, rfl⟩ :=
      ProvenanceMaps.foldlM_readAttribute_eq_error hnodup hheld hfault
    rw [hrecords] at hrecord
    obtain ⟨o, ho, rfl⟩ := List.mem_map.mp hrecord
    refine ⟨name, o, ho, ?_, rfl⟩
    -- without a separator the record would decode
    by_contra hfree
    cases hnone.symm.trans
      (record?_recordOf hinput.wellFormed hproper hattributes ho hfree)

/-- The provenance of the station is read back. -/
theorem station_read : station.Reachable ∧ station.HasProperNames ∧
    HasProperAttributeNames station ∧ ∃ report output,
      flatten station {} (Dataset.create "flat" false) = .ok report output ∧
        ProvenanceMaps.read output = .ok report.provenance := by
  have hattributes : HasProperAttributeNames station := by decide +kernel
  have hsucceeds : EStateM.succeedsWith (fun (_ : Report) (_ : Dataset) => true)
      (flatten station {} (Dataset.create "flat" false)) = true := by decide +kernel
  obtain ⟨report, output, hrun, -⟩ := EStateM.exists_of_succeedsWith _ hsucceeds
  exact ⟨station_reachable, station_hasProperNames, hattributes, report, output, hrun,
    (read_of_flatten station_reachable station_hasProperNames hattributes hrun).1.mpr
      (by decide +kernel)⟩

/-- A dataset with a dimension whose name holds a colon followed by a space. -/
def track : Dataset := (Dataset.create "track" true).applyAll [.dimension "/" "lat: lon" (some 2)]

/-- The record of such a dimension is cut inside the name, and the whole provenance is lost. -/
theorem track_not_read : track.Reachable ∧ track.HasProperNames ∧ HasProperAttributeNames track ∧
    ∃ report output, flatten track {} (Dataset.create "flat" false) = .ok report output ∧
      ProvenanceMaps.read output =
        .error (.parse ProvenanceMaps.dimensionsName "lat: lon: /lat: lon") := by
  have hsucceeds : EStateM.succeedsWith (fun (_ : Report) (output : Dataset) =>
      decide (ProvenanceMaps.read output =
        .error (.parse ProvenanceMaps.dimensionsName "lat: lon: /lat: lon")))
      (flatten track {} (Dataset.create "flat" false)) = true := by decide +kernel
  obtain ⟨report, output, hrun, hread⟩ := EStateM.exists_of_succeedsWith _ hsucceeds
  exact ⟨(Dataset.Reachable.create "track" true).applyAll _, by decide +kernel, by decide +kernel,
    report, output, hrun, of_decide_eq_true hread⟩

end Flatten

end GroupFlattening
