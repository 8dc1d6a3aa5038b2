import GroupFlattening.Proofs.Attribute
import GroupFlattening.Proofs.Provenance
import GroupFlattening.Proofs.Faults

/-!
# Provenance as Text

What becomes of a provenance that is written as texts and read again. A text is cut at its first
separator, so a record is read back just when its flat name is not empty and holds no separator and
its path is absolute (`ofAttribute_toAttribute_iff`). Texts that are read at all are the texts of
what is read (`ofAttribute_texts_eq_ok_iff`), so reading inverts writing on these records, and
writing inverts reading. A record whose flat name holds a separator is never read as another record,
as long as the flat name has no slash: behind the first separator stands something that is no
absolute path, and that is a fault (`ofAttribute_toAttribute_eq`).
-/

namespace GroupFlattening

namespace Provenance

open ObjectPath (separator)

/-! ## Cutting a text -/

/-- Whether a flat name contains what should only stand behind it. -/
def HasSeparator (flat : String) : Prop := recordSeparator.toList <:+: flat.toList

instance (flat : String) : Decidable (HasSeparator flat) :=
  inferInstanceAs (Decidable (_ <:+: _))

/-- A text is cut at the first place where a separator stands. -/
theorem cutAtSeparator_eq_some_iff {text before after : List Char} :
    cutAtSeparator text = some (before, after) ↔
      text = before ++ recordSeparator.toList ++ after ∧
        ¬ recordSeparator.toList <:+: before := by
  have hsep : recordSeparator.toList = [':', ' '] := by decide
  rw [hsep]
  -- on the search: the separator is here, further on, or nowhere
  induction text using cutAtSeparator.induct generalizing before with
  | case1 rest =>
    rw [cutAtSeparator]
    constructor
    · rintro ⟨⟩
      exact ⟨rfl, by simp⟩
    · rintro ⟨htext, hfirst⟩
      -- any other cut would have this separator in front of it
      match before with
      | [] => simpa using htext
      | [c] => simp at htext
      | c :: c' :: before =>
        simp only [List.cons_append, List.cons.injEq] at htext
        obtain ⟨rfl, rfl, -⟩ := htext
        exact absurd (List.prefix_append [':', ' '] before).isInfix hfirst
  | case2 c rest hno ih =>
    rw [cutAtSeparator.eq_2 _ _ hno, Option.map_eq_some_iff]
    constructor
    · rintro ⟨⟨before', after'⟩, hcut, heq⟩
      obtain ⟨rfl, rfl⟩ := Prod.mk.inj heq
      obtain ⟨rfl, hfirst⟩ := ih.mp hcut
      refine ⟨rfl, fun hinfix => ?_⟩
      rcases List.infix_cons_iff.mp hinfix with hprefix | hinfix
      -- a separator that begins here would have been found here
      · obtain ⟨tail, htail⟩ := hprefix
        simp only [List.cons_append, List.nil_append, List.cons.injEq] at htail
        obtain ⟨rfl, rfl⟩ := htail
        exact hno _ rfl rfl
      · exact hfirst hinfix
    · rintro ⟨htext, hfirst⟩
      match before with
      | [] =>
        simp only [List.nil_append, List.cons_append, List.cons.injEq] at htext
        exact absurd htext.2 (hno _ htext.1)
      | c' :: before =>
        simp only [List.cons_append, List.cons.injEq] at htext
        obtain ⟨rfl, hrest⟩ := htext
        exact ⟨(before, after), ih.mpr ⟨hrest, fun h => hfirst (List.infix_cons h)⟩, rfl⟩
  | case3 =>
    rw [cutAtSeparator]
    simp

/-! ## One record -/

theorem toList_recordText (record : String × String) :
    (recordText record).toList =
      record.1.toList ++ recordSeparator.toList ++ record.2.toList := by
  simp [recordText]

/-- A text stands for a record just when it is that record's text, the first separator in it is the
one behind the flat name, the flat name is not empty and the path is absolute. -/
theorem record?_eq_some_iff {text : String} {record : String × String} :
    record? text = some record ↔
      text = recordText record ∧ ¬ HasSeparator record.1 ∧ record.1 ≠ "" ∧
        ObjectPath.isAbsolute record.2 = true := by
  obtain ⟨flat, path⟩ := record
  have htext : text = recordText (flat, path) ↔
      text.toList = flat.toList ++ recordSeparator.toList ++ path.toList := by
    rw [← String.toList_inj, toList_recordText]
  simp only [record?, Option.bind_eq_bind, Option.bind_eq_some_iff, Prod.exists,
    cutAtSeparator_eq_some_iff, htext, HasSeparator, ObjectPath.isAbsolute]
  constructor
  -- what is cut is a record if it has the form of one
  · rintro ⟨before, after, ⟨hcut, hfirst⟩, hrecord⟩
    split at hrecord
    · cases hrecord
    · next hform =>
      obtain ⟨rfl, rfl⟩ := Prod.mk.inj (Option.some.inj hrecord)
      simp only [not_or, ne_eq, not_not] at hform
      simp [hcut, hfirst, hform]
  · rintro ⟨hcut, hfirst, hflat, habsolute⟩
    refine ⟨_, _, ⟨hcut, hfirst⟩, ?_⟩
    rw [if_neg]
    · simp
    · simpa [String.toList_eq_nil_iff, hflat] using habsolute

/-- If the whole begins with a separator, what stands in front of one is nothing or does too. -/
theorem separator_append_eq {text more after : List Char}
    (h : ':' :: ' ' :: text = more ++ ':' :: ' ' :: after) :
    more = [] ∧ text = after ∨
      ∃ rest, more = ':' :: ' ' :: rest ∧ text = rest ++ ':' :: ' ' :: after := by
  rcases more with - | ⟨c, - | ⟨c', rest⟩⟩
  · simp only [List.nil_append, List.cons.injEq, true_and] at h
    exact Or.inl ⟨rfl, h⟩
  · simp at h
  · simp only [List.cons_append, List.cons.injEq] at h
    obtain ⟨rfl, rfl, h⟩ := h
    exact Or.inr ⟨rest, rfl, h⟩

/-- Where the flat name has no slash, the text of a record stands for no other record. -/
theorem record?_recordText_eq {record other : String × String}
    (hflat : separator ∉ record.1.toList) (h : record? (recordText record) = some other) :
    other = record := by
  obtain ⟨htext, hfirst, -, habsolute⟩ := record?_eq_some_iff.mp h
  have hsep : recordSeparator.toList = [':', ' '] := by decide
  have hlists := congrArg String.toList htext
  simp only [toList_recordText, hsep, List.append_assoc, List.cons_append,
    List.nil_append] at hlists
  -- one of the two flat names is the beginning of the other, and nothing is left of that
  have hsame : other.1.toList = record.1.toList ∧ other.2.toList = record.2.toList := by
    rcases List.append_eq_append_iff.mp hlists with ⟨more, hmore, hrest⟩ | ⟨more, hmore, hrest⟩
    · rcases separator_append_eq hrest with ⟨rfl, hpath⟩ | ⟨rest, rfl, -⟩
      · exact ⟨by rw [hmore, List.append_nil], hpath.symm⟩
      -- the other flat name would hold a separator
      · refine absurd ?_ hfirst
        rw [HasSeparator, hsep, hmore]
        exact ⟨record.1.toList, rest, by simp⟩
    · rcases separator_append_eq hrest with ⟨rfl, hpath⟩ | ⟨rest, rfl, hpath⟩
      · exact ⟨by rw [hmore, List.append_nil], hpath⟩
      -- the path begins with a slash, which neither the separator nor the flat name does
      · rw [ObjectPath.isAbsolute, hpath] at habsolute
        rcases rest with - | ⟨c, rest⟩
        · simp [separator] at habsolute
        · obtain rfl : c = separator := by simpa using habsolute
          exact absurd (by simp [hmore]) hflat
  exact Prod.ext (String.toList_inj.mp hsame.1) (String.toList_inj.mp hsame.2)

/-! ## All records of one kind -/

theorem readRecord_eq_ok_iff {name text : String} {record : String × String} :
    readRecord name text = .ok record ↔ record? text = some record := by
  rw [readRecord]
  cases record? text <;> simp

theorem readRecord_eq_error_iff {name text : String} {fault : Fault} :
    readRecord name text = .error fault ↔ record? text = none ∧ fault = .parse name text := by
  rw [readRecord]
  cases record? text <;> simp [eq_comm]

/-- Texts are read as a provenance just when they are the texts of its records and each of the
records is read back. -/
theorem ofAttribute_texts_eq_ok_iff {name : String} {texts : List String} {p : Provenance} :
    ofAttribute name (.texts texts) = .ok p ↔
      p.toAttribute = .texts texts ∧
        ∀ record ∈ p.records, ¬ HasSeparator record.1 ∧ record.1 ≠ "" ∧
          ObjectPath.isAbsolute record.2 = true := by
  obtain ⟨records⟩ := p
  simp only [ofAttribute, toAttribute, Except.map_eq_ok_iff, Except.mapM_eq_ok_iff,
    readRecord_eq_ok_iff, record?_eq_some_iff, mk.injEq, exists_eq_right,
    AttributeValue.texts.injEq]
  constructor
  · intro h
    -- text by text: each is the text of the record that was read from it
    have htexts := Forall₂.map_eq h (f := id) (g := recordText) fun _ _ hread => hread.1
    refine ⟨by simpa using htexts.symm, fun record hrecord => ?_⟩
    obtain ⟨text, -, hread⟩ := Forall₂.exists_left h hrecord
    exact hread.2
  · rintro ⟨rfl, hrecords⟩
    rw [List.forall₂_map_left_iff, List.forall₂_same]
    exact fun record hrecord => ⟨rfl, hrecords record hrecord⟩

/-- A provenance is read back just when each of its records is. -/
theorem ofAttribute_toAttribute_iff {name : String} {p : Provenance} :
    ofAttribute name p.toAttribute = .ok p ↔
      ∀ record ∈ p.records, ¬ HasSeparator record.1 ∧ record.1 ≠ "" ∧
        ObjectPath.isAbsolute record.2 = true :=
  ofAttribute_texts_eq_ok_iff.trans (and_iff_right rfl)

/-- Where no flat name has a slash, no other provenance is read. -/
theorem ofAttribute_toAttribute_eq {name : String} {p q : Provenance}
    (hflat : ∀ record ∈ p.records, separator ∉ record.1.toList)
    (h : ofAttribute name p.toAttribute = .ok q) : q = p := by
  obtain ⟨records⟩ := p
  simp only [ofAttribute, toAttribute, Except.map_eq_ok_iff, Except.mapM_eq_ok_iff,
    List.forall₂_map_left_iff, readRecord_eq_ok_iff] at h
  obtain ⟨others, hothers, rfl⟩ := h
  have hsame := (List.forall₂_and_left (p := (· ∈ records)) _ _).mpr
    ⟨fun record hrecord => hrecord, hothers⟩
  have heq := Forall₂.map_eq hsame (f := id) (g := id) fun record other hread =>
    (record?_recordText_eq (hflat record hread.1) hread.2).symm
  simpa using heq.symm

/-- A provenance that is not read back has a record whose text stands for none. -/
theorem ofAttribute_toAttribute_eq_error {name : String} {p : Provenance} {fault : Fault}
    (h : ofAttribute name p.toAttribute = .error fault) :
    ∃ record ∈ p.records, record? (recordText record) = none ∧
      fault = .parse name (recordText record) := by
  simp only [ofAttribute, toAttribute, Except.map_eq_error_iff, Except.mapM_eq_error_iff] at h
  obtain ⟨done, text, rest, out, hsplit, -, hread⟩ := h
  have hmem : text ∈ p.records.map recordText := by simp [hsplit]
  obtain ⟨record, hrecord, rfl⟩ := List.mem_map.mp hmem
  exact ⟨record, hrecord, readRecord_eq_error_iff.mp hread⟩

/-- Reading a provenance undoes writing it just when each record has a flat name that is not empty
and holds no separator, and a path that is absolute. Writing undoes reading without exception: texts
are read as a provenance only if they are its texts. -/
theorem reading_inverts_writing (name : String) :
    (∀ p : Provenance, ofAttribute name p.toAttribute = .ok p ↔
      ∀ record ∈ p.records, ¬ HasSeparator record.1 ∧ record.1 ≠ "" ∧
        ObjectPath.isAbsolute record.2 = true) ∧
    ∀ (texts : List String) (p : Provenance), ofAttribute name (.texts texts) = .ok p ↔
      p.toAttribute = .texts texts ∧
        ∀ record ∈ p.records, ¬ HasSeparator record.1 ∧ record.1 ≠ "" ∧
          ObjectPath.isAbsolute record.2 = true := by
  constructor
  · intro p
    exact ofAttribute_toAttribute_iff
  · intro texts p
    exact ofAttribute_texts_eq_ok_iff

/-- A flat name may end with the colon that a separator begins with, and a path may hold a
separator. A flat name that holds a separator is not read back. -/
theorem reading_inverts_writing_of_colons :
    ofAttribute "map" (.texts ["lat:: /lat: lon"]) = .ok ⟨[("lat:", "/lat: lon")]⟩ ∧
    ofAttribute "map" (toAttribute ⟨[("lat: lon", "/lat")]⟩) ≠ .ok ⟨[("lat: lon", "/lat")]⟩ := by
  have hlost : ¬ ∀ record ∈ [("lat: lon", "/lat")], ¬ HasSeparator record.1 ∧ record.1 ≠ "" ∧
      ObjectPath.isAbsolute record.2 = true := by decide +kernel
  constructor
  · exact ((reading_inverts_writing "map").2 _ _).mpr ⟨by decide +kernel, by decide⟩
  · exact mt ((reading_inverts_writing "map").1 _).mp hlost

end Provenance

/-! ## All three kinds -/

namespace ProvenanceMaps

/-- What is read from one attribute into the map of a name. -/
def ReadsEntry (name : String) (entry : String × AttributeValue) (p q : Provenance) : Prop :=
  if entry.1 = name then Provenance.ofAttribute entry.1 entry.2 = .ok q else p = q

theorem readAttribute_eq_ok_iff {maps maps' : ProvenanceMaps} {entry : String × AttributeValue} :
    maps.readAttribute entry = .ok maps' ↔
      ReadsEntry attributesName entry maps.attributes maps'.attributes ∧
      ReadsEntry dimensionsName entry maps.dimensions maps'.dimensions ∧
      ReadsEntry variablesName entry maps.vars maps'.vars := by
  have hdistinct : attributesName ≠ dimensionsName ∧ attributesName ≠ variablesName ∧
      dimensionsName ≠ variablesName := by decide
  obtain ⟨ha, hb, hc⟩ := hdistinct
  obtain ⟨attributes, dimensions, vars⟩ := maps
  obtain ⟨attributes', dimensions', vars'⟩ := maps'
  simp only [readAttribute, ReadsEntry]
  -- an attribute is read under one of the three names, or passed over
  by_cases hattributes : entry.1 = attributesName
  · simp [hattributes, ha, hb, Except.bind_eq_ok_iff, Except.pure_eq_ok_iff, -bind_pure_comp]
  · by_cases hdimensions : entry.1 = dimensionsName
    · simp [hdimensions, ha.symm, hc, Except.bind_eq_ok_iff, Except.pure_eq_ok_iff,
        -bind_pure_comp, and_left_comm]
    · by_cases hvars : entry.1 = variablesName
      · simp [hvars, hb.symm, hc.symm, Except.bind_eq_ok_iff, Except.pure_eq_ok_iff,
          -bind_pure_comp, and_assoc, and_comm]
      · simp [hattributes, hdimensions, hvars, Except.pure_eq_ok_iff]

/-- What is read from attributes into the map of a name, which is left as it is where none of them
has the name. -/
def Reads (attributes : Attributes) (name : String) (p q : Provenance) : Prop :=
  match Attributes.find? attributes name with
  | none => p = q
  | some value => Provenance.ofAttribute name value = .ok q

theorem reads_cons {entry : String × AttributeValue} {rest : Attributes} {name : String}
    {p r : Provenance} (hnodup : ((entry :: rest).map (·.1)).Nodup) :
    Reads (entry :: rest) name p r ↔ ∃ q, ReadsEntry name entry p q ∧ Reads rest name q r := by
  rw [List.map_cons, List.nodup_cons] at hnodup
  obtain ⟨n, value⟩ := entry
  simp only [Reads, ReadsEntry, Attributes.find?_cons]
  by_cases heq : n = name
  · -- the name does not occur again
    have hnone : Attributes.find? rest name = none :=
      Attributes.find?_eq_none_iff.mpr (heq ▸ hnodup.1)
    simp [heq, hnone]
  · simp [heq, Ne.symm heq]

/-- Where the names of the attributes are distinct, each of the three maps is read from its own
attribute. -/
theorem foldlM_readAttribute_eq_ok_iff {attributes : Attributes}
    (hnodup : (attributes.map (·.1)).Nodup) {start maps : ProvenanceMaps} :
    attributes.foldlM readAttribute start = .ok maps ↔
      Reads attributes attributesName start.attributes maps.attributes ∧
      Reads attributes dimensionsName start.dimensions maps.dimensions ∧
      Reads attributes variablesName start.vars maps.vars := by
  -- along the attributes, for any maps read from those before
  induction attributes generalizing start with
  | nil =>
    obtain ⟨a, d, v⟩ := start
    obtain ⟨a', d', v'⟩ := maps
    simp [Except.pure_eq_ok_iff, Reads, Attributes.find?_nil]
  | cons entry rest ih =>
    simp only [List.foldlM_cons, Except.bind_eq_ok_iff, readAttribute_eq_ok_iff,
      ih (List.nodup_cons.mp hnodup).2, reads_cons hnodup]
    constructor
    · rintro ⟨between, ⟨ha, hd, hv⟩, ha', hd', hv'⟩
      exact ⟨⟨_, ha, ha'⟩, ⟨_, hd, hd'⟩, ⟨_, hv, hv'⟩⟩
    · rintro ⟨⟨a, ha, ha'⟩, ⟨d, hd, hd'⟩, ⟨v, hv, hv'⟩⟩
      exact ⟨⟨a, d, v⟩, ⟨ha, hd, hv⟩, ha', hd', hv'⟩

end ProvenanceMaps

end GroupFlattening
