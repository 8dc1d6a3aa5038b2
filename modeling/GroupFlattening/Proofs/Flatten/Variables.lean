import GroupFlattening.Proofs.Dataset.Stored
import GroupFlattening.Proofs.Flatten.Steps
import GroupFlattening.Proofs.NameTable

/-!
# Carrying over a Variable

The step for one variable creates its flat copy, sets its attributes, replaces its references and
copies its data. When it succeeds, the root has one variable more than before, a `FlatCopy` of the
original, and its dimensions have grown as far as the data reaches (`variableStep_ok`). The names of
the variables and dimensions that were there may be anything, as long as they are distinct.
-/

namespace GroupFlattening.Flatten

open Dataset (IsFlat)
open ObjectPath (join separator)
open Transfer (recordOf appendRecords)

/-! ## Flat copies -/

/-- The attributes of a variable with the fill value in front. -/
def fillFirst (attributes : Attributes) : Attributes :=
  attributes.filter (fun entry => entry.1 == fillValueName) ++
    attributes.filter (fun entry => entry.1 != fillValueName)

theorem fillFirst_perm (attributes : Attributes) : (fillFirst attributes).Perm attributes :=
  List.filter_append_perm _ _

theorem nodup_fillFirst {attributes : Attributes} (h : (attributes.map (·.1)).Nodup) :
    ((fillFirst attributes).map (·.1)).Nodup :=
  (((fillFirst_perm attributes).map _).nodup_iff).mpr h

/-- What becomes of an attribute of the variable at a path: without a rule it is carried over as it
is, with a rule its references are replaced. -/
inductive CopiedAttribute (h : Hierarchy) (names : NameTable) (settings : Settings)
    (path : String) : String × AttributeValue → String × AttributeValue → Prop
  | same {name : String} {value : AttributeValue} :
      ReferenceRule.forAttribute? name = none →
      CopiedAttribute h names settings path (name, value) (name, value)
  | replaced {name : String} {value : AttributeValue} {rule : ReferenceRule} {text result : String}
      {node : Hierarchy.Variable} {settled : ReferenceSite.Settled} :
      ReferenceRule.forAttribute? name = some rule →
      value.referenceText name = .ok text →
      h.findVariable? path = some node →
      ReferenceSite.settle ⟨path, name, rule⟩ h node settings.laxMode text = .ok settled →
      ReferenceSite.replaceAll ⟨path, name, rule⟩ names settings.laxMode settled.references
        settled.resolutions = .ok result →
      CopiedAttribute h names settings path (name, value) (name, .text result)

/-- The flat copy of a variable of the group at `place`. -/
structure FlatCopy (input : Dataset) (h : Hierarchy) (names : NameTable) (settings : Settings)
    (place : String) (v copy : Dataset.Variable) : Prop where
  name : copy.name = flatName place v.name
  type : copy.type = v.type
  dimensions : List.Forall₂ (fun path flatPath => ∃ flat, names.dimensions.find? path = some flat ∧
    flatPath = join ObjectPath.root flat) v.dimensions copy.dimensions
  attributes : List.Forall₂ (CopiedAttribute h names settings (join place v.name))
    (fillFirst v.attributes) copy.attributes
  /-- The data of the original is there, if data is to be copied. -/
  data : settings.copyData = true → (∀ index, (v.cell index).HasType v.type) → ∀ index,
    copy.cell index =
      if (input.currentShape v).Within index then v.cell index else Cell.zero v.type

/-- A copy has one attribute of each name, as its original has. -/
theorem FlatCopy.nodup_attributes {input : Dataset} {h : Hierarchy} {names : NameTable}
    {settings : Settings} {place : String} {v copy : Dataset.Variable}
    (hcopy : FlatCopy input h names settings place v copy)
    (hnodup : (v.attributes.map (·.1)).Nodup) : (copy.attributes.map (·.1)).Nodup := by
  have hnames := Forall₂.map_eq hcopy.attributes (f := Prod.fst) (g := Prod.fst)
    fun entry copied hcopied => by cases hcopied <;> rfl
  rw [← hnames]
  exact nodup_fillFirst hnodup

/-! ## Creating the copy -/

section Create

variable {base : Dataset} (hb : base.IsFlat) {g : Dataset.Group} {p : ProvenanceMaps}
  {t' : Transfer Dataset}

include hb

omit hb in
/-- The dimensions of a copy have the flat names that the name table has for those of the
original. -/
theorem flatDimensions_ok {names : NameTable} {owner : String} {paths flatPaths : List String}
    (h : List.Forall₂ (fun path flatPath => Transfer.flatDimension names owner path = .ok flatPath)
      paths flatPaths) :
    ∃ flats, List.Forall₂ (fun path flat => names.dimensions.find? path = some flat) paths flats ∧
      flatPaths = flats.map (join ObjectPath.root) := by
  induction h with
  | nil => exact ⟨[], .nil, rfl⟩
  | @cons path flatPath rest rest' hpath _ ih =>
    obtain ⟨flats, hflats, rfl⟩ := ih
    obtain ⟨flat, hfind, rfl⟩ := Transfer.flatDimension_eq_ok_iff.mp hpath
    exact ⟨flat :: flats, .cons hfind hflats, rfl⟩

/-- Setting an attribute of the last variable changes that variable. -/
theorem setAttribute_ok {before : List Dataset.Variable} (copy : Dataset.Variable) {name : String}
    {value : AttributeValue} (hsep : separator ∉ copy.name.toList)
    (hnew : copy.name ∉ before.map (·.name))
    (h : Transfer.setAttribute (join ObjectPath.root copy.name) name value
      ⟨base.withRoot { g with vars := before ++ [copy] }, p⟩ = .ok () t') :
    t' = ⟨base.withRoot { g with
      vars := before ++ [{ copy with attributes := copy.attributes.set name value }] }, p⟩ := by
  obtain ⟨output, hset, rfl⟩ := Transfer.onOutput_eq_ok_iff.mp h
  obtain ⟨-, rfl⟩ := hb.setVariableAttribute_join hsep hset
  rw [Dataset.changeFirst_append_singleton hnew rfl]

/-- Carrying over attributes of new names appends them to those that are there. -/
theorem variableAttributes_ok {before : List Dataset.Variable} (copy : Dataset.Variable)
    {path : String} {entries : Attributes} {pending : List (Option Transfer.Pending)}
    (hsep : separator ∉ copy.name.toList) (hnew : copy.name ∉ before.map (·.name))
    (hnodup : ((copy.attributes ++ entries).map (·.1)).Nodup)
    (h : entries.mapM (Transfer.variableAttribute path (join ObjectPath.root copy.name))
      ⟨base.withRoot { g with vars := before ++ [copy] }, p⟩ = .ok pending t') :
    t' = ⟨base.withRoot { g with
        vars := before ++ [{ copy with attributes := copy.attributes ++ entries }] }, p⟩ ∧
      List.Forall₂ (fun entry pending =>
        Transfer.pending? path (join ObjectPath.root copy.name) entry = .ok pending)
        entries pending := by
  -- along the attributes: those done stand behind the fill value, in order
  refine EStateM.mapM_induction
    (I := fun done out t => t = ⟨base.withRoot { g with
        vars := before ++ [{ copy with attributes := copy.attributes ++ done }] }, p⟩ ∧
      List.Forall₂ (fun entry pending =>
        Transfer.pending? path (join ObjectPath.root copy.name) entry = .ok pending) done out)
    (fun done out entry rest s o s' hsplit hs hstep => ?_) ⟨by simp, .nil⟩ h
  obtain ⟨rfl, hout⟩ := hs
  obtain ⟨o', t₁, hcompute, hstep⟩ := EStateM.bind_eq_ok_iff.mp hstep
  obtain ⟨hpending, rfl⟩ := Transfer.compute_eq_ok_iff.mp hcompute
  obtain ⟨⟨⟩, t₂, hset, hpure⟩ := EStateM.bind_eq_ok_iff.mp hstep
  obtain ⟨rfl, rfl⟩ := EStateM.pure_eq_ok_iff.mp hpure
  -- an attribute of a new name is set behind those that are there
  have hlast := setAttribute_ok hb { copy with attributes := copy.attributes ++ done } hsep
    hnew hset
  have hfresh : entry.1 ∉ (copy.attributes ++ done).map (·.1) := by
    rw [hsplit, ← List.append_assoc, List.map_append] at hnodup
    intro hmem
    exact (List.nodup_append.mp hnodup).2.2 _ hmem entry.1 (by simp) rfl
  rw [Attributes.set_of_not_mem hfresh, List.append_assoc] at hlast
  exact ⟨hlast, Forall₂.append hout (.cons hpending .nil)⟩

/-- Creating the copy of a variable appends it to the variables of the root, with all attributes
as they are and the fill value in front. -/
theorem createVariable_ok {input : Dataset} {names : NameTable} {place : String}
    (info : VariableInfo) {attributes : Attributes} {created : Transfer.Created}
    (hsep : separator ∉ (flatName place info.name).toList)
    (hread : input.variableAttributes (join place info.name) = .ok attributes)
    (hnodup : (attributes.map (·.1)).Nodup)
    (h : Transfer.createVariable input names place info ⟨base.withRoot g, p⟩ = .ok created t') :
    ∃ flats shape pending,
      List.Forall₂ (fun path flat => names.dimensions.find? path = some flat) info.dimensions
        flats ∧
      (base.withRoot g).shapeOf (flats.map (join ObjectPath.root)) = .ok shape ∧
      flatName place info.name ∉ g.vars.map (·.name) ∧
      t' = ⟨base.withRoot { g with
          vars := g.vars ++ [⟨flatName place info.name, info.type,
            flats.map (join ObjectPath.root), fillFirst attributes, shape, ∅⟩] },
        { p with vars := appendRecords p.vars [recordOf place info.name] }⟩ ∧
      List.Forall₂ (fun entry pending => Transfer.pending? (join place info.name)
        (join ObjectPath.root (flatName place info.name)) entry = .ok pending)
        (attributes.filter fun entry => entry.1 != fillValueName) pending ∧
      created = ⟨join place info.name, join ObjectPath.root (flatName place info.name),
        pending.filterMap id⟩ := by
  simp only [Transfer.createVariable] at h
  -- first all is read: the flat dimensions and the attributes
  obtain ⟨dims, t₁, hcompute, h⟩ := EStateM.bind_eq_ok_iff.mp h
  obtain ⟨hdims, rfl⟩ := Transfer.compute_eq_ok_iff.mp hcompute
  obtain ⟨attributes', t₂, hinput, h⟩ := EStateM.bind_eq_ok_iff.mp h
  obtain ⟨hattributes, rfl⟩ := Transfer.fromInput_eq_ok_iff.mp hinput
  have hattributes : input.variableAttributes (join place info.name) = .ok attributes' :=
    hattributes
  rw [hread] at hattributes
  obtain rfl := Except.ok.inj hattributes
  -- the copy is created with its dimensions and its fill value
  obtain ⟨⟨⟩, t₃, honOutput, h⟩ := EStateM.bind_eq_ok_iff.mp h
  obtain ⟨output, hcreate, rfl⟩ := Transfer.onOutput_eq_ok_iff.mp honOutput
  obtain ⟨hnew, shape, hshape, rfl⟩ := hb.createVariable hcreate
  obtain ⟨⟨⟩, t₄, hrecord, h⟩ := EStateM.bind_eq_ok_iff.mp h
  obtain rfl := Transfer.record_eq_ok_iff.mp hrecord
  -- all other attributes are set, and those with a rule remembered
  obtain ⟨pending, t₅, hothers, hpure⟩ := EStateM.bind_eq_ok_iff.mp h
  obtain ⟨rfl, rfl⟩ := EStateM.pure_eq_ok_iff.mp hpure
  -- the fill value came with the creation, so the others are set behind it
  obtain ⟨flats, hflats, rfl⟩ := flatDimensions_ok (Except.mapM_eq_ok_iff.mp hdims)
  have hfill := Attributes.filter_eq_find? hnodup fillValueName
  have hnodupFill := nodup_fillFirst hnodup
  rw [fillFirst, hfill] at hnodupFill
  obtain ⟨rfl, hpending⟩ := variableAttributes_ok hb (.ofDefinition
    ⟨flatName place info.name, info.type, flats.map (join ObjectPath.root),
      Attributes.find? attributes fillValueName⟩ shape) hsep hnew hnodupFill hothers
  refine ⟨flats, shape, pending, hflats, hshape, hnew, ?_, hpending, rfl⟩
  rw [fillFirst, hfill]
  rfl

end Create

/-! ## Replacing references -/

/-- What a pending attribute of the variable at a path is set to. -/
def Replaced (h : Hierarchy) (names : NameTable) (settings : Settings) (path : String)
    (pending : Transfer.Pending) (entry : String × AttributeValue) : Prop :=
  ∃ node settled result, h.findVariable? path = some node ∧
    pending.site.settle h node settings.laxMode pending.value = .ok settled ∧
    pending.site.replaceAll names settings.laxMode settled.references settled.resolutions =
      .ok result ∧
    entry = (pending.name, .text result)

theorem surveyed_eq_ok_iff {h : Hierarchy} {path : String} {v : Hierarchy.Variable} :
    surveyed h path = .ok v ↔ h.findVariable? path = some v := by
  rw [surveyed]
  cases h.findVariable? path with
  | none => simp
  | some w => simp

theorem settlePending_eq_ok_iff {h : Hierarchy} {settings : Settings} {v : Hierarchy.Variable}
    {pending : Transfer.Pending} {entry : Transfer.Pending × ReferenceSite.Settled} :
    settlePending h settings v pending = .ok entry ↔ ∃ settled,
      pending.site.settle h v settings.laxMode pending.value = .ok settled ∧
        (pending, settled) = entry := by
  simp only [settlePending, Except.bind_eq_ok_iff, Except.pure_eq_ok_iff]

/-- What a settled attribute is set to. -/
def SettledReplaced (names : NameTable) (settings : Settings)
    (settled : Transfer.Pending × ReferenceSite.Settled) (entry : String × AttributeValue) : Prop :=
  ∃ result, settled.1.site.replaceAll names settings.laxMode settled.2.references
      settled.2.resolutions = .ok result ∧
    entry = (settled.1.name, .text result)

section Settled

variable {h : Hierarchy} {names : NameTable} {settings : Settings} {v : Hierarchy.Variable}
  {pendings : List Transfer.Pending} {settled : List (Transfer.Pending × ReferenceSite.Settled)}
  (hsettled : List.Forall₂
    (fun pending entry => settlePending h settings v pending = .ok entry) pendings settled)

include hsettled

/-- A settled attribute comes from a pending one of the same variable. -/
theorem flatOwner_of_settled {flatPath : String}
    (howner : ∀ pending ∈ pendings, pending.flatOwner = flatPath) :
    ∀ entry ∈ settled, entry.1.flatOwner = flatPath := by
  intro entry hentry
  obtain ⟨pending, hpending, hsettle⟩ := Forall₂.exists_left hsettled hentry
  obtain ⟨s, -, rfl⟩ := settlePending_eq_ok_iff.mp hsettle
  exact howner pending hpending

theorem replaced_of_settled {path : String} (hnode : h.findVariable? path = some v)
    {texts : List (String × AttributeValue)}
    (htexts : List.Forall₂ (SettledReplaced names settings) settled texts) :
    List.Forall₂ (Replaced h names settings path) pendings texts := by
  refine (Forall₂.comp hsettled htexts).imp fun pending e he => ?_
  obtain ⟨entry, hsettle, result, hresult, rfl⟩ := he
  obtain ⟨s, hs, rfl⟩ := settlePending_eq_ok_iff.mp hsettle
  exact ⟨v, s, result, hnode, hs, hresult, rfl⟩

end Settled

section Replace

variable {base : Dataset} (hb : base.IsFlat) {g : Dataset.Group} {p : ProvenanceMaps}
  {t' : Transfer Dataset} {before : List Dataset.Variable} (copy : Dataset.Variable)
  {names : NameTable} {settings : Settings} (hsep : separator ∉ copy.name.toList)
  (hnew : copy.name ∉ before.map (·.name))

include hb hsep hnew

/-- Replacing the references of an attribute of the last variable sets that attribute. -/
theorem replacePending_ok {pending : Transfer.Pending} {settled : ReferenceSite.Settled}
    {unnamed : List DegradedReference}
    (howner : pending.flatOwner = join ObjectPath.root copy.name)
    (hrun : replacePending names settings (pending, settled)
      ⟨base.withRoot { g with vars := before ++ [copy] }, p⟩ = .ok unnamed t') :
    ∃ result, pending.site.replaceAll names settings.laxMode settled.references
        settled.resolutions = .ok result ∧
      t' = ⟨base.withRoot { g with vars := before ++
        [{ copy with attributes := copy.attributes.set pending.name (.text result) }] }, p⟩ := by
  obtain ⟨result, t₁, hcompute, hrest⟩ := EStateM.bind_eq_ok_iff.mp hrun
  obtain ⟨hresult, rfl⟩ := Transfer.compute_eq_ok_iff.mp hcompute
  obtain ⟨⟨⟩, t₂, hset, hpure⟩ := EStateM.bind_eq_ok_iff.mp hrest
  obtain ⟨-, rfl⟩ := EStateM.pure_eq_ok_iff.mp hpure
  -- the attribute is set at the copy, which is the last variable
  rw [howner] at hset
  exact ⟨result, hresult, setAttribute_ok hb copy hsep hnew hset⟩

/-- Replacing the references of settled attributes of the last variable sets one after the other. -/
theorem replaceSettled_ok {settled : List (Transfer.Pending × ReferenceSite.Settled)}
    {unnamed : List (List DegradedReference)}
    (howner : ∀ entry ∈ settled, entry.1.flatOwner = join ObjectPath.root copy.name)
    (hrun : settled.mapM (replacePending names settings)
      ⟨base.withRoot { g with vars := before ++ [copy] }, p⟩ = .ok unnamed t') :
    ∃ texts, List.Forall₂ (SettledReplaced names settings) settled texts ∧
      t' = ⟨base.withRoot { g with
        vars := before ++ [{ copy with attributes := Attributes.setAll copy.attributes texts }] },
        p⟩ := by
  -- along the settled attributes: the texts of those done are set at the copy
  refine EStateM.mapM_induction
    (I := fun done _ t => ∃ texts, List.Forall₂ (SettledReplaced names settings) done texts ∧
      t = ⟨base.withRoot { g with
        vars := before ++ [{ copy with attributes := Attributes.setAll copy.attributes texts }] },
        p⟩)
    (fun done _ entry rest t _ t' hsplit ht hstep => ?_) ⟨[], .nil, rfl⟩ hrun
  obtain ⟨texts, htexts, rfl⟩ := ht
  obtain ⟨result, hresult, hlast⟩ := replacePending_ok hb
    { copy with attributes := Attributes.setAll copy.attributes texts } hsep hnew
    (howner entry (by simp [hsplit])) hstep
  refine ⟨texts ++ [(entry.1.name, .text result)],
    Forall₂.append htexts (.cons ⟨result, hresult, rfl⟩ .nil), ?_⟩
  rw [hlast, Attributes.setAll_append]
  rfl

/-- Replacing the references of the last variable sets its pending attributes. -/
theorem references_ok {h : Hierarchy} {created : Transfer.Created} {tally : Tally}
    (howner : ∀ pending ∈ created.pending, pending.flatOwner = join ObjectPath.root copy.name)
    (hrun : references h names settings created
      ⟨base.withRoot { g with vars := before ++ [copy] }, p⟩ = .ok tally t') :
    ∃ texts, List.Forall₂ (Replaced h names settings created.path) created.pending texts ∧
      t' = ⟨base.withRoot { g with
        vars := before ++ [{ copy with attributes := Attributes.setAll copy.attributes texts }] },
        p⟩ := by
  rw [references] at hrun
  split at hrun
  -- without pending attributes the copy stays as it is
  · next hempty =>
    obtain ⟨-, rfl⟩ := EStateM.pure_eq_ok_iff.mp hrun
    rw [List.isEmpty_iff.mp hempty]
    exact ⟨[], .nil, rfl⟩
  · obtain ⟨node, t₁, hcompute, hrest⟩ := EStateM.bind_eq_ok_iff.mp hrun
    obtain ⟨hnode, rfl⟩ := Transfer.compute_eq_ok_iff.mp hcompute
    -- all are settled first, and then replaced one after another
    obtain ⟨settled, t₂, hcompute', hrest'⟩ := EStateM.bind_eq_ok_iff.mp hrest
    obtain ⟨hsettled, rfl⟩ := Transfer.compute_eq_ok_iff.mp hcompute'
    obtain ⟨unnamed, t₃, hwalk, hpure⟩ := EStateM.bind_eq_ok_iff.mp hrest'
    obtain ⟨-, rfl⟩ := EStateM.pure_eq_ok_iff.mp hpure
    have hsettled := Except.mapM_eq_ok_iff.mp hsettled
    obtain ⟨texts, htexts, rfl⟩ := replaceSettled_ok hb copy hsep hnew
      (flatOwner_of_settled hsettled howner) hwalk
    exact ⟨texts, replaced_of_settled hsettled (surveyed_eq_ok_iff.mp hnode) htexts, rfl⟩

end Replace

theorem pending?_eq_ok_iff {path flatPath : String} {entry : String × AttributeValue}
    {pending : Option Transfer.Pending} :
    Transfer.pending? path flatPath entry = .ok pending ↔
      (ReferenceRule.forAttribute? entry.1 = none ∧ pending = none) ∨
        ∃ rule text, ReferenceRule.forAttribute? entry.1 = some rule ∧
          entry.2.referenceText entry.1 = .ok text ∧
          pending = some ⟨path, flatPath, entry.1, text, rule⟩ := by
  rw [Transfer.pending?]
  -- an attribute is pending exactly if it has a rule
  cases ReferenceRule.forAttribute? entry.1 with
  | none => simp [eq_comm]
  | some rule =>
    simp only [Except.bind_eq_ok_iff, Except.pure_eq_ok_iff, reduceCtorEq, false_and, false_or]
    constructor
    · rintro ⟨text, htext, rfl⟩
      exact ⟨rule, text, rfl, htext, rfl⟩
    · rintro ⟨rule', text, hrule, htext, rfl⟩
      obtain rfl := Option.some.inj hrule
      exact ⟨text, htext, rfl⟩

/-- A copy that has been created is one of the variable at the path, and what is pending for it
comes from the attributes other than the fill value. -/
theorem created_of_createVariable {ι σ : Type} [Readable ι] [Writable σ] {input : ι}
    {names : NameTable} {group : String} {info : VariableInfo} {t t' : Transfer σ}
    {created : Transfer.Created}
    (hrun : Transfer.createVariable input names group info t = .ok created t') :
    ∃ attributes pending,
      Readable.variableAttributes input (join group info.name) = .ok attributes ∧
      List.Forall₂ (fun entry pending => Transfer.pending? (join group info.name)
          (join ObjectPath.root (flatName group info.name)) entry = .ok pending)
        (attributes.filter fun entry => entry.1 != fillValueName) pending ∧
      created = ⟨join group info.name, join ObjectPath.root (flatName group info.name),
        pending.filterMap id⟩ := by
  obtain ⟨dimensions, t₁, -, hrun⟩ := EStateM.bind_eq_ok_iff.mp hrun
  obtain ⟨attributes, t₂, hread, hrun⟩ := EStateM.bind_eq_ok_iff.mp hrun
  obtain ⟨hattributes, -⟩ := Transfer.fromInput_eq_ok_iff.mp hread
  obtain ⟨⟨⟩, t₃, -, hrun⟩ := EStateM.bind_eq_ok_iff.mp hrun
  obtain ⟨⟨⟩, t₄, -, hrun⟩ := EStateM.bind_eq_ok_iff.mp hrun
  obtain ⟨pending, t₅, hpending, hpure⟩ := EStateM.bind_eq_ok_iff.mp hrun
  obtain ⟨rfl, -⟩ := EStateM.pure_eq_ok_iff.mp hpure
  refine ⟨attributes, pending, hattributes, ?_, rfl⟩
  -- each attribute gives what may be pending of it
  refine EStateM.forall₂_of_mapM (fun entry _ s o s' hstep => ?_) hpending
  obtain ⟨o', t₁, hcompute, hstep⟩ := EStateM.bind_eq_ok_iff.mp hstep
  obtain ⟨⟨⟩, t₂, -, hpure⟩ := EStateM.bind_eq_ok_iff.mp hstep
  obtain ⟨rfl, -⟩ := EStateM.pure_eq_ok_iff.mp hpure
  exact (Transfer.compute_eq_ok_iff.mp hcompute).1

/-- What is pending after a copy was created belongs to it, and has the rule of its attribute. -/
theorem pending_of_created {ι σ : Type} [Readable ι] [Writable σ] {input : ι}
    {names : NameTable} {group : String} {info : VariableInfo} {t t' : Transfer σ}
    {created : Transfer.Created}
    (hrun : Transfer.createVariable input names group info t = .ok created t') :
    ∀ pending ∈ created.pending, pending.owner = created.path ∧
      pending.flatOwner = created.flatPath ∧
      ReferenceRule.forAttribute? pending.name = some pending.rule := by
  obtain ⟨attributes, pendings, -, hpendings, rfl⟩ := created_of_createVariable hrun
  intro pending hpending
  obtain ⟨o, ho, rfl⟩ := List.mem_filterMap.mp hpending
  obtain ⟨entry, -, hentry⟩ := Forall₂.exists_left hpendings ho
  -- what is pending was read from an attribute with a rule
  rcases pending?_eq_ok_iff.mp hentry with ⟨-, hnone⟩ | ⟨rule, text, hrule, -, heq⟩
  · cases hnone
  · obtain rfl := Option.some.inj heq
    exact ⟨rfl, rfl, hrule⟩

/-- Pending attributes are listed in the order of the attributes. -/
theorem names_sublist {path flatPath : String} {entries : Attributes}
    {pending : List (Option Transfer.Pending)}
    (hpending : List.Forall₂ (fun entry pending =>
      Transfer.pending? path flatPath entry = .ok pending) entries pending) :
    ((pending.filterMap id).map (·.name)).Sublist (entries.map (·.1)) := by
  induction hpending with
  | nil => exact List.Sublist.slnil
  | cons hentry _ ih =>
    rcases pending?_eq_ok_iff.mp hentry with ⟨-, rfl⟩ | ⟨rule, text, -, -, rfl⟩
    · exact ih.cons _
    · exact ih.cons_cons _

section Copied

variable {h : Hierarchy} {names : NameTable} {settings : Settings} {path flatPath : String}
  {entries : Attributes} {pending : List (Option Transfer.Pending)}
  {texts : List (String × AttributeValue)}
  (hpending : List.Forall₂ (fun entry pending =>
    Transfer.pending? path flatPath entry = .ok pending) entries pending)
  (htexts : List.Forall₂ (Replaced h names settings path) (pending.filterMap id) texts)

include hpending htexts

/-- The texts are listed in the order of the attributes. -/
theorem sublist_names_texts : (texts.map (·.1)).Sublist (entries.map (·.1)) := by
  have hnames : texts.map (·.1) = (pending.filterMap id).map (·.name) :=
    (Forall₂.map_eq htexts fun pending e he => by obtain ⟨_, _, _, -, -, -, rfl⟩ := he; rfl).symm
  rw [hnames]
  exact names_sublist hpending

/-- No text has the name of an attribute without a rule. -/
theorem not_mem_names_texts {name : String} (hrule : ReferenceRule.forAttribute? name = none) :
    name ∉ texts.map (·.1) := by
  intro hmem
  obtain ⟨e, he, rfl⟩ := List.mem_map.mp hmem
  obtain ⟨q, hq, _, _, _, -, -, -, rfl⟩ := Forall₂.exists_left htexts he
  obtain ⟨o, ho, rfl⟩ := List.mem_filterMap.mp hq
  obtain ⟨entry, -, hentry⟩ := Forall₂.exists_left hpending ho
  -- only attributes with a rule are replaced
  rcases pending?_eq_ok_iff.mp hentry with ⟨-, hnone⟩ | ⟨rule, text, hsome, -, heq⟩
  · cases hnone
  · obtain rfl := Option.some.inj heq
    rw [hsome] at hrule
    cases hrule

/-- An attribute with a rule has its text. -/
theorem exists_text_of_rule {name : String} {value : AttributeValue} {rule : ReferenceRule}
    (hentry : (name, value) ∈ entries) (hrule : ReferenceRule.forAttribute? name = some rule) :
    ∃ e ∈ texts, e.1 = name ∧
      CopiedAttribute h names settings path (name, value) (name, e.2) := by
  obtain ⟨o, ho, hpend⟩ := Forall₂.exists_right hpending hentry
  -- with a rule it was pending, and what was pending was replaced
  rcases pending?_eq_ok_iff.mp hpend with ⟨hnone, -⟩ | ⟨rule', text, hrule', htext, rfl⟩
  · rw [hnone] at hrule
    cases hrule
  · have hq : (⟨path, flatPath, name, text, rule'⟩ : Transfer.Pending) ∈ pending.filterMap id :=
      List.mem_filterMap.mpr ⟨_, ho, rfl⟩
    obtain ⟨e, he, node, settled, result, hnode, hsettled, hresult, rfl⟩ :=
      Forall₂.exists_right htexts hq
    exact ⟨_, he, rfl, .replaced hrule' htext hnode hsettled hresult⟩

end Copied

/-- The attributes of a copy after its references were replaced. -/
theorem copiedAttributes {h : Hierarchy} {names : NameTable} {settings : Settings}
    {path flatPath : String} {attributes : Attributes} (hnodup : (attributes.map (·.1)).Nodup)
    {pending : List (Option Transfer.Pending)}
    (hpending : List.Forall₂ (fun entry pending =>
        Transfer.pending? path flatPath entry = .ok pending)
      (attributes.filter fun entry => entry.1 != fillValueName) pending)
    {texts : List (String × AttributeValue)}
    (htexts : List.Forall₂ (Replaced h names settings path) (pending.filterMap id) texts) :
    List.Forall₂ (CopiedAttribute h names settings path) (fillFirst attributes)
      (Attributes.setAll (fillFirst attributes) texts) := by
  have hsublist := sublist_names_texts hpending htexts
  have hnodupTexts : (texts.map (·.1)).Nodup :=
    hsublist.nodup (hnodup.sublist (List.filter_sublist.map _))
  -- every text replaces the value of an attribute that the copy has
  have hthere : ∀ e ∈ texts, e.1 ∈ (fillFirst attributes).map (·.1) := by
    intro e he
    rw [fillFirst, List.map_append]
    exact List.mem_append_right _ (hsublist.subset (List.mem_map_of_mem he))
  rw [Attributes.setAll_eq_map (nodup_fillFirst hnodup) hthere, List.forall₂_map_right_iff,
    List.forall₂_same]
  rintro ⟨name, value⟩ ha
  have ha := (fillFirst_perm attributes).mem_iff.mp ha
  cases hrule : ReferenceRule.forAttribute? name with
  | none =>
    have hnone : Attributes.find? texts.reverse name = none := by
      rw [Attributes.find?_eq_none_iff, List.map_reverse, List.mem_reverse]
      exact not_mem_names_texts hpending htexts hrule
    rw [hnone]
    exact .same hrule
  | some rule =>
    -- the fill value is not among the attributes that were set, but it has no rule either
    have hfill : name ≠ fillValueName := by
      rintro rfl
      rw [show ReferenceRule.forAttribute? fillValueName = none by decide] at hrule
      cases hrule
    have hother : (name, value) ∈ attributes.filter fun entry => entry.1 != fillValueName := by
      simp [ha, hfill]
    obtain ⟨⟨_, text⟩, he, rfl, hcopied⟩ := exists_text_of_rule hpending htexts hother hrule
    rw [Attributes.find?_reverse_of_mem hnodupTexts he]
    exact hcopied

end GroupFlattening.Flatten
