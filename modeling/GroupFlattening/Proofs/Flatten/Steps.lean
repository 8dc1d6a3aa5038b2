import GroupFlattening.Flatten.Session
import GroupFlattening.Proofs.Attribute
import GroupFlattening.Proofs.Dataset.Flat

/-!
# Steps of a Transfer

What the steps of a transfer do when they succeed: reads and computations leave the transfer as it
is, writes change its output, records its provenance. On top of these, the steps that carry over
the attributes and the dimensions of a group are determined completely: the attributes are set one
after the other, the dimensions are appended in their order, and each leaves one record.

Steps that only touch dimensions and variables are gathered in `Spares`, which is closed under the
ways in which steps are put together.
-/

namespace GroupFlattening.Transfer

open Dataset (IsFlat)
open ObjectPath (join)

/-! ## Elementary steps -/

section Elementary

variable {σ α : Type} {t t' : Transfer σ} {a : α}

theorem fromInput_eq_ok_iff {read : Except StoreFault α} :
    fromInput read t = .ok a t' ↔ read = .ok a ∧ t = t' := by
  unfold fromInput
  cases read <;> simp

theorem compute_eq_ok_iff {result : Except Fault α} :
    compute result t = .ok a t' ↔ result = .ok a ∧ t = t' := by
  unfold compute
  cases result <;> simp

theorem onOutput_eq_ok_iff {write : EStateM StoreFault σ α} :
    onOutput write t = .ok a t' ↔
      ∃ output, write t.output = .ok a output ∧ { t with output := output } = t' := by
  unfold onOutput
  cases write t.output <;> simp

theorem fromInput_eq_error_iff {fault : Fault} {read : Except StoreFault α} :
    fromInput read t = .error fault t' ↔
      ∃ cause, read = .error cause ∧ .store cause = fault ∧ t = t' := by
  unfold fromInput
  cases read <;> simp

theorem compute_eq_error_iff {fault : Fault} {result : Except Fault α} :
    compute result t = .error fault t' ↔ result = .error fault ∧ t = t' := by
  unfold compute
  cases result <;> simp

theorem onOutput_eq_error_iff {fault : Fault} {write : EStateM StoreFault σ α} :
    onOutput write t = .error fault t' ↔ ∃ cause output,
      write t.output = .error cause output ∧ .store cause = fault ∧
        { t with output := output } = t' := by
  unfold onOutput
  cases write t.output <;> simp

theorem record_eq_ok_iff {change : ProvenanceMaps → ProvenanceMaps} :
    record change t = .ok () t' ↔ { t with provenance := change t.provenance } = t' := by
  simp [record]

end Elementary

section FlatDimension

variable {names : NameTable} {owner path : String}

theorem flatDimension_eq_ok_iff {flatPath : String} :
    flatDimension names owner path = .ok flatPath ↔
      ∃ flat, names.dimensions.find? path = some flat ∧ join ObjectPath.root flat = flatPath := by
  unfold flatDimension
  cases names.dimensions.find? path <;> simp

theorem flatDimension_eq_error_iff {fault : Fault} :
    flatDimension names owner path = .error fault ↔ names.dimensions.find? path = none ∧
      .store (.notFound (.dimensionOf path owner)) = fault := by
  unfold flatDimension
  cases names.dimensions.find? path <;> simp

end FlatDimension

/-! ## Carrying over a group -/

/-- The record of an object: its flat name and its path. -/
def recordOf (place name : String) : String × String := (flatName place name, join place name)

/-- A provenance with records added behind those it has. -/
def appendRecords (provenance : Provenance) (records : List (String × String)) : Provenance :=
  ⟨provenance.records ++ records⟩

/-- The flat copy of a dimension as it is created. -/
def createdDimension (place : String) (dim : Dimension) : Dimension :=
  ⟨flatName place dim.name, if dim.isUnlimited then 0 else dim.size, dim.isUnlimited⟩

theorem create_flatName (place : String) (dim : Dimension) :
    Dimension.create (flatName place dim.name) dim.creationSize = createdDimension place dim := by
  rw [Dimension.creationSize, createdDimension]
  cases dim.isUnlimited <;> rfl

section Group

variable {base : Dataset} (hb : base.IsFlat) {g : Dataset.Group} {p : ProvenanceMaps}
  {t' : Transfer Dataset} {place : String}

include hb

theorem groupAttribute_ok {entry : String × AttributeValue}
    (h : groupAttribute place entry ⟨base.withRoot g, p⟩ = .ok () t') :
    t' = ⟨base.withRoot { g with
        attributes := g.attributes.set (flatName place entry.1) entry.2 },
      { p with attributes := appendRecords p.attributes [recordOf place entry.1] }⟩ := by
  obtain ⟨⟨⟩, t₁, hwrite, hrecord⟩ := EStateM.bind_eq_ok_iff.mp h
  obtain ⟨output, hset, rfl⟩ := onOutput_eq_ok_iff.mp hwrite
  rw [hb.setGroupAttribute hset] at hrecord
  exact (record_eq_ok_iff.mp hrecord).symm

/-- The attributes of a group are set under their flat names, one after the other. -/
theorem groupAttributes_ok {entries : List (String × AttributeValue)}
    (h : entries.forM (groupAttribute place) ⟨base.withRoot g, p⟩ = .ok () t') :
    t' = ⟨base.withRoot { g with
        attributes := g.attributes.setAll (entries.map fun e => (flatName place e.1, e.2)) },
      { p with attributes :=
          appendRecords p.attributes (entries.map fun e => recordOf place e.1) }⟩ := by
  -- along the attributes: those done are set and recorded
  refine EStateM.forM_induction
    (I := fun done t => t = ⟨base.withRoot { g with
        attributes := g.attributes.setAll (done.map fun e => (flatName place e.1, e.2)) },
      { p with attributes :=
          appendRecords p.attributes (done.map fun e => recordOf place e.1) }⟩)
    (fun done entry rest s s' _ hs hstep => ?_) ?_ h
  · rw [hs] at hstep
    rw [groupAttribute_ok hb hstep]
    simp [Attributes.setAll, appendRecords]
  · simp [Attributes.setAll, appendRecords]

theorem dimension_ok {dim : Dimension}
    (h : dimension place dim ⟨base.withRoot g, p⟩ = .ok () t') :
    flatName place dim.name ∉ g.dimensions.map (·.name) ∧
      t' = ⟨base.withRoot { g with
          dimensions := g.dimensions ++ [createdDimension place dim] },
        { p with dimensions := appendRecords p.dimensions [recordOf place dim.name] }⟩ := by
  obtain ⟨⟨⟩, t₁, hwrite, hrecord⟩ := EStateM.bind_eq_ok_iff.mp h
  obtain ⟨output, hcreate, rfl⟩ := onOutput_eq_ok_iff.mp hwrite
  obtain ⟨hnew, houtput⟩ := hb.createDimension hcreate
  rw [houtput, create_flatName] at hrecord
  exact ⟨hnew, (record_eq_ok_iff.mp hrecord).symm⟩

/-- The dimensions of a group are appended under their flat names, none of which was there. -/
theorem dimensions_ok {dims : List Dimension}
    (h : dims.forM (dimension place) ⟨base.withRoot g, p⟩ = .ok () t')
    (hnodup : (g.dimensions.map (·.name)).Nodup) :
    ((g.dimensions ++ dims.map (createdDimension place)).map (·.name)).Nodup ∧
      t' = ⟨base.withRoot { g with
          dimensions := g.dimensions ++ dims.map (createdDimension place) },
        { p with dimensions :=
            appendRecords p.dimensions (dims.map fun dim => recordOf place dim.name) }⟩ := by
  -- along the dimensions: those done are appended, with names that are still distinct
  refine EStateM.forM_induction
    (I := fun done t => ((g.dimensions ++ done.map (createdDimension place)).map (·.name)).Nodup ∧
      t = ⟨base.withRoot { g with
          dimensions := g.dimensions ++ done.map (createdDimension place) },
        { p with dimensions :=
            appendRecords p.dimensions (done.map fun dim => recordOf place dim.name) }⟩)
    (fun done dim rest s s' _ hs hstep => ?_) ?_ h
  · obtain ⟨hnodup, rfl⟩ := hs
    obtain ⟨hnew, rfl⟩ := dimension_ok hb hstep
    refine ⟨?_, by simp [appendRecords]⟩
    rw [List.map_append (f := createdDimension place), ← List.append_assoc, List.map_append]
    -- the output refused the name if it was there
    refine List.nodup_append.mpr ⟨hnodup, by simp, fun a ha b hb heq => hnew ?_⟩
    obtain rfl : b = flatName place dim.name := by simpa [createdDimension] using hb
    exact heq ▸ ha
  · simpa [appendRecords] using hnodup

end Group

/-! ## Steps that spare the attributes of the root -/

/-- The step leaves the attributes of the output's root and their provenance as they are. -/
def Spares {α : Type} (base : Dataset) (step : TransferM Dataset α) : Prop :=
  ∀ (g : Dataset.Group) (p : ProvenanceMaps) (a : α) (t' : Transfer Dataset),
    step ⟨base.withRoot g, p⟩ = .ok a t' → ∃ dims vars p', p'.attributes = p.attributes ∧
      t' = ⟨base.withRoot { g with dimensions := dims, vars := vars }, p'⟩

namespace Spares

variable {α β : Type} {base : Dataset}

theorem of_result {result : Except Fault α} : Spares base (compute result) := by
  intro g p a t' h
  obtain ⟨-, rfl⟩ := compute_eq_ok_iff.mp h
  exact ⟨g.dimensions, g.vars, p, rfl, rfl⟩

theorem of_read {read : Except StoreFault α} : Spares base (fromInput read) := by
  intro g p a t' h
  obtain ⟨-, rfl⟩ := fromInput_eq_ok_iff.mp h
  exact ⟨g.dimensions, g.vars, p, rfl, rfl⟩

theorem pure (a : α) : Spares base (Pure.pure a) := by
  intro g p b t' h
  obtain ⟨-, rfl⟩ := EStateM.pure_eq_ok_iff.mp h
  exact ⟨g.dimensions, g.vars, p, rfl, rfl⟩

theorem throw (fault : Fault) : Spares base (throw fault : TransferM Dataset α) :=
  fun _ _ _ _ h => absurd h EStateM.throw_ne_ok

theorem bind {first : TransferM Dataset α} {next : α → TransferM Dataset β}
    (hfirst : Spares base first) (hnext : ∀ a, Spares base (next a)) :
    Spares base (first >>= next) := by
  intro g p b t' h
  obtain ⟨a, t₁, hrun, hrest⟩ := EStateM.bind_eq_ok_iff.mp h
  obtain ⟨dims, vars, p₁, hp₁, rfl⟩ := hfirst g p a t₁ hrun
  obtain ⟨dims', vars', p', hp', rfl⟩ := hnext a _ p₁ b t' hrest
  exact ⟨dims', vars', p', hp'.trans hp₁, rfl⟩

theorem mapM {f : α → TransferM Dataset β} (hf : ∀ a, Spares base (f a)) (as : List α) :
    Spares base (as.mapM f) := by
  induction as with
  | nil => exact pure []
  | cons a rest ih =>
    rw [List.mapM_cons]
    exact bind (hf a) fun b => bind ih fun bs => pure (b :: bs)

theorem forM {f : α → TransferM Dataset Unit} (hf : ∀ a, Spares base (f a)) (as : List α) :
    Spares base (as.forM f) := by
  induction as with
  | nil => exact pure ()
  | cons a rest ih => exact bind (hf a) fun _ => ih

theorem record {change : ProvenanceMaps → ProvenanceMaps}
    (hchange : ∀ p, (change p).attributes = p.attributes) :
    Spares base (record change) := by
  intro g p a t' h
  obtain rfl := record_eq_ok_iff.mp h
  exact ⟨g.dimensions, g.vars, change p, hchange p, rfl⟩

/-- A write to the output spares the attributes if what it does to the root does. -/
theorem onOutput {write : EStateM StoreFault Dataset α}
    (hwrite : ∀ g a output, write (base.withRoot g) = .ok a output →
      ∃ dims vars, output = base.withRoot { g with dimensions := dims, vars := vars }) :
    Spares base (onOutput write) := by
  intro g p a t' h
  obtain ⟨output, hrun, rfl⟩ := onOutput_eq_ok_iff.mp h
  obtain ⟨dims, vars, rfl⟩ := hwrite g a output hrun
  exact ⟨dims, vars, p, rfl, rfl⟩

end Spares

end GroupFlattening.Transfer
