import GroupFlattening.Proofs.Run

/-!
# Faults of a Computation

What is known of a computation that fails: a sequence of two steps fails in its first step or in
its second (`bind_eq_error_iff`). `FaultsIn` says of a computation that all faults it can end in
have a property. It is closed under the ways in which computations are put together, so it is
enough to look at the places where a fault is made.
-/

namespace GroupFlattening

/-! ## Results or faults -/

namespace Except

variable {ε α β γ : Type}

/-- A sequence fails in its first step, or in its second one after a first one that succeeded. -/
theorem bind_eq_error_iff {x : Except ε α} {f : α → Except ε β} {fault : ε} :
    x >>= f = .error fault ↔ x = .error fault ∨ ∃ a, x = .ok a ∧ f a = .error fault := by
  cases x with
  | error other => simp [bind, Except.bind]
  | ok a => simp [bind, Except.bind]

theorem map_eq_error_iff {x : Except ε α} {f : α → β} {fault : ε} :
    f <$> x = .error fault ↔ x = .error fault := by
  cases x with
  | error other => simp [Functor.map, Except.map]
  | ok a => simp [Functor.map, Except.map]

/-- A walk fails in its first step that fails. -/
theorem mapM_eq_error_iff {f : α → Except ε β} {as : List α} {fault : ε} :
    as.mapM f = .error fault ↔ ∃ done a rest out, as = done ++ a :: rest ∧
      done.mapM f = .ok out ∧ f a = .error fault := by
  induction as with
  -- by the items: the walk stops at the first one that fails
  | nil => simp [pure, Except.pure]
  | cons a rest ih =>
    simp only [List.mapM_cons, bind_eq_error_iff, ih]
    constructor
    · rintro (h | ⟨b, hb, ⟨done, a', rest', out, rfl, hdone, h⟩ | ⟨out, -, h⟩⟩)
      · exact ⟨[], a, rest, [], rfl, rfl, h⟩
      · refine ⟨a :: done, a', rest', b :: out, rfl, ?_, h⟩
        rw [List.mapM_cons, hb, hdone]
        rfl
      · cases h
    · rintro ⟨done, a', rest', out, hsplit, hdone, h⟩
      cases done with
      | nil =>
        obtain ⟨rfl, rfl⟩ := List.cons.inj hsplit
        exact Or.inl h
      | cons first done =>
        obtain ⟨rfl, rfl⟩ := List.cons.inj hsplit
        rw [List.mapM_cons] at hdone
        obtain ⟨b, hb, hdone⟩ := bind_eq_ok_iff.mp hdone
        obtain ⟨out', hdone, -⟩ := bind_eq_ok_iff.mp hdone
        exact Or.inr ⟨b, hb, Or.inl ⟨done, a', rest', out', rfl, hdone, h⟩⟩

/-- A fold fails in its first step that fails. -/
theorem foldlM_eq_error_iff {f : β → α → Except ε β} {as : List α} {start : β} {fault : ε} :
    as.foldlM f start = .error fault ↔ ∃ done a rest b, as = done ++ a :: rest ∧
      done.foldlM f start = .ok b ∧ f b a = .error fault := by
  induction as generalizing start with
  -- by the items, from any start: the fold stops at the first one that fails
  | nil => simp [pure, Except.pure]
  | cons a rest ih =>
    simp only [List.foldlM_cons, bind_eq_error_iff, ih]
    constructor
    · rintro (h | ⟨b, hb, done, a', rest', b', rfl, hdone, h⟩)
      · exact ⟨[], a, rest, start, rfl, rfl, h⟩
      · refine ⟨a :: done, a', rest', b', rfl, ?_, h⟩
        rw [List.foldlM_cons, hb]
        exact hdone
    · rintro ⟨done, a', rest', b', hsplit, hdone, h⟩
      cases done with
      | nil =>
        obtain ⟨rfl, rfl⟩ := List.cons.inj hsplit
        obtain rfl := pure_eq_ok_iff.mp hdone
        exact Or.inl h
      | cons first done =>
        obtain ⟨rfl, rfl⟩ := List.cons.inj hsplit
        rw [List.foldlM_cons] at hdone
        obtain ⟨b, hb, hdone⟩ := bind_eq_ok_iff.mp hdone
        exact Or.inr ⟨b, hb, done, a', rest', b', rfl, hdone, h⟩

/-- Every fault of the computation has the property. -/
def FaultsIn (P : ε → Prop) (x : Except ε α) : Prop := ∀ fault, x = .error fault → P fault

namespace FaultsIn

variable {P : ε → Prop}

theorem mono {Q : ε → Prop} {x : Except ε α} (hx : FaultsIn P x) (h : ∀ fault, P fault → Q fault) :
    FaultsIn Q x := fun fault heq => h fault (hx fault heq)

theorem ok (a : α) : FaultsIn P (.ok a : Except ε α) := by
  intro fault h
  cases h

theorem error {fault : ε} (h : P fault) : FaultsIn P (.error fault : Except ε α) := by
  intro other heq
  cases heq
  exact h

theorem pure (a : α) : FaultsIn P (pure a : Except ε α) := ok a

theorem bind {x : Except ε α} {f : α → Except ε β} (hx : FaultsIn P x)
    (hf : ∀ a, FaultsIn P (f a)) : FaultsIn P (x >>= f) := by
  intro fault h
  rcases bind_eq_error_iff.mp h with h | ⟨a, -, h⟩
  · exact hx fault h
  · exact hf a fault h

/-- Where the first step is known to succeed, only what follows it counts. -/
theorem bind_of_ok {x : Except ε α} {f : α → Except ε β} {a : α} (hx : x = .ok a)
    (hf : FaultsIn P (f a)) : FaultsIn P (x >>= f) := by
  rw [hx]
  exact hf

theorem map {x : Except ε α} (f : α → β) (hx : FaultsIn P x) : FaultsIn P (f <$> x) := by
  cases x with
  | error fault => exact error (hx fault rfl)
  | ok a => exact ok (f a)

theorem mapM {f : α → Except ε β} {as : List α} (hf : ∀ a ∈ as, FaultsIn P (f a)) :
    FaultsIn P (as.mapM f) := by
  induction as with
  | nil => exact pure []
  | cons a rest ih =>
    rw [List.forall_mem_cons] at hf
    rw [List.mapM_cons]
    exact bind hf.1 fun b => bind (ih hf.2) fun bs => pure (b :: bs)

theorem forM {f : α → Except ε Unit} {as : List α} (hf : ∀ a ∈ as, FaultsIn P (f a)) :
    FaultsIn P (as.forM f) := by
  induction as with
  | nil => exact pure ()
  | cons a rest ih =>
    rw [List.forall_mem_cons] at hf
    exact bind hf.1 fun _ => ih hf.2

theorem foldlM {f : β → α → Except ε β} {as : List α} (hf : ∀ b, ∀ a ∈ as, FaultsIn P (f b a))
    (b : β) : FaultsIn P (as.foldlM f b) := by
  induction as generalizing b with
  | nil => exact pure b
  | cons a rest ih =>
    rw [List.foldlM_cons]
    exact bind (hf b a List.mem_cons_self) fun b =>
      ih (fun b a' ha' => hf b a' (List.mem_cons_of_mem _ ha')) b

theorem mapError {ε' : Type} {x : Except ε' α} {f : ε' → ε} (hf : ∀ fault, P (f fault)) :
    FaultsIn P (x.mapError f) := by
  cases x with
  | error fault => exact error (hf fault)
  | ok a => exact ok a

end FaultsIn

end Except

/-! ## Results or faults, with a state -/

namespace EStateM

variable {ε σ α β : Type}

/-- A sequence fails in its first step, or in its second one from where a first one that succeeded
has led. -/
theorem bind_eq_error_iff {x : EStateM ε σ α} {f : α → EStateM ε σ β} {s s' : σ} {fault : ε} :
    (x >>= f) s = .error fault s' ↔
      x s = .error fault s' ∨ ∃ a s₁, x s = .ok a s₁ ∧ f a s₁ = .error fault s' := by
  show EStateM.bind x f s = .error fault s' ↔ _
  rw [EStateM.bind]
  cases x s with
  | error other s₁ => simp
  | ok a s₁ =>
    constructor
    · intro h
      exact Or.inr ⟨a, s₁, rfl, h⟩
    · rintro (h | ⟨a', s₁', heq, h⟩)
      · cases h
      · cases heq
        exact h

/-- A walk fails in its first step that fails. -/
theorem mapM_eq_error_iff {f : α → EStateM ε σ β} {as : List α} {s s' : σ} {fault : ε} :
    as.mapM f s = .error fault s' ↔ ∃ done a rest out s₁, as = done ++ a :: rest ∧
      done.mapM f s = .ok out s₁ ∧ f a s₁ = .error fault s' := by
  induction as generalizing s with
  -- by the items, from any state
  | nil =>
    rw [List.mapM_nil]
    constructor
    · intro h
      cases h
    · rintro ⟨done, a, rest, out, s₁, hsplit, -⟩
      simp at hsplit
  | cons a rest ih =>
    simp only [List.mapM_cons, bind_eq_error_iff, ih]
    constructor
    · rintro (h | ⟨b, s₁, hb, ⟨done, a', rest', out, s₂, rfl, hdone, h⟩ | ⟨out, s₂, -, h⟩⟩)
      · exact ⟨[], a, rest, [], s, rfl, rfl, h⟩
      · refine ⟨a :: done, a', rest', b :: out, s₂, rfl, ?_, h⟩
        rw [List.mapM_cons, bind_of_ok hb, bind_of_ok hdone]
        rfl
      · cases h
    · rintro ⟨done, a', rest', out, s₁, hsplit, hdone, h⟩
      cases done with
      | nil =>
        obtain ⟨rfl, rfl⟩ := List.cons.inj hsplit
        obtain ⟨-, rfl⟩ := pure_eq_ok_iff.mp hdone
        exact Or.inl h
      | cons first done =>
        obtain ⟨rfl, rfl⟩ := List.cons.inj hsplit
        rw [List.mapM_cons] at hdone
        obtain ⟨b, s₂, hb, hdone⟩ := bind_eq_ok_iff.mp hdone
        obtain ⟨out', s₃, hrest, hpure⟩ := bind_eq_ok_iff.mp hdone
        obtain ⟨-, rfl⟩ := pure_eq_ok_iff.mp hpure
        exact Or.inr ⟨b, s₂, hb, Or.inl ⟨done, a', rest', out', s₃, rfl, hrest, h⟩⟩

/-- Every fault of the computation has the property, in whatever state it starts. -/
def FaultsIn (P : ε → Prop) (x : EStateM ε σ α) : Prop :=
  ∀ s fault s', x s = .error fault s' → P fault

namespace FaultsIn

variable {P : ε → Prop}

theorem pure (a : α) : FaultsIn P (Pure.pure a : EStateM ε σ α) := by
  intro s fault s' h
  cases h

theorem throw {fault : ε} (h : P fault) : FaultsIn P (throw fault : EStateM ε σ α) := by
  intro s other s' heq
  cases heq
  exact h

theorem bind {x : EStateM ε σ α} {f : α → EStateM ε σ β} (hx : FaultsIn P x)
    (hf : ∀ a, FaultsIn P (f a)) : FaultsIn P (x >>= f) := by
  intro s fault s' h
  rcases bind_eq_error_iff.mp h with h | ⟨a, s₁, -, h⟩
  · exact hx s fault s' h
  · exact hf a s₁ fault s' h

theorem mapM {f : α → EStateM ε σ β} (hf : ∀ a, FaultsIn P (f a)) (as : List α) :
    FaultsIn P (as.mapM f) := by
  induction as with
  | nil => exact pure []
  | cons a rest ih =>
    rw [List.mapM_cons]
    exact bind (hf a) fun b => bind ih fun bs => pure (b :: bs)

theorem forM {f : α → EStateM ε σ Unit} (hf : ∀ a, FaultsIn P (f a)) (as : List α) :
    FaultsIn P (as.forM f) := by
  induction as with
  | nil => exact pure ()
  | cons a rest ih => exact bind (hf a) fun _ => ih

end FaultsIn

/-- Whether a run fails with a fault and leaves a state that pass a check. -/
def failsLeaving (check : ε → σ → Bool) : EStateM.Result ε σ α → Bool
  | .ok _ _ => false
  | .error fault s => check fault s

theorem exists_of_failsLeaving (check : ε → σ → Bool) {result : EStateM.Result ε σ α}
    (h : failsLeaving check result = true) :
    ∃ fault s, result = .error fault s ∧ check fault s = true := by
  cases result with
  | ok a s => cases h
  | error fault s => exact ⟨fault, s, rfl, h⟩

/-- Whether a run fails with a fault that passes a check. -/
def failsWith (check : ε → Bool) (result : EStateM.Result ε σ α) : Bool :=
  failsLeaving (fun fault _ => check fault) result

theorem exists_of_failsWith (check : ε → Bool) {result : EStateM.Result ε σ α}
    (h : failsWith check result = true) :
    ∃ fault s, result = .error fault s ∧ check fault = true :=
  exists_of_failsLeaving _ h

end EStateM

end GroupFlattening
