import Mathlib.Data.List.Forall2

/-!
# Runs That Succeed

What is known of a computation once it is known to have succeeded: a sequence of two steps
succeeds through its first step (`bind_eq_ok_iff`), and a walk over a list through a successful
step for every item. Reads give one result per item (`mapM_eq_ok_iff`); for writes the state in
between matters, so an invariant of the items done so far is carried along the walk
(`mapM_induction`, `forM_induction`).
-/

namespace GroupFlattening

/-! ## Lists related item by item -/

namespace Forall₂

variable {α β : Type} {R : α → β → Prop} {as : List α} {bs : List β}

theorem exists_right (h : List.Forall₂ R as bs) {a : α} (ha : a ∈ as) : ∃ b ∈ bs, R a b := by
  induction h with
  | nil => simp at ha
  | cons hR _ ih =>
    rcases List.mem_cons.mp ha with rfl | ha
    · exact ⟨_, List.mem_cons_self, hR⟩
    · obtain ⟨b, hb, hab⟩ := ih ha
      exact ⟨b, List.mem_cons_of_mem _ hb, hab⟩

theorem exists_left (h : List.Forall₂ R as bs) {b : β} (hb : b ∈ bs) : ∃ a ∈ as, R a b :=
  exists_right h.flip hb

theorem append {as' : List α} {bs' : List β} (h : List.Forall₂ R as bs)
    (h' : List.Forall₂ R as' bs') : List.Forall₂ R (as ++ as') (bs ++ bs') :=
  List.rel_append h h'

theorem comp {γ : Type} {S : β → γ → Prop} {cs : List γ} (h : List.Forall₂ R as bs)
    (h' : List.Forall₂ S bs cs) : List.Forall₂ (fun a c => ∃ b, R a b ∧ S b c) as cs := by
  induction h generalizing cs with
  | nil =>
    cases h'
    exact List.Forall₂.nil
  | cons hR _ ih =>
    cases h' with
    | cons hS hrest => exact List.Forall₂.cons ⟨_, hR, hS⟩ (ih hrest)

theorem map_eq {γ : Type} {f : α → γ} {g : β → γ} (h : List.Forall₂ R as bs)
    (heq : ∀ a b, R a b → f a = g b) : as.map f = bs.map g := by
  induction h with
  | nil => rfl
  | cons hR _ ih => rw [List.map_cons, List.map_cons, heq _ _ hR, ih]

end Forall₂

/-! ## Results or none -/

/-- A walk has results just when every step has one, and they are those of the steps. -/
theorem Option.mapM_eq_some_iff {α β : Type} {f : α → Option β} {as : List α} {bs : List β} :
    as.mapM f = some bs ↔ List.Forall₂ (fun a b => f a = some b) as bs := by
  induction as generalizing bs with
  | nil =>
    rw [List.mapM_nil, List.forall₂_nil_left_iff, Option.pure_def, Option.some_inj]
    exact eq_comm
  | cons a rest ih =>
    simp only [List.mapM_cons, Option.bind_eq_bind, Option.bind_eq_some_iff, Option.pure_def,
      Option.some_inj, List.forall₂_cons_left_iff]
    constructor
    · rintro ⟨b, hb, bs', hbs', rfl⟩
      exact ⟨b, bs', hb, ih.mp hbs', rfl⟩
    · rintro ⟨b, bs', hb, hbs', rfl⟩
      exact ⟨b, hb, bs', ih.mpr hbs', rfl⟩

/-! ## Results or faults -/

namespace Except

variable {ε α β γ : Type}

theorem bind_eq_ok_iff {x : Except ε α} {f : α → Except ε β} {b : β} :
    x >>= f = .ok b ↔ ∃ a, x = .ok a ∧ f a = .ok b := by
  cases x with
  | error fault => simp [bind, Except.bind]
  | ok a => simp [bind, Except.bind]

theorem map_eq_ok_iff {x : Except ε α} {f : α → β} {b : β} :
    f <$> x = .ok b ↔ ∃ a, x = .ok a ∧ f a = b := by
  cases x with
  | error fault => simp [Functor.map, Except.map]
  | ok a => simp [Functor.map, Except.map]

theorem pure_eq_ok_iff {a b : α} : (pure a : Except ε α) = .ok b ↔ a = b := by
  simp [pure, Except.pure]

theorem throw_bind (fault : ε) (f : α → Except ε β) :
    (throw fault >>= f : Except ε β) = throw fault := rfl

theorem throw_ne_ok {fault : ε} {a : α} : (throw fault : Except ε α) ≠ .ok a := by
  intro h
  cases h

theorem mapError_eq_ok_iff {ε' : Type} {x : Except ε α} {f : ε → ε'} {a : α} :
    x.mapError f = .ok a ↔ x = .ok a := by
  cases x with
  | error fault => simp [Except.mapError]
  | ok b => simp [Except.mapError]

/-- A walk succeeds just when every step does, and its results are those of the steps. -/
theorem mapM_eq_ok_iff {f : α → Except ε β} {as : List α} {bs : List β} :
    as.mapM f = .ok bs ↔ List.Forall₂ (fun a b => f a = .ok b) as bs := by
  induction as generalizing bs with
  | nil =>
    rw [List.mapM_nil, pure_eq_ok_iff, List.forall₂_nil_left_iff]
    exact eq_comm
  | cons a rest ih =>
    simp only [List.mapM_cons, bind_eq_ok_iff, pure_eq_ok_iff, List.forall₂_cons_left_iff]
    constructor
    · rintro ⟨b, hb, bs', hbs', rfl⟩
      exact ⟨b, bs', hb, ih.mp hbs', rfl⟩
    · rintro ⟨b, bs', hb, hbs', rfl⟩
      exact ⟨b, hb, bs', ih.mpr hbs', rfl⟩

/-- A walk without results succeeds just when every step does. -/
theorem forM_eq_ok_iff {f : α → Except ε Unit} {as : List α} :
    as.forM f = .ok () ↔ ∀ a ∈ as, f a = .ok () := by
  induction as with
  | nil => simp [pure, Except.pure]
  | cons a rest ih =>
    show (f a >>= fun _ => rest.forM f) = .ok () ↔ _
    rw [bind_eq_ok_iff, List.forall_mem_cons, ← ih]
    constructor
    · rintro ⟨⟨⟩, ha, hrest⟩
      exact ⟨ha, hrest⟩
    · rintro ⟨ha, hrest⟩
      exact ⟨(), ha, hrest⟩

theorem toOption_eq_some_iff {x : Except ε α} {a : α} : x.toOption = some a ↔ x = .ok a := by
  cases x <;> simp [Except.toOption]

/-- A fold whose steps all succeed succeeds. -/
theorem exists_foldlM_eq_ok {f : β → α → Except ε β} {as : List α}
    (h : ∀ a ∈ as, ∀ b, ∃ b', f b a = .ok b') (start : β) :
    ∃ result, as.foldlM f start = .ok result := by
  induction as generalizing start with
  | nil => exact ⟨start, rfl⟩
  | cons a rest ih =>
    obtain ⟨b, hb⟩ := h a List.mem_cons_self start
    obtain ⟨result, hresult⟩ := ih (fun a' ha' => h a' (List.mem_cons_of_mem _ ha')) b
    exact ⟨result, by rw [List.foldlM_cons, bind_eq_ok_iff]; exact ⟨b, hb, hresult⟩⟩

/-- A successful fold carries every invariant of its steps to its result. -/
theorem foldlM_induction {f : β → α → Except ε β} {I : List α → β → Prop} {as : List α}
    {start result : β} (step : ∀ done a rest b b', as = done ++ a :: rest → I done b →
      f b a = .ok b' → I (done ++ [a]) b')
    (hstart : I [] start) (h : as.foldlM f start = .ok result) : I as result := by
  -- the induction is on what is left, from any point of the walk on
  have walk : ∀ (rest done : List α) (b : β), as = done ++ rest → I done b →
      rest.foldlM f b = .ok result → I as result := by
    intro rest
    induction rest with
    | nil =>
      intro done b hsplit hb hrun
      rw [List.foldlM_nil, pure_eq_ok_iff] at hrun
      rw [hsplit, List.append_nil, ← hrun]
      exact hb
    | cons a rest ih =>
      intro done b hsplit hb hrun
      rw [List.foldlM_cons, bind_eq_ok_iff] at hrun
      obtain ⟨b', hstep, hrest⟩ := hrun
      exact ih (done ++ [a]) b' (by simp [hsplit]) (step done a rest b b' hsplit hb hstep) hrest
  exact walk as [] start rfl hstart h

end Except

/-! ## Results or faults, with a state -/

namespace EStateM

variable {ε σ α β γ : Type}

theorem bind_eq_ok_iff {x : EStateM ε σ α} {f : α → EStateM ε σ β} {s s' : σ} {b : β} :
    (x >>= f) s = .ok b s' ↔ ∃ a s₁, x s = .ok a s₁ ∧ f a s₁ = .ok b s' := by
  show EStateM.bind x f s = .ok b s' ↔ _
  rw [EStateM.bind]
  cases x s with
  | error fault s₁ => simp
  | ok a s₁ =>
    constructor
    · intro h
      exact ⟨a, s₁, rfl, h⟩
    · rintro ⟨a', s₁', heq, h⟩
      cases heq
      exact h

/-- What follows a step that has succeeded runs on the state that the step has left. -/
theorem bind_of_ok {x : EStateM ε σ α} {f : α → EStateM ε σ β} {s s' : σ} {a : α}
    (h : x s = .ok a s') : (x >>= f) s = f a s' := by
  show EStateM.bind x f s = _
  rw [EStateM.bind, h]

theorem bind_of_error {x : EStateM ε σ α} {f : α → EStateM ε σ β} {s s' : σ} {fault : ε}
    (h : x s = .error fault s') : (x >>= f) s = .error fault s' := by
  show EStateM.bind x f s = _
  rw [EStateM.bind, h]

theorem pure_eq_ok_iff {a b : α} {s s' : σ} :
    (pure a : EStateM ε σ α) s = .ok b s' ↔ a = b ∧ s = s' := by
  show EStateM.Result.ok a s = .ok b s' ↔ _
  simp

theorem throw_ne_ok {fault : ε} {s s' : σ} {a : α} :
    (throw fault : EStateM ε σ α) s ≠ .ok a s' := by
  intro h
  have h : EStateM.Result.error fault s = .ok a s' := h
  cases h

/-- A walk over two lists is one over the first and then one over the second. -/
theorem forM_append_eq_ok_iff {f : α → EStateM ε σ Unit} {as bs : List α} {s s' : σ} :
    (as ++ bs).forM f s = .ok () s' ↔
      ∃ s₁, as.forM f s = .ok () s₁ ∧ bs.forM f s₁ = .ok () s' := by
  -- along the first list, from any state
  induction as generalizing s with
  | nil =>
    constructor
    · intro h
      exact ⟨s, rfl, h⟩
    · rintro ⟨s₁, hnil, h⟩
      obtain ⟨-, rfl⟩ := pure_eq_ok_iff.mp hnil
      exact h
  | cons a rest ih =>
    show (f a >>= fun _ => (rest ++ bs).forM f) s = .ok () s' ↔
      ∃ s₁, (f a >>= fun _ => rest.forM f) s = .ok () s₁ ∧ _
    simp only [bind_eq_ok_iff, ih]
    constructor
    · rintro ⟨u, s₁, ha, s₂, hrest, h⟩
      exact ⟨s₂, ⟨u, s₁, ha, hrest⟩, h⟩
    · rintro ⟨s₂, ⟨u, s₁, ha, hrest⟩, h⟩
      exact ⟨u, s₁, ha, s₂, hrest, h⟩

/-- A walk over two lists that gathers results is one over the first and then one over the second.
-/
theorem mapM_append_eq_ok_iff {f : α → EStateM ε σ β} {as bs : List α} {s s' : σ}
    {out : List β} :
    (as ++ bs).mapM f s = .ok out s' ↔ ∃ first s₁ second, as.mapM f s = .ok first s₁ ∧
      bs.mapM f s₁ = .ok second s' ∧ first ++ second = out := by
  simp only [List.mapM_append, bind_eq_ok_iff, pure_eq_ok_iff]
  constructor
  · rintro ⟨first, s₁, hfirst, second, s₂, hsecond, rfl, rfl⟩
    exact ⟨first, s₁, second, hfirst, hsecond, rfl⟩
  · rintro ⟨first, s₁, second, hfirst, hsecond, rfl⟩
    exact ⟨first, s₁, hfirst, second, s', hsecond, rfl, rfl⟩

/-- A walk that succeeds takes its first step and then goes on. -/
theorem mapM_cons_eq_ok_iff {f : α → EStateM ε σ β} {a : α} {rest : List α} {s s' : σ}
    {out : List β} :
    (a :: rest).mapM f s = .ok out s' ↔ ∃ b s₁ bs, f a s = .ok b s₁ ∧
      rest.mapM f s₁ = .ok bs s' ∧ b :: bs = out := by
  simp only [List.mapM_cons, bind_eq_ok_iff, pure_eq_ok_iff]
  constructor
  · rintro ⟨b, s₁, hfirst, bs, s₂, hrest, rfl, rfl⟩
    exact ⟨b, s₁, bs, hfirst, hrest, rfl⟩
  · rintro ⟨b, s₁, bs, hfirst, hrest, rfl⟩
    exact ⟨b, s₁, hfirst, bs, s', hrest, rfl, rfl⟩

/-- A successful walk that gathers results carries every invariant of its steps to its end. -/
theorem mapM_induction {f : α → EStateM ε σ β} {I : List α → List β → σ → Prop} {as : List α}
    {bs : List β} {s s' : σ} (step : ∀ done out a rest s b s', as = done ++ a :: rest →
      I done out s → f a s = .ok b s' → I (done ++ [a]) (out ++ [b]) s')
    (hstart : I [] [] s) (h : as.mapM f s = .ok bs s') : I as bs s' := by
  -- by induction on what is left, for all that may have been done before
  have walk : ∀ (rest done : List α) (out tail : List β) (s : σ), as = done ++ rest →
      I done out s → rest.mapM f s = .ok tail s' → I as (out ++ tail) s' := by
    intro rest
    induction rest with
    | nil =>
      intro done out tail s hsplit hI hrun
      rw [List.mapM_nil, pure_eq_ok_iff] at hrun
      obtain ⟨rfl, rfl⟩ := hrun
      rw [hsplit, List.append_nil, List.append_nil]
      exact hI
    | cons a rest ih =>
      intro done out tail s hsplit hI hrun
      rw [List.mapM_cons, bind_eq_ok_iff] at hrun
      obtain ⟨b, s₁, hstep, hrest⟩ := hrun
      rw [bind_eq_ok_iff] at hrest
      obtain ⟨tail', s₂, hrest, hpure⟩ := hrest
      obtain ⟨rfl, rfl⟩ := pure_eq_ok_iff.mp hpure
      have := ih (done ++ [a]) (out ++ [b]) tail' s₁ (by simp [hsplit])
        (step done out a rest s b s₁ hsplit hI hstep) hrest
      simpa using this
  simpa using walk as [] [] bs s rfl hstart h

/-- What every step of a successful walk gives is among its results, in the order of the walk. -/
theorem forall₂_of_mapM {f : α → EStateM ε σ β} {R : α → β → Prop} {as : List α} {bs : List β}
    {s s' : σ} (step : ∀ a ∈ as, ∀ s b s', f a s = .ok b s' → R a b)
    (h : as.mapM f s = .ok bs s') : List.Forall₂ R as bs := by
  refine mapM_induction (I := fun done out _ => List.Forall₂ R done out)
    (fun done out a rest s b s' hsplit hout hstep => ?_) .nil h
  exact Forall₂.append hout (.cons (step a (by simp [hsplit]) s b s' hstep) .nil)

/-- A successful walk carries every invariant of its steps to its end. -/
theorem forM_induction {f : α → EStateM ε σ Unit} {I : List α → σ → Prop} {as : List α}
    {s s' : σ} (step : ∀ done a rest s s', as = done ++ a :: rest → I done s →
      f a s = .ok () s' → I (done ++ [a]) s')
    (hstart : I [] s) (h : as.forM f s = .ok () s') : I as s' := by
  -- by induction on what is left, from any point of the run on
  have walk : ∀ (rest done : List α) (s : σ), as = done ++ rest → I done s →
      rest.forM f s = .ok () s' → I as s' := by
    intro rest
    induction rest with
    | nil =>
      intro done s hsplit hI hrun
      obtain ⟨-, rfl⟩ := pure_eq_ok_iff.mp hrun
      rw [hsplit, List.append_nil]
      exact hI
    | cons a rest ih =>
      intro done s hsplit hI hrun
      have hrun : (f a >>= fun _ => rest.forM f) s = .ok () s' := hrun
      rw [bind_eq_ok_iff] at hrun
      obtain ⟨⟨⟩, s₁, hstep, hrest⟩ := hrun
      exact ih (done ++ [a]) s₁ (by simp [hsplit]) (step done a rest s s₁ hsplit hI hstep) hrest
  exact walk as [] s rfl hstart h

/-- Whether a run succeeds with a result and a state that pass a check. -/
def succeedsWith (check : α → σ → Bool) : EStateM.Result ε σ α → Bool
  | .ok a s => check a s
  | .error _ _ => false

theorem exists_of_succeedsWith (check : α → σ → Bool) {result : EStateM.Result ε σ α}
    (h : succeedsWith check result = true) :
    ∃ a s, result = .ok a s ∧ check a s = true := by
  cases result with
  | ok a s => exact ⟨a, s, rfl, h⟩
  | error fault s => cases h

end EStateM

end GroupFlattening
