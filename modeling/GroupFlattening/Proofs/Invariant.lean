import GroupFlattening.Proofs.Faults

/-!
# Invariants of a Computation

A computation with a state leaves a state behind whether it succeeds or fails. `Maintains I P` says
of one that it leads from states with the invariant `I` to states with `I`, either way, and that the
faults it then ends in have the property `P`. Like `FaultsIn`, which it is for the invariant that
always holds, it is closed under the ways in which computations are put together; what follows a
step need only be looked at for results that the step can have.
-/

namespace GroupFlattening.EStateM

variable {ε σ α β : Type} {I : σ → Prop} {P : ε → Prop}

/-- The state that is left has the invariant, and the fault, if there is one, has the property. -/
def EndsIn (I : σ → Prop) (P : ε → Prop) : EStateM.Result ε σ α → Prop
  | .ok _ s => I s
  | .error fault s => I s ∧ P fault

/-- From every state with the invariant the computation ends in one, and its faults have the
property. -/
def Maintains (I : σ → Prop) (P : ε → Prop) (x : EStateM ε σ α) : Prop :=
  ∀ s, I s → EndsIn I P (x s)

namespace EndsIn

variable {x : EStateM ε σ α} {f : α → EStateM ε σ β} {s s' : σ}

theorem of_ok {a : α} {result : EStateM.Result ε σ α} (h : EndsIn I P result)
    (hok : result = .ok a s') : I s' := by
  rw [hok] at h
  exact h

theorem of_error {fault : ε} {result : EStateM.Result ε σ α} (h : EndsIn I P result)
    (herror : result = .error fault s') : I s' ∧ P fault := by
  rw [herror] at h
  exact h

theorem mono {I' : σ → Prop} {result : EStateM.Result ε σ α} (h : EndsIn I P result)
    (hI : ∀ s, I s → I' s) : EndsIn I' P result := by
  cases result with
  | ok a s => exact hI s h
  | error fault s => exact ⟨hI s h.1, h.2⟩

theorem bind (hx : EndsIn I P (x s))
    (hf : ∀ a s', x s = .ok a s' → I s' → EndsIn I P (f a s')) : EndsIn I P ((x >>= f) s) := by
  cases hrun : x s with
  | ok a s' =>
    rw [bind_of_ok hrun]
    exact hf a s' hrun (hx.of_ok hrun)
  | error fault s' =>
    rw [bind_of_error hrun]
    exact hx.of_error hrun

/-- Where the first step is known to succeed, only what follows it counts. -/
theorem bind_of_ok {a : α} (hx : x s = .ok a s') (hf : EndsIn I P (f a s')) :
    EndsIn I P ((x >>= f) s) := by
  rw [EStateM.bind_of_ok hx]
  exact hf

end EndsIn

/-- With the invariant that always holds, only the faults count. -/
theorem maintains_true_iff {x : EStateM ε σ α} : Maintains (fun _ => True) P x ↔ FaultsIn P x := by
  constructor
  · intro h s fault s' hrun
    exact ((h s trivial).of_error hrun).2
  · intro h s _
    cases hrun : x s with
    | ok a s' => trivial
    | error fault s' => exact ⟨trivial, h s fault s' hrun⟩

namespace Maintains

theorem pure (a : α) : Maintains I P (Pure.pure a : EStateM ε σ α) := fun _ hs => hs

theorem throw {fault : ε} (h : P fault) : Maintains I P (throw fault : EStateM ε σ α) :=
  fun _ hs => ⟨hs, h⟩

theorem bind {x : EStateM ε σ α} {f : α → EStateM ε σ β} (hx : Maintains I P x)
    (hf : ∀ s a s', I s → x s = .ok a s' → Maintains I P (f a)) : Maintains I P (x >>= f) :=
  fun s hs => (hx s hs).bind fun a s' hrun hs' => hf s a s' hs hrun s' hs'

theorem mapM {f : α → EStateM ε σ β} {as : List α} (hf : ∀ a ∈ as, Maintains I P (f a)) :
    Maintains I P (as.mapM f) := by
  induction as with
  | nil => exact pure []
  | cons a rest ih =>
    rw [List.forall_mem_cons] at hf
    rw [List.mapM_cons]
    exact bind hf.1 fun _ b _ _ _ => bind (ih hf.2) fun _ bs _ _ _ => pure (b :: bs)

theorem forM {f : α → EStateM ε σ Unit} (hf : ∀ a, Maintains I P (f a)) (as : List α) :
    Maintains I P (as.forM f) := by
  induction as with
  | nil => exact pure ()
  | cons a rest ih => exact bind (hf a) fun _ _ _ _ _ => ih

end Maintains

/-- A walk that is known to succeed up to a step ends as that step and the rest of the walk make it
end. -/
theorem EndsIn.mapM_of_ok {f : α → EStateM ε σ β} {done rest : List α} {a : α} {out : List β}
    {s s' : σ} (hdone : done.mapM f s = .ok out s') (ha : EndsIn I P (f a s'))
    (hrest : ∀ b ∈ rest, Maintains I P (f b)) : EndsIn I P ((done ++ a :: rest).mapM f s) := by
  -- what is done went well, so the run goes on with `a` from there
  rw [List.mapM_append]
  apply EndsIn.bind_of_ok hdone
  refine EndsIn.bind ?_ fun bs _ _ hs => Maintains.pure (out ++ bs) _ hs
  rw [List.mapM_cons]
  apply ha.bind
  intro b s₁ _ hs₁
  apply (Maintains.mapM hrest s₁ hs₁).bind
  intro bs s₂ _ hs₂
  exact Maintains.pure (b :: bs) s₂ hs₂

end GroupFlattening.EStateM
