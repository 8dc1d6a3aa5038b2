import GroupFlattening.Proofs.Forest.Preorder

/-!
# Lineages

The lineage of a node lists the nodes in whose subtrees it is, nearest first (`mem_lineage_iff`). So
the first node of a lineage that has a property is the nearest one around the node, or the node
itself, that has it (`find?_lineage_eq_some_iff`): every other one with the property has that node
in its subtree, too. There is only one such node, and there is one if any node around has the
property. A walk along the lineage that keeps the node it came from keeps the branch that leads back
down (`zip_lineage`).
-/

namespace GroupFlattening.Forest

variable {α : Type} {f : Forest α}

/-! ## Subtrees inside subtrees -/

theorem mem_subtree_trans {i j k : Nat} (hi : i ∈ f.subtree j) (hj : j ∈ f.subtree k) :
    i ∈ f.subtree k := by
  -- by induction on the number, one step upwards from the node
  induction i using Nat.strongRecOn with
  | ind i ih =>
    rcases eq_or_parent?_of_mem_subtree hi with rfl | ⟨p, hp, hparent⟩
    · exact hj
    · exact mem_subtree_of_parent? hparent (ih p (parent?_lt hparent) hp)

theorem mem_subtree_antisymm {i j : Nat} (hi : i ∈ f.subtree j) (hj : j ∈ f.subtree i) : i = j :=
  Nat.le_antisymm (le_of_mem_subtree hj) (le_of_mem_subtree hi)

/-- A child whose subtree holds a node is the next one on the way down to it. -/
theorem mem_subtree_of_mem_children {i c root : Nat} (hc : c ∈ f.children root)
    (h : i ∈ f.subtree c) : i ∈ f.subtree root := by
  rw [subtree_eq]
  exact List.mem_cons_of_mem _ (List.mem_flatMap.mpr ⟨c, hc, h⟩)

theorem not_mem_subtree_of_mem_children {c root : Nat} (hc : c ∈ f.children root) :
    root ∉ f.subtree c := fun h =>
  Nat.lt_irrefl _ (Nat.lt_of_lt_of_le (lt_of_mem_children hc) (le_of_mem_subtree h))

theorem mem_lineage_iff {i a : Nat} : a ∈ f.lineage i ↔ i ∈ f.subtree a := by
  induction i using Nat.strongRecOn with
  | ind i ih =>
    -- by induction on the number: the parent has a smaller one
    constructor
    · intro h
      cases hparent : f.parent? i with
      | none =>
        rw [lineage_of_parent?_eq_none hparent] at h
        obtain rfl := List.mem_singleton.mp h
        exact mem_subtree_self f a
      | some p =>
        rw [lineage_of_parent? hparent] at h
        rcases List.mem_cons.mp h with rfl | h
        · exact mem_subtree_self f a
        · exact mem_subtree_of_parent? hparent ((ih p (parent?_lt hparent)).mp h)
    · intro h
      rcases eq_or_parent?_of_mem_subtree h with rfl | ⟨p, hp, hparent⟩
      · cases hparent : f.parent? i with
        | none => simp [lineage_of_parent?_eq_none hparent]
        | some p => simp [lineage_of_parent? hparent]
      · rw [lineage_of_parent? hparent]
        exact List.mem_cons_of_mem _ ((ih p (parent?_lt hparent)).mpr hp)

/-! ## Nearest nodes -/

/-- The nearest node around a node, or that node itself, with a property. -/
structure IsNearest (f : Forest α) (i : Nat) (P : Nat → Prop) (n : Nat) : Prop where
  around : i ∈ f.subtree n
  holds : P n
  /-- Every other node around that has the property is around this one. -/
  inside : ∀ m, i ∈ f.subtree m → P m → n ∈ f.subtree m

theorem IsNearest.unique {i m n : Nat} {P : Nat → Prop} (hm : f.IsNearest i P m)
    (hn : f.IsNearest i P n) : m = n :=
  mem_subtree_antisymm (hm.inside n hn.around hn.holds) (hn.inside m hm.around hm.holds)

/-- The search goes upwards and stops at the first node with the property. -/
theorem isNearest_of_find?_lineage {i n : Nat} {P : Nat → Prop} [DecidablePred P]
    (h : (f.lineage i).find? P = some n) : f.IsNearest i P n := by
  induction i using Nat.strongRecOn with
  | ind i ih =>
    -- either the node itself has the property, or the search goes on at its parent
    by_cases hi : P i
    · have hn : n = i := by
        cases hparent : f.parent? i with
        | none => simpa [lineage_of_parent?_eq_none hparent, hi, eq_comm] using h
        | some p => simpa [lineage_of_parent? hparent, hi, eq_comm] using h
      subst hn
      exact ⟨mem_subtree_self f n, hi, fun m hm _ => hm⟩
    · cases hparent : f.parent? i with
      | none => simp [lineage_of_parent?_eq_none hparent, hi] at h
      | some p =>
        rw [lineage_of_parent? hparent, List.find?_cons_of_neg (by simpa using hi)] at h
        obtain ⟨haround, hholds, hinside⟩ := ih p (parent?_lt hparent) h
        refine ⟨mem_subtree_of_parent? hparent haround, hholds, fun m hm hPm => ?_⟩
        -- a node around that has the property is not the node itself, so it is around its parent
        rcases eq_or_parent?_of_mem_subtree hm with rfl | ⟨q, hq, hparent'⟩
        · exact absurd hPm hi
        · obtain rfl := Option.some.inj (hparent.symm.trans hparent')
          exact hinside m hq hPm

theorem find?_lineage_eq_none_iff {i : Nat} {P : Nat → Prop} [DecidablePred P] :
    (f.lineage i).find? P = none ↔ ∀ m, i ∈ f.subtree m → ¬ P m := by
  simp [mem_lineage_iff]

theorem find?_lineage_eq_some_iff {i n : Nat} {P : Nat → Prop} [DecidablePred P] :
    (f.lineage i).find? P = some n ↔ f.IsNearest i P n := by
  refine ⟨isNearest_of_find?_lineage, fun h => ?_⟩
  cases hfind : (f.lineage i).find? P with
  | none => exact absurd h.holds (find?_lineage_eq_none_iff.mp hfind n h.around)
  | some m => rw [(isNearest_of_find?_lineage hfind).unique h]

/-- Where some node around has the property, one is the nearest. -/
theorem exists_isNearest {i m : Nat} {P : Nat → Prop} (haround : i ∈ f.subtree m) (hm : P m) :
    ∃ n, f.IsNearest i P n := by
  classical
  cases hfind : (f.lineage i).find? P with
  | none => exact absurd hm (find?_lineage_eq_none_iff.mp hfind m haround)
  | some n => exact ⟨n, isNearest_of_find?_lineage hfind⟩

/-! ## Branches -/

/-- The child of a node whose subtree holds a given node. -/
def branch? (f : Forest α) (a i : Nat) : Option Nat :=
  (f.children a).find? fun c => i ∈ f.subtree c

theorem branch?_eq_some_iff {a i c : Nat} :
    f.branch? a i = some c ↔ c ∈ f.children a ∧ i ∈ f.subtree c := by
  constructor
  · intro h
    exact ⟨List.mem_of_find?_eq_some h, by simpa using List.find?_some h⟩
  · rintro ⟨hc, hi⟩
    cases hfind : f.branch? a i with
    | none => exact absurd hi (by simpa using List.find?_eq_none.mp hfind c hc)
    | some c' =>
      have hi' : i ∈ f.subtree c' := by simpa using List.find?_some hfind
      rw [eq_of_mem_subtree_of_mem_children (List.mem_of_find?_eq_some hfind) hc hi' hi]

theorem branch?_self (f : Forest α) (i : Nat) : f.branch? i i = none :=
  Option.eq_none_iff_forall_ne_some.mpr fun _ hc =>
    not_mem_subtree_of_mem_children (branch?_eq_some_iff.mp hc).1 (branch?_eq_some_iff.mp hc).2

/-- From each node of a lineage, the node before it leads back down. -/
theorem zip_lineage {a i : Nat} (h : i ∈ f.subtree a) :
    (f.lineage a).zip (f.branch? a i :: (f.lineage a).map some) =
      (f.lineage a).map fun b => (b, f.branch? b i) := by
  induction a using Nat.strongRecOn with
  | ind a ih =>
    cases hparent : f.parent? a with
    | none => simp [lineage_of_parent?_eq_none hparent]
    | some p =>
      -- the branch at the parent is this node
      have hchild := mem_children_iff.mpr hparent
      have hp := ih p (parent?_lt hparent) (mem_subtree_of_mem_children hchild h)
      rw [branch?_eq_some_iff.mpr ⟨hchild, h⟩] at hp
      simpa [lineage_of_parent? hparent] using hp

end GroupFlattening.Forest
