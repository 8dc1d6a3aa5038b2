import GroupFlattening.Proofs.Forest
import Mathlib.Data.List.Nodup

/-!
# Walks in Preorder

The subtree of a node lists every node below it once (`nodup_subtree`), because a node has one
parent and a smaller number than its children. A walk with a stack, which takes the topmost node
and puts its children in its place, meets the nodes in the same order (`walk_eq_flatMap_subtree`).
The depth of a node grows by one from a parent to its children.
-/

namespace GroupFlattening.Forest

variable {α : Type} {f : Forest α}

/-! ## Depth -/

/-- The number of nodes above node `i`. -/
def depth (f : Forest α) (i : Nat) : Nat := (f.lineage i).tail.length

theorem depth_of_parent?_eq_none {i : Nat} (h : f.parent? i = none) : f.depth i = 0 := by
  rw [depth, lineage_of_parent?_eq_none h]
  rfl

theorem depth_of_parent? {i p : Nat} (h : f.parent? i = some p) :
    f.depth i = f.depth p + 1 := by
  have hne : f.lineage p ≠ [] := by
    cases hp : f.parent? p with
    | none => simp [lineage_of_parent?_eq_none hp]
    | some q => simp [lineage_of_parent? hp]
  have hpos := List.length_pos_iff.mpr hne
  simp only [depth, lineage_of_parent? h, List.tail_cons, List.length_tail]
  omega

/-! ## Subtrees hold every node once -/

theorem le_of_mem_subtree {i root : Nat} (h : i ∈ f.subtree root) : root ≤ i := by
  induction root using induction_on_children (f := f) with
  | step root ih =>
    rw [subtree_eq, List.mem_cons] at h
    rcases h with rfl | h
    · exact Nat.le_refl _
    · obtain ⟨c, hc, h⟩ := List.mem_flatMap.mp h
      exact Nat.le_trans (Nat.le_of_lt (lt_of_mem_children hc)) (ih c hc h)

/-- A node of a subtree is its root, or is inside another node of the subtree. -/
theorem eq_or_parent?_of_mem_subtree {i root : Nat} (h : i ∈ f.subtree root) :
    i = root ∨ ∃ p ∈ f.subtree root, f.parent? i = some p := by
  induction root using induction_on_children (f := f) with
  | step root ih =>
    rw [subtree_eq, List.mem_cons] at h
    rcases h with rfl | h
    · exact Or.inl rfl
    · obtain ⟨c, hc, h⟩ := List.mem_flatMap.mp h
      right
      rcases ih c hc h with rfl | ⟨p, hp, hparent⟩
      -- the child itself, whose parent is the root, or a node further down
      · exact ⟨root, mem_subtree_self f root, mem_children_iff.mp hc⟩
      · refine ⟨p, ?_, hparent⟩
        rw [subtree_eq]
        exact List.mem_cons_of_mem _ (List.mem_flatMap.mpr ⟨c, hc, hp⟩)

/-- The subtrees of two children of one node have no node in common. -/
theorem eq_of_mem_subtree_of_mem_children {root c c' i : Nat} (hc : c ∈ f.children root)
    (hc' : c' ∈ f.children root) (h : i ∈ f.subtree c) (h' : i ∈ f.subtree c') : c = c' := by
  have hparent := mem_children_iff.mp hc
  have hparent' := mem_children_iff.mp hc'
  -- the node around both is above either subtree
  have habove : ∀ b, b ∈ f.children root → root ∉ f.subtree b := by
    intro b hb hmem
    have hlt := lt_of_mem_children hb
    have hle := le_of_mem_subtree hmem
    omega
  -- by induction on the number: two walks upwards meet the same nodes
  induction i using Nat.strongRecOn with
  | ind i ih =>
    rcases eq_or_parent?_of_mem_subtree h with rfl | ⟨p, hp, hi⟩
    · rcases eq_or_parent?_of_mem_subtree h' with rfl | ⟨p', hp', hi'⟩
      · rfl
      · obtain rfl := Option.some.inj (hparent.symm.trans hi')
        exact absurd hp' (habove c' hc')
    · rcases eq_or_parent?_of_mem_subtree h' with rfl | ⟨p', hp', hi'⟩
      · obtain rfl := Option.some.inj (hparent'.symm.trans hi)
        exact absurd hp (habove c hc)
      · obtain rfl := Option.some.inj (hi.symm.trans hi')
        exact ih p (parent?_lt hi) hp hp'

theorem nodup_subtree (f : Forest α) (root : Nat) : (f.subtree root).Nodup := by
  induction root using induction_on_children (f := f) with
  | step root ih =>
    rw [subtree_eq, List.nodup_cons, List.nodup_flatMap]
    refine ⟨fun hmem => ?_, ih, ?_⟩
    -- numbers grow downwards, so the root is not below its children
    · obtain ⟨c, hc, hmem⟩ := List.mem_flatMap.mp hmem
      have hlt := lt_of_mem_children hc
      have hle := le_of_mem_subtree hmem
      omega
    -- the subtrees of two children have no node in common
    · refine (nodup_children f root).imp_of_mem fun {c c'} hc hc' hne => ?_
      intro i hi hi'
      exact hne (eq_of_mem_subtree_of_mem_children hc hc' hi hi')

/-! ## Walks with a stack -/

/-- The nodes met by a walk that takes the topmost node off a stack and puts the children of the
node on it, the first child topmost. -/
def walk (f : Forest α) : List Nat → List Nat
  | [] => []
  | i :: rest => i :: f.walk (f.children i ++ rest)
  termination_by stack => (stack.flatMap f.subtree).length
  decreasing_by
    rw [List.flatMap_cons, subtree_eq f i, List.flatMap_append]
    simp

theorem walk_eq_flatMap_subtree (f : Forest α) (stack : List Nat) :
    f.walk stack = stack.flatMap f.subtree := by
  fun_induction walk f stack with
  | case1 => rfl
  | case2 i rest ih =>
    rw [ih, List.flatMap_cons, subtree_eq f i, List.flatMap_append]
    rfl

/-- A walk from one node meets the nodes of its subtree in their order. -/
theorem walk_singleton (f : Forest α) (root : Nat) : f.walk [root] = f.subtree root := by
  rw [walk_eq_flatMap_subtree, List.flatMap_singleton]

end GroupFlattening.Forest
