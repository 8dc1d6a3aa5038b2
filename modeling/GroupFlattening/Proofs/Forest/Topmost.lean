import GroupFlattening.Proofs.Forest.Lineage

/-!
# Searches That Stop at a Match

A search that does not go below a node that it accepts finds fewer nodes than the whole subtree has
to offer, but it misses only nodes that are below one that it finds (`exists_mem_topmost`). Those
are deeper, so as far as the nodes of least depth are concerned the search finds the same ones as a
walk through the whole subtree, in the same order (`filter_topmost`).
-/

namespace GroupFlattening.Forest

variable {α : Type} {f : Forest α} {accepts : Nat → Bool}

/-! ## Depths in a subtree -/

theorem depth_le_of_mem_subtree {i root : Nat} (h : i ∈ f.subtree root) :
    f.depth root ≤ f.depth i := by
  induction i using Nat.strongRecOn with
  | ind i ih =>
    rcases eq_or_parent?_of_mem_subtree h with rfl | ⟨p, hp, hparent⟩
    · exact Nat.le_refl _
    · have hle := ih p (parent?_lt hparent) hp
      rw [depth_of_parent? hparent]
      omega

theorem depth_of_mem_children {c root : Nat} (h : c ∈ f.children root) :
    f.depth c = f.depth root + 1 := depth_of_parent? (mem_children_iff.mp h)

/-- What is below a child is deeper than the parent. -/
theorem depth_lt_of_mem_subtree {c i root : Nat} (hc : c ∈ f.children root)
    (h : i ∈ f.subtree c) : f.depth root < f.depth i := by
  have hle := depth_le_of_mem_subtree h
  rw [depth_of_mem_children hc] at hle
  exact hle

/-! ## What the search finds -/

theorem topmost_eq (f : Forest α) (accepts : Nat → Bool) (depth i : Nat) :
    f.topmost accepts depth i =
      if accepts i then [(depth, i)]
      else (f.children i).flatMap (f.topmost accepts (depth + 1)) := by
  rw [topmost, List.flatMap_subtype (by intros; rfl), List.unattach_attach]

/-- What the search finds is accepted and stands at the depth that goes with it. -/
theorem mem_topmost {depth root : Nat} {entry : Nat × Nat}
    (h : entry ∈ f.topmost accepts depth root) : entry.2 ∈ f.subtree root ∧
      accepts entry.2 = true ∧ entry.1 + f.depth root = depth + f.depth entry.2 := by
  induction root using induction_on_children (f := f) generalizing depth with
  | step root ih =>
    rw [topmost_eq] at h
    split at h
    -- the search stops at a node that is accepted
    · next haccepts =>
      obtain rfl := List.mem_singleton.mp h
      exact ⟨mem_subtree_self f root, haccepts, rfl⟩
    · obtain ⟨c, hc, hmem⟩ := List.mem_flatMap.mp h
      obtain ⟨hsubtree, haccepts, hdepth⟩ := ih c hc hmem
      rw [depth_of_mem_children hc] at hdepth
      exact ⟨mem_subtree_of_mem_children hc hsubtree, haccepts, by omega⟩

/-- What is accepted is found, or is below something that is found. -/
theorem exists_mem_topmost (accepts : Nat → Bool) (depth : Nat) {i root : Nat}
    (h : i ∈ f.subtree root) (haccepts : accepts i = true) :
    ∃ entry ∈ f.topmost accepts depth root, i ∈ f.subtree entry.2 := by
  induction root using induction_on_children (f := f) generalizing depth with
  | step root ih =>
    rw [topmost_eq]
    split
    -- an accepted root has everything below it
    · exact ⟨_, List.mem_singleton_self _, h⟩
    · next hrejects =>
      rw [subtree_eq, List.mem_cons] at h
      rcases h with rfl | h
      · exact absurd haccepts hrejects
      · obtain ⟨c, hc, hi⟩ := List.mem_flatMap.mp h
        obtain ⟨entry, hentry, hbelow⟩ := ih c hc (depth + 1) hi
        exact ⟨entry, List.mem_flatMap.mpr ⟨c, hc, hentry⟩, hbelow⟩

/-- At the least depth the search finds all that is accepted, in the order of the tree. -/
theorem filter_topmost (accepts : Nat → Bool) (depth : Nat) {root least : Nat}
    (hleast : ∀ i ∈ f.subtree root, accepts i = true → least ≤ f.depth i) :
    ((f.topmost accepts depth root).filter fun entry =>
        entry.1 + f.depth root == depth + least).map (·.2) =
      (f.subtree root).filter fun i => accepts i && f.depth i == least := by
  induction root using induction_on_children (f := f) generalizing depth with
  | step root ih =>
    rw [topmost_eq, subtree_eq]
    by_cases haccepts : accepts root = true
    · -- what is below the root is too deep, whether the search goes there or not
      have hle := hleast root (mem_subtree_self f root) haccepts
      have hbelow : ((f.children root).flatMap f.subtree).filter
          (fun i => accepts i && f.depth i == least) = [] := by
        refine List.filter_eq_nil_iff.mpr fun i hi => ?_
        obtain ⟨c, hc, hi⟩ := List.mem_flatMap.mp hi
        have hlt := depth_lt_of_mem_subtree hc hi
        simp only [Bool.and_eq_true, beq_iff_eq, not_and]
        omega
      rw [if_pos haccepts, List.filter_cons, List.filter_cons, hbelow]
      by_cases hroot : f.depth root = least
      · simp [haccepts, hroot]
      · simp [haccepts, hroot]
    -- a rejected root leaves the search to its children
    · rw [if_neg haccepts, List.filter_cons_of_neg (by simp [haccepts]), List.filter_flatMap,
        List.map_flatMap, List.filter_flatMap]
      refine List.flatMap_congr fun c hc => ?_
      have hchild := ih c hc (depth + 1) fun i hi =>
        hleast i (mem_subtree_of_mem_children hc hi)
      rw [depth_of_mem_children hc] at hchild
      rw [← hchild]
      refine congrArg (List.map Prod.snd) (List.filter_congr fun entry _ => ?_)
      rw [Bool.eq_iff_iff, beq_iff_eq, beq_iff_eq]
      omega

end GroupFlattening.Forest
