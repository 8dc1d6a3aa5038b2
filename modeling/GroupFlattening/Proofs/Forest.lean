import GroupFlattening.Forest

/-!
# Changing and Walking Forests

Changing what a node holds leaves the shape of a forest alone, and adding a node leaves all other
nodes alone except for the list of children of the parent. The subtree of a node is the node
followed by the subtrees of its children, and below a root from which every node descends it
reaches every node.
-/

namespace GroupFlattening.Forest

variable {α : Type}

/-! ## Labels and numbers -/

theorem label?_eq_none_iff {f : Forest α} {i : Nat} : f.label? i = none ↔ f.size ≤ i := by
  simp [label?, size]

/-- Every node has a label. -/
theorem exists_label? {f : Forest α} {i : Nat} (h : i < f.size) : ∃ a, f.label? i = some a := by
  cases hlabel : f.label? i with
  | none => exact absurd (label?_eq_none_iff.mp hlabel) (Nat.not_le.mpr h)
  | some a => exact ⟨a, rfl⟩

theorem getElem?_labels (f : Forest α) (i : Nat) : f.labels[i]? = f.label? i := by
  simp [labels, label?]

/-- There are as many labels as nodes. -/
theorem length_labels (f : Forest α) : f.labels.length = f.size := by
  simp [labels, size]

theorem lt_size_of_parent? {f : Forest α} {i p : Nat} (h : f.parent? i = some p) :
    i < f.size := lt_size_of_mem_children (mem_children_iff.mpr h)

theorem nodup_children (f : Forest α) (i : Nat) : (f.children i).Nodup := by
  rw [children]
  cases hnode : f.nodes[i]? with
  | none => exact List.nodup_nil
  | some node =>
    exact (f.children_increasing i node hnode).imp Nat.ne_of_lt

/-! ## Changing a label -/

@[simp] theorem size_modify (f : Forest α) (i : Nat) (change : α → α) :
    (f.modify i change).size = f.size := by
  simp [modify, size, relabel]

@[simp] theorem parent?_modify (f : Forest α) (i : Nat) (change : α → α) (j : Nat) :
    (f.modify i change).parent? j = f.parent? j := by
  simp only [parent?, modify, getElem?_relabel]
  cases f.nodes[j]? with
  | none => rfl
  | some node =>
    simp only [Option.map_some, Option.bind_some]
    split <;> rfl

@[simp] theorem children_modify (f : Forest α) (i : Nat) (change : α → α) (j : Nat) :
    (f.modify i change).children j = f.children j := by
  simp only [children, modify, getElem?_relabel]
  cases f.nodes[j]? with
  | none => rfl
  | some node =>
    simp only [Option.map_some, Option.getD_some]
    split <;> rfl

theorem label?_modify (f : Forest α) (i : Nat) (change : α → α) (j : Nat) :
    (f.modify i change).label? j = if i = j then (f.label? j).map change else f.label? j := by
  simp only [label?, modify, getElem?_relabel]
  cases f.nodes[j]? with
  | none => simp
  | some node =>
    simp only [Option.map_some]
    split <;> rfl

/-- Two changes of one label are one change. -/
theorem modify_modify (f : Forest α) (i : Nat) (first second : α → α) :
    (f.modify i first).modify i second = f.modify i (second ∘ first) := by
  apply ext
  apply Array.ext_getElem?
  intro j
  simp only [modify, getElem?_relabel]
  cases f.nodes[j]? with
  | none => rfl
  | some node =>
    simp only [Option.map_some, Function.comp]
    split <;> rfl

/-- A change counts only for what the node holds. -/
theorem modify_congr {f : Forest α} {i : Nat} {change change' : α → α}
    (h : ∀ a, f.label? i = some a → change a = change' a) :
    f.modify i change = f.modify i change' := by
  apply ext
  apply Array.ext_getElem?
  intro j
  simp only [modify, getElem?_relabel]
  -- node by node: only node `i` is changed, and there the changes agree
  cases hnode : f.nodes[j]? with
  | none => rfl
  | some node =>
    simp only [Option.map_some]
    split
    · next hj =>
      rw [h node.label (by rw [label?, hj, hnode]; rfl)]
    · rfl

theorem modify_eq_self {f : Forest α} {i : Nat} {change : α → α}
    (h : ∀ a, f.label? i = some a → change a = a) : f.modify i change = f := by
  -- the change does as much as the identity
  have hid : f.modify i change = f.modify i id := modify_congr h
  rw [hid]
  apply ext
  apply Array.ext_getElem?
  intro j
  simp only [modify, getElem?_relabel]
  cases f.nodes[j]? with
  | none => rfl
  | some node =>
    simp only [Option.map_some]
    split <;> rfl

/-! ## Adding a node -/

section Add

variable {f : Forest α} {parent : Option Nat} {label : α}

private theorem getElem?_nodes_add (hparent : ∀ p, parent = some p → p < f.size) (j : Nat) :
    (f.add parent label).nodes[j]? =
      if j = f.size then some ⟨parent, [], label⟩
      else f.nodes[j]?.map fun node =>
        if parent = some j then { node with children := node.children ++ [f.size] } else node := by
  -- a parent that is there is not filtered out
  have hfilter : parent.filter (· < f.size) = parent := by
    cases parent with
    | none => rfl
    | some p => simp [Option.filter, hparent p rfl]
  simp only [add, hfilter]
  exact getElem?_link f.nodes parent label j hparent

theorem label?_add (hparent : ∀ p, parent = some p → p < f.size) (j : Nat) :
    (f.add parent label).label? j = if j = f.size then some label else f.label? j := by
  simp only [label?, getElem?_nodes_add hparent]
  split
  · rfl
  · cases f.nodes[j]? with
    | none => rfl
    | some node =>
      simp only [Option.map_some]
      split <;> rfl

theorem size_add (hparent : ∀ p, parent = some p → p < f.size) :
    (f.add parent label).size = f.size + 1 := by
  refine Nat.le_antisymm ?_ ?_
  · refine label?_eq_none_iff.mp ?_
    rw [label?_add hparent, if_neg (by omega)]
    exact label?_eq_none_iff.mpr (Nat.le_succ _)
  · refine Nat.lt_of_not_le fun hle => ?_
    have hnone := label?_eq_none_iff.mpr hle
    rw [label?_add hparent, if_pos rfl] at hnone
    exact absurd hnone (by simp)

theorem parent?_add (hparent : ∀ p, parent = some p → p < f.size) (j : Nat) :
    (f.add parent label).parent? j = if j = f.size then parent else f.parent? j := by
  simp only [parent?, getElem?_nodes_add hparent]
  split
  · rfl
  · cases f.nodes[j]? with
    | none => rfl
    | some node =>
      simp only [Option.map_some, Option.bind_some]
      split <;> rfl

/-- The new node comes last among the children of its parent. -/
theorem children_add (hparent : ∀ p, parent = some p → p < f.size) (j : Nat) :
    (f.add parent label).children j =
      if parent = some j then f.children j ++ [f.size] else f.children j := by
  simp only [children, getElem?_nodes_add hparent]
  -- the new node, a node that is not there, and one that is
  by_cases hj : j = f.size
  · subst hj
    have hne : parent ≠ some f.size := fun h => Nat.lt_irrefl _ (hparent _ h)
    have hnone : f.nodes[f.size]? = none := by simp [size]
    simp [hne, hnone]
  · cases hnode : f.nodes[j]? with
    | none =>
      have hne : parent ≠ some j := by
        intro h
        -- a parent is there, so this node is not the parent
        have hlt := hparent j h
        simp only [size] at hlt
        simp at hnode
        omega
      simp [hj, hne]
    | some node =>
      simp only [hj, if_false, Option.map_some, Option.getD_some]
      split <;> rfl

theorem labels_add (hparent : ∀ p, parent = some p → p < f.size) :
    (f.add parent label).labels = f.labels ++ [label] := by
  apply List.ext_getElem?
  intro j
  rw [getElem?_labels, label?_add hparent]
  -- before, at and behind the place of the new node
  rcases Nat.lt_trichotomy j f.size with hlt | heq | hgt
  · rw [if_neg (by omega), List.getElem?_append_left (by rw [length_labels]; exact hlt),
      getElem?_labels]
  · rw [if_pos heq, List.getElem?_append_right (by rw [length_labels]; omega), length_labels]
    simp [heq]
  · rw [if_neg (by omega), label?_eq_none_iff.mpr (by omega)]
    refine (List.getElem?_eq_none ?_).symm
    rw [List.length_append, length_labels, List.length_singleton]
    exact hgt

end Add

/-! ## Lineages -/

theorem lineage_of_parent?_eq_none {f : Forest α} {i : Nat} (h : f.parent? i = none) :
    f.lineage i = [i] := by
  rw [lineage]
  split
  · rfl
  · next p hp => simp [h] at hp

theorem lineage_of_parent? {f : Forest α} {i p : Nat} (h : f.parent? i = some p) :
    f.lineage i = i :: f.lineage p := by
  rw [lineage]
  split
  · next hnone => simp [h] at hnone
  · next q hq =>
    obtain rfl := Option.some.inj (h.symm.trans hq)
    rfl

/-! ## Subtrees -/

theorem subtree_eq (f : Forest α) (i : Nat) :
    f.subtree i = i :: (f.children i).flatMap f.subtree := by
  rw [subtree, List.flatMap_subtype (by intros; rfl), List.unattach_attach]

theorem mem_subtree_self (f : Forest α) (i : Nat) : i ∈ f.subtree i := by
  rw [subtree_eq]
  exact List.mem_cons_self

/-- What holds of a node whenever it holds of its children holds of every node. -/
theorem induction_on_children {f : Forest α} {motive : Nat → Prop}
    (step : ∀ root, (∀ c ∈ f.children root, motive c) → motive root) (root : Nat) :
    motive root := by
  -- children have greater numbers, so what is left of the forest bounds the depth
  induction hleft : f.size - root using Nat.strongRecOn generalizing root with
  | ind left ih =>
    refine step root fun c hc => ih (f.size - c) ?_ c rfl
    have hlt := lt_of_mem_children hc
    have hsize := lt_size_of_mem_children hc
    omega

/-- A child of a node of a subtree belongs to the subtree. -/
theorem mem_subtree_of_parent? {f : Forest α} {i p : Nat} (hparent : f.parent? i = some p)
    {root : Nat} (hp : p ∈ f.subtree root) : i ∈ f.subtree root := by
  induction root using induction_on_children (f := f) with
  | step root ih =>
    rw [subtree_eq, List.mem_cons] at hp
    rw [subtree_eq]
    refine List.mem_cons_of_mem _ (List.mem_flatMap.mpr ?_)
    rcases hp with rfl | hp
    · exact ⟨i, mem_children_iff.mpr hparent, mem_subtree_self f i⟩
    · obtain ⟨c, hc, hp⟩ := List.mem_flatMap.mp hp
      exact ⟨c, hc, ih c hc hp⟩

/-- Where every node but the first has a parent, the subtree of the first holds them all. -/
theorem mem_subtree_zero {f : Forest α}
    (hrooted : ∀ i, i < f.size → i ≠ 0 → ∃ p, f.parent? i = some p) {i : Nat} (h : i < f.size) :
    i ∈ f.subtree 0 := by
  induction i using Nat.strongRecOn with
  | ind i ih =>
    -- by induction on the number: the parent has a smaller one
    by_cases hzero : i = 0
    · rw [hzero]
      exact mem_subtree_self f 0
    · obtain ⟨p, hp⟩ := hrooted i h hzero
      have hlt := parent?_lt hp
      exact mem_subtree_of_parent? hp (ih p hlt (by omega))

theorem lt_size_of_mem_subtree {f : Forest α} {root : Nat} (hroot : root < f.size) {i : Nat}
    (h : i ∈ f.subtree root) : i < f.size := by
  induction root using induction_on_children (f := f) with
  | step root ih =>
    rw [subtree_eq, List.mem_cons] at h
    rcases h with rfl | h
    · exact hroot
    · obtain ⟨c, hc, h⟩ := List.mem_flatMap.mp h
      exact ih c hc (lt_size_of_mem_children hc) h

end GroupFlattening.Forest
