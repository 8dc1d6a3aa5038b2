/-!
# Forests of Numbered Nodes

Trees whose nodes are numbered in the order in which they were added. Every node knows its parent
and its children; a parent has a smaller number than its children, and the children of a node are
listed in increasing order. The type keeps these facts, so that walks towards a root and walks
down a tree both end by the numbers alone.
-/

namespace GroupFlattening

/-- A node: where it hangs, what hangs below it, and what it holds. -/
structure Forest.Node (α : Type) where
  /-- The number of the parent; a root has none. -/
  parent : Option Nat
  /-- The numbers of the children, in the order in which they were added. -/
  children : List Nat
  /-- What the node holds. -/
  label : α
  deriving Repr, DecidableEq

/-- Numbered nodes in which parents and children agree. -/
structure Forest (α : Type) where
  /-- The nodes; a node's number is its position. -/
  nodes : Array (Forest.Node α)
  /-- A parent is added before its children. -/
  parent_lt : ∀ (i : Nat) (node : Forest.Node α), nodes[i]? = some node →
    ∀ p, node.parent = some p → p < i
  /-- The children of a node are the nodes that have it as their parent. -/
  mem_children : ∀ (i : Nat) (node : Forest.Node α), nodes[i]? = some node →
    ∀ c, c ∈ node.children ↔ ∃ child, nodes[c]? = some child ∧ child.parent = some i
  /-- Children are listed in the order of their numbers. -/
  children_increasing : ∀ (i : Nat) (node : Forest.Node α), nodes[i]? = some node →
    node.children.Pairwise (· < ·)

namespace Forest

variable {α : Type}

/-- Two forests with the same nodes are equal. -/
@[ext] theorem ext {f g : Forest α} (h : f.nodes = g.nodes) : f = g := by
  cases f; cases g; simp_all

/-- The forest without nodes. -/
def empty : Forest α :=
  ⟨#[], by simp, by simp, by simp⟩

instance : Inhabited (Forest α) := ⟨empty⟩

/-! ## Looking at nodes -/

/-- The number of nodes. -/
def size (f : Forest α) : Nat := f.nodes.size

/-- What node `i` holds. -/
def label? (f : Forest α) (i : Nat) : Option α := f.nodes[i]?.map (·.label)

/-- What the nodes hold, in the order of their numbers. -/
def labels (f : Forest α) : List α := f.nodes.toList.map (·.label)

/-- The parent of node `i`. -/
def parent? (f : Forest α) (i : Nat) : Option Nat := f.nodes[i]?.bind (·.parent)

/-- The children of node `i`. -/
def children (f : Forest α) (i : Nat) : List Nat := (f.nodes[i]?.map (·.children)).getD []

/-- The first child of node `i` that holds something satisfying `accepts`. -/
def child? (f : Forest α) (i : Nat) (accepts : α → Bool) : Option Nat :=
  (f.children i).find? fun c => (f.label? c).any accepts

theorem parent?_lt {f : Forest α} {i p : Nat} (h : f.parent? i = some p) : p < i := by
  obtain ⟨node, hnode, hp⟩ := Option.bind_eq_some_iff.mp h
  exact f.parent_lt i node hnode p hp

theorem mem_children_iff {f : Forest α} {i c : Nat} : c ∈ f.children i ↔ f.parent? c = some i := by
  constructor
  · intro h
    cases hi : f.nodes[i]? with
    | none => simp [children, hi] at h
    | some node =>
      have hc : c ∈ node.children := by simpa [children, hi] using h
      obtain ⟨child, hchild, hp⟩ := (f.mem_children i node hi c).mp hc
      simp [parent?, hchild, hp]
  · intro h
    obtain ⟨child, hchild, hp⟩ := Option.bind_eq_some_iff.mp h
    have hlt := f.parent_lt c child hchild i hp
    have hc : c < f.nodes.size := (Array.getElem?_eq_some_iff.mp hchild).1
    have hi : f.nodes[i]? = some f.nodes[i] := Array.getElem?_eq_getElem (by omega)
    simpa [children, hi] using (f.mem_children i _ hi c).mpr ⟨child, hchild, hp⟩

theorem lt_of_mem_children {f : Forest α} {i c : Nat} (h : c ∈ f.children i) : i < c :=
  parent?_lt (mem_children_iff.mp h)

theorem lt_size_of_mem_children {f : Forest α} {i c : Nat} (h : c ∈ f.children i) :
    c < f.size := by
  obtain ⟨child, hchild, -⟩ := Option.bind_eq_some_iff.mp (mem_children_iff.mp h)
  exact (Array.getElem?_eq_some_iff.mp hchild).1

/-! ## Walks -/

/-- The node itself and its ancestors, nearest first. -/
def lineage (f : Forest α) (i : Nat) : List Nat :=
  match _h : f.parent? i with
  | none => [i]
  | some p => i :: f.lineage p
  termination_by i
  decreasing_by exact parent?_lt _h

/-- The node itself and its descendants, every parent before its children. -/
def subtree (f : Forest α) (i : Nat) : List Nat :=
  i :: (f.children i).attach.flatMap fun c => f.subtree c.1
  termination_by f.size - i
  decreasing_by
    have := lt_of_mem_children c.2
    have := lt_size_of_mem_children c.2
    omega

/-- The nodes of the subtree of `i` that satisfy `accepts` and have no ancestor inside the
subtree that does, each with its depth, where `i` itself is at the given depth. -/
def topmost (f : Forest α) (accepts : Nat → Bool) (depth i : Nat) : List (Nat × Nat) :=
  if accepts i then [(depth, i)]
  else (f.children i).attach.flatMap fun c => f.topmost accepts (depth + 1) c.1
  termination_by f.size - i
  decreasing_by
    have := lt_of_mem_children c.2
    have := lt_size_of_mem_children c.2
    omega

/-! ## Growing a forest -/

/-- The nodes with a new one appended, listed among the children of its parent. -/
def link (nodes : Array (Node α)) (parent : Option Nat) (label : α) : Array (Node α) :=
  let listed := match parent with
    | none => nodes
    | some p => nodes.modify p fun node => { node with children := node.children ++ [nodes.size] }
  listed.push ⟨parent, [], label⟩

theorem getElem?_link (nodes : Array (Node α)) (parent : Option Nat) (label : α) (i : Nat)
    (h : ∀ p, parent = some p → p < nodes.size) :
    (link nodes parent label)[i]? =
      if i = nodes.size then some ⟨parent, [], label⟩
      else nodes[i]?.map fun node =>
        if parent = some i then { node with children := node.children ++ [nodes.size] }
        else node := by
  cases parent with
  | none => simp [link, Array.getElem?_push]
  | some p =>
    have := h p rfl
    rw [link, Array.getElem?_push, Array.size_modify, Array.getElem?_modify]
    split
    · rfl
    · by_cases hp : p = i
      · simp [hp]
      · simp [hp]

/-- The forest with one more node. A parent that does not exist counts as none. -/
def add (f : Forest α) (parent : Option Nat) (label : α) : Forest α :=
  let parent := parent.filter (· < f.size)
  have bound : ∀ p, parent = some p → p < f.nodes.size := by
    intro p hp
    exact of_decide_eq_true (Option.filter_eq_some_iff.mp hp).2
  have entry := fun i => getElem?_link f.nodes parent label i bound
  { nodes := link f.nodes parent label
    parent_lt := by
      intro i node hi p hp
      rw [entry] at hi
      split at hi
      · next heq =>
        obtain rfl := Option.some.inj hi
        exact heq ▸ bound p hp
      · obtain ⟨old, hold, rfl⟩ := Option.map_eq_some_iff.mp hi
        refine f.parent_lt i old hold p ?_
        split at hp <;> exact hp
    mem_children := by
      intro i node hi c
      -- a node's parent is the one it was added with
      have hparent : (∃ child, (link f.nodes parent label)[c]? = some child ∧
            child.parent = some i) ↔
          (c = f.nodes.size ∧ parent = some i) ∨
            ∃ child, f.nodes[c]? = some child ∧ child.parent = some i := by
        rw [entry]
        by_cases hc : c = f.nodes.size
        · simp [hc]
        · rw [if_neg hc]
          cases hn : f.nodes[c]? with
          | none => simp [hc]
          | some child => by_cases hpc : parent = some c <;> simp [hc, hpc]
      rw [hparent]
      rw [entry] at hi
      split at hi
      · next heq =>
        obtain rfl := Option.some.inj hi
        simp only [List.not_mem_nil, false_iff]
        rintro (⟨-, hp⟩ | ⟨child, hchild, hp⟩)
        · exact Nat.lt_irrefl _ (heq ▸ bound i hp)
        · have := f.parent_lt c child hchild i hp
          have := (Array.getElem?_eq_some_iff.mp hchild).1
          omega
      · obtain ⟨old, hold, rfl⟩ := Option.map_eq_some_iff.mp hi
        have hmem := f.mem_children i old hold c
        by_cases hp : parent = some i
        · simp [hp, hmem, or_comm]
        · simp [hp, hmem]
    children_increasing := by
      intro i node hi
      rw [entry] at hi
      split at hi
      · obtain rfl := Option.some.inj hi
        exact List.Pairwise.nil
      · obtain ⟨old, hold, rfl⟩ := Option.map_eq_some_iff.mp hi
        have hinc := f.children_increasing i old hold
        split
        · refine List.pairwise_append.mpr ⟨hinc, by simp, fun a ha b hb => ?_⟩
          obtain ⟨child, hchild, -⟩ := (f.mem_children i old hold a).mp ha
          have := (Array.getElem?_eq_some_iff.mp hchild).1
          obtain rfl := List.mem_singleton.mp hb
          exact this
        · exact hinc }

/-- The nodes with what node `i` holds replaced. -/
def relabel (nodes : Array (Node α)) (i : Nat) (change : α → α) : Array (Node α) :=
  nodes.modify i fun node => { node with label := change node.label }

theorem getElem?_relabel (nodes : Array (Node α)) (i : Nat) (change : α → α) (j : Nat) :
    (relabel nodes i change)[j]? = nodes[j]?.map fun node =>
      if i = j then { node with label := change node.label } else node := by
  rw [relabel, Array.getElem?_modify]
  split <;> simp

/-- The forest with what node `i` holds replaced. -/
def modify (f : Forest α) (i : Nat) (change : α → α) : Forest α :=
  have entry := getElem?_relabel f.nodes i change
  { nodes := relabel f.nodes i change
    parent_lt := by
      intro j node hj p hp
      obtain ⟨old, hold, rfl⟩ := Option.map_eq_some_iff.mp (entry j ▸ hj)
      refine f.parent_lt j old hold p ?_
      split at hp <;> exact hp
    mem_children := by
      intro j node hj c
      obtain ⟨old, hold, rfl⟩ := Option.map_eq_some_iff.mp (entry j ▸ hj)
      have hmem := f.mem_children j old hold c
      have hparent : (∃ child, (relabel f.nodes i change)[c]? = some child ∧
            child.parent = some j) ↔ ∃ child, f.nodes[c]? = some child ∧ child.parent = some j := by
        rw [entry]
        cases f.nodes[c]? with
        | none => simp
        | some child => by_cases h : i = c <;> simp [h]
      rw [hparent, ← hmem]
      split <;> rfl
    children_increasing := by
      intro j node hj
      obtain ⟨old, hold, rfl⟩ := Option.map_eq_some_iff.mp (entry j ▸ hj)
      have := f.children_increasing j old hold
      split <;> exact this }

end Forest

end GroupFlattening
