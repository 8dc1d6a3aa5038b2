import GroupFlattening.Proofs.Hierarchy.Snapshot

/-!
# Hierarchies Built by Hand

A hierarchy can be put together group by group as one tree below a single root (`Built`). Whatever
is added, no group is inside itself, and every variable knows the group that it was added to.
-/

namespace GroupFlattening.Hierarchy

/-- Hierarchies that were put together as one tree below a single root. -/
inductive Built : Hierarchy → Prop
  /-- The root, which comes first. -/
  | root (path : String) : Built (empty.addGroup none (Group.atPath path))
  /-- A group inside one that is there. -/
  | group {h : Hierarchy} (hh : Built h) {parent : Nat} (hparent : parent < h.size)
      (path : String) : Built (h.addGroup (some parent) (Group.atPath path))
  /-- A dimension of a group. -/
  | dimension {h : Hierarchy} (hh : Built h) {id : Nat} (hid : id < h.size) (name : String) :
      Built (h.changeGroup id (·.addDimension name))
  /-- A variable of a group. -/
  | «variable» {h : Hierarchy} (hh : Built h) {id : Nat} (hid : id < h.size) (name : String)
      (dimensions : List String) (coordinates : Option String) :
      Built (h.changeGroup id (·.addVariable id name dimensions coordinates))

theorem group_changeGroup {h : Hierarchy} {id : Nat} (hid : id < h.size) (change : Group → Group)
    (i : Nat) : (h.changeGroup id change).group i =
      if id = i then change (h.group i) else h.group i := by
  obtain ⟨g, hg⟩ := Forest.exists_label? hid
  rw [group, changeGroup, Forest.label?_modify]
  split
  · next heq =>
    subst heq
    simp [group, hg]
  · rfl

/-- What holds of a group with nothing in it, and still holds after a dimension or a variable was
added to the group, holds of every group. -/
theorem Built.group_induction {P : Nat → Group → Prop} (hempty : ∀ i, P i default)
    (hpath : ∀ i path, P i (Group.atPath path))
    (hdimension : ∀ i g name, P i g → P i (g.addDimension name))
    (hvariable : ∀ i g name dimensions coordinates, P i g →
      P i (g.addVariable i name dimensions coordinates))
    {h : Hierarchy} (hh : h.Built) (i : Nat) : P i (h.group i) := by
  induction hh with
  | root path =>
    rw [group_addGroup (by simp) rfl]
    split
    · exact hpath i path
    · exact hempty i
  -- a new group is empty, and the others stay as they are
  | group hh hparent path ih =>
    rw [group_addGroup (fun p hp => Option.some.inj hp ▸ hparent) rfl]
    split
    · exact hpath i path
    · exact ih
  -- one group gets a dimension or a variable
  | dimension hh hid name ih =>
    rw [group_changeGroup hid]
    split
    · exact hdimension i _ name ih
    · exact ih
  | «variable» hh hid name dimensions coordinates ih =>
    rw [group_changeGroup hid]
    split
    · next heq => exact heq ▸ hvariable _ _ name dimensions coordinates (heq ▸ ih)
    · exact ih

namespace Built

variable {h : Hierarchy} (hh : h.Built)

include hh

theorem enclosesItself (i : Nat) : (h.group i).enclosesItself = false :=
  hh.group_induction (P := fun _ g => g.enclosesItself = false) (fun _ => rfl) (fun _ _ => rfl)
    (fun _ _ _ hg => hg) (fun _ _ _ _ _ hg => hg) i

theorem children_eq (i : Nat) : h.children i = h.groups.children i := by
  rw [children, hh.enclosesItself, if_neg (by simp)]

/-- A variable knows its group. -/
theorem group_eq {i : Nat} {v : Variable} (hv : v ∈ (h.group i).vars) : v.group = i := by
  refine hh.group_induction (P := fun i g => ∀ v ∈ g.vars, v.group = i) ?_ ?_ ?_ ?_ i v hv
  · exact fun _ _ hv => nomatch hv
  · exact fun _ _ _ hv => nomatch hv
  · exact fun _ _ _ hg => hg
  · intro i g name dimensions coordinates hg v hv
    rcases List.mem_append.mp hv with hv | hv
    · exact hg v hv
    · obtain rfl := List.mem_singleton.mp hv
      rfl

end Built

end GroupFlattening.Hierarchy
