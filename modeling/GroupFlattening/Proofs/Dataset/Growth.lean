import GroupFlattening.Proofs.Dataset.Reachable
import GroupFlattening.Proofs.Dimension

/-!
# What a Write Does to Each Group

Data that is accepted grows dimensions and changes the cells of one variable. In every group the
dimensions reach the ends of the axes that run along them (`group_foldl_growDimension`), whatever
paths the variable uses for them, and only the group of the variable holds anything else that is new
(`group_store`). Every path leads to the same group, dimension and variable as before.
-/

namespace GroupFlattening.Dataset

open ObjectPath (split)

/-! ## Growing dimensions -/

/-- The axes that run along dimensions of a group, with the names of the dimensions in place of
their paths. -/
def axesIn (d : Dataset) (id : Nat) (axes : List (String × Nat)) : List (String × Nat) :=
  (axes.filter fun axis => (d.groupId (split axis.1).1).toOption == some id).map fun axis =>
    ((split axis.1).2, axis.2)

/-- A group with its dimensions grown to reach the ends of axes. -/
def Group.grown (g : Group) (axes : List (String × Nat)) : Group :=
  { g with dimensions := g.dimensions.map (Dimension.grown axes) }

theorem Group.grown_nil (g : Group) : g.grown [] = g := by
  unfold grown
  rw [Dimension.grown_nil, List.map_id]

/-- Growing a dimension leaves every group where it is. -/
theorem groupId_growDimension (d : Dataset) (axis : String × Nat) (path : String) :
    (d.growDimension axis).groupId path = d.groupId path := by
  simp only [growDimension]
  split
  · apply groupId_changeGroup
    rfl
  · rfl

theorem groupId_foldl_growDimension (d : Dataset) (axes : List (String × Nat)) (path : String) :
    (axes.foldl growDimension d).groupId path = d.groupId path := by
  induction axes generalizing d with
  | nil => rfl
  | cons axis rest ih => rw [List.foldl_cons, ih, groupId_growDimension]

theorem axesIn_growDimension (d : Dataset) (axis : String × Nat) (id : Nat)
    (axes : List (String × Nat)) : (d.growDimension axis).axesIn id axes = d.axesIn id axes := by
  unfold axesIn
  simp only [groupId_growDimension]

namespace WellFormed

variable {d : Dataset}

theorem growDimension (hd : d.WellFormed) (axis : String × Nat) :
    (d.growDimension axis).WellFormed := by
  simp only [Dataset.growDimension]
  split
  · apply hd.changeDimension
    intro dim
    rfl
  · exact hd

/-- One axis grows the dimension that it runs along. -/
theorem group_growDimension (hd : d.WellFormed) (axis : String × Nat) (i : Nat) :
    (d.growDimension axis).group i = (d.group i).grown (d.axesIn i [axis]) := by
  cases hid : d.groupId (split axis.1).1 with
  | error fault =>
    -- the path leads to no group, so no dimension grows
    have haxes : d.axesIn i [axis] = [] := by simp [axesIn, hid, Except.toOption]
    simp only [Dataset.growDimension, hid, haxes, Group.grown_nil]
  | ok id =>
    simp only [Dataset.growDimension, hid, Dataset.changeDimension]
    by_cases hi : i = id
    · subst hi
      have haxes : d.axesIn i [axis] = [((split axis.1).2, axis.2)] := by
        simp [axesIn, hid, Except.toOption]
      rw [group_changeGroup_self d (hd.lt_size_of_groupId hid),
        changeFirst_eq_map (hd.groups i).dimensions, haxes]
      -- the first dimension of the name grows, and it is the only one
      have hgrown : (fun dim : Dimension => if dim.name == (split axis.1).2 then
          { dim with size := max dim.size axis.2 } else dim) =
          Dimension.grown [((split axis.1).2, axis.2)] := by
        funext dim
        simp only [Dimension.grown, List.foldl_cons, List.foldl_nil, beq_iff_eq,
          eq_comm (a := dim.name)]
      rw [hgrown, Group.grown]
    -- the dimension belongs to another group
    · have haxes : d.axesIn i [axis] = [] := by
        simp [axesIn, hid, Except.toOption, Ne.symm hi]
      rw [group_changeGroup_ne d hi, haxes, Group.grown_nil]

/-- The dimensions of every group reach the ends of the axes that run along them. -/
theorem group_foldl_growDimension (hd : d.WellFormed) (axes : List (String × Nat)) (i : Nat) :
    (axes.foldl Dataset.growDimension d).group i = (d.group i).grown (d.axesIn i axes) := by
  induction axes generalizing d with
  | nil => exact (Group.grown_nil _).symm
  | cons axis rest ih =>
    -- axis by axis: what the first one makes of a dimension the others start from
    have happend : d.axesIn i (axis :: rest) = d.axesIn i [axis] ++ d.axesIn i rest := by
      unfold axesIn
      rw [← List.map_append, ← List.filter_append, List.singleton_append]
    have hgrown : Dimension.grown (d.axesIn i rest) ∘ Dimension.grown (d.axesIn i [axis]) =
        Dimension.grown (d.axesIn i (axis :: rest)) := by
      funext dim
      rw [happend]
      simp [Dimension.grown, List.foldl_append]
    rw [List.foldl_cons, ih (hd.growDimension axis), hd.group_growDimension,
      axesIn_growDimension]
    simp only [Group.grown, List.map_map, hgrown]

theorem foldl_growDimension (hd : d.WellFormed) (axes : List (String × Nat)) :
    (axes.foldl Dataset.growDimension d).WellFormed := by
  induction axes generalizing d with
  | nil => exact hd
  | cons axis rest ih => exact ih (hd.growDimension axis)

end WellFormed

/-! ## Storing data -/

/-- The variable with the data in a box, in the shape that it gets when it is written. -/
def written (d : Dataset) (v : Variable) (box : Box) (data : Buffer) : Variable :=
  { v.fill box (data.cells v.type) with
    stored := v.dimensions.map ((v.dimensions.zip box.stop).foldl growDimension d).sizeOf }

section Store

variable {d : Dataset} (hd : d.WellFormed) {path : String} {id : Nat} {v : Variable}
  (hfind : d.findVariable path = .ok (id, v)) (box : Box) (data : Buffer)

theorem groupId_store (d : Dataset) (id : Nat) (v : Variable) (box : Box) (data : Buffer)
    (path : String) : (d.store id v box data).groupId path = d.groupId path := by
  rw [store, changeVariable, groupId_changeGroup, groupId_foldl_growDimension]
  rfl

include hd hfind

/-- Only the group of the variable holds more than grown dimensions afterwards. -/
theorem group_store (i : Nat) :
    (d.store id v box data).group i =
      { (d.group i).grown (d.axesIn i (v.dimensions.zip box.stop)) with
        vars := if i = id then (d.group i).vars.map fun w =>
            if w.name == v.name then d.written v box data else w
          else (d.group i).vars } := by
  obtain ⟨hid, hfound⟩ := findVariable_eq_ok_iff.mp hfind
  have hlt := (hd.foldl_growDimension (v.dimensions.zip box.stop)).lt_size_of_groupId
    ((groupId_foldl_growDimension d _ _).trans hid)
  have hv : v ∈ (d.group id).vars := List.mem_of_find?_eq_some hfound
  have hnodup := (hd.groups id).vars
  rw [store, changeVariable]
  by_cases hi : i = id
  · subst hi
    rw [group_changeGroup_self _ hlt, hd.group_foldl_growDimension, if_pos rfl]
    simp only [Group.grown]
    rw [changeFirst_eq_map hnodup]
    congr 1
    refine List.map_congr_left fun w hw => ?_
    split
    · next hname =>
      -- no other variable of the group has this name
      have hunique := find?_eq_some_of_nodup hnodup hw
      rw [beq_iff_eq.mp hname, find?_eq_some_of_nodup hnodup hv] at hunique
      rw [← Option.some.inj hunique, written]
    · rfl
  -- in other groups dimensions may grow, and that is all
  · rw [group_changeGroup_ne _ hi, hd.group_foldl_growDimension, if_neg hi]
    rfl

/-- After a write a dimension is found where it was, grown to the ends of the axes that run along
it. -/
theorem dimension_store {q : String} {dim : Dimension} (hdim : d.dimension q = .ok dim) :
    ∃ i, d.groupId (split q).1 = .ok i ∧ (d.store id v box data).dimension q =
      .ok (dim.grown (d.axesIn i (v.dimensions.zip box.stop))) := by
  obtain ⟨i, hi, hfound⟩ := dimension_eq_ok_iff.mp hdim
  refine ⟨i, hi, dimension_eq_ok_iff.mpr ⟨i, (groupId_store d id v box data _).trans hi, ?_⟩⟩
  rw [group_store hd hfind]
  simp only [Group.grown, List.find?_map, Function.comp_def, Dimension.name_grown, hfound,
    Option.map_some]

/-- After a write a variable is found where it was, filled if it is the one that was written. -/
theorem findVariable_store {q : String} {i : Nat} {w : Variable}
    (hq : d.findVariable q = .ok (i, w)) :
    (d.store id v box data).findVariable q =
      .ok (i, if i = id ∧ w.name = v.name then d.written v box data else w) := by
  obtain ⟨hi, hfound⟩ := findVariable_eq_ok_iff.mp hq
  refine findVariable_eq_ok_iff.mpr ⟨(groupId_store d id v box data _).trans hi, ?_⟩
  rw [group_store hd hfind]
  by_cases hid : i = id
  · subst hid
    -- the written variable has the name that it had, so the search stops at the same place
    have hnames : (fun w : Variable =>
        (if w.name == v.name then d.written v box data else w).name == (split q).2) =
        fun w => w.name == (split q).2 := by
      funext w
      split
      · next hname =>
        rw [beq_iff_eq.mp hname]
        rfl
      · rfl
    rw [if_pos rfl, List.find?_map, Function.comp_def, hnames, hfound]
    simp only [Option.map_some, true_and, beq_iff_eq]
  · simp only [hid, false_and, if_false, hfound]

end Store

end GroupFlattening.Dataset
