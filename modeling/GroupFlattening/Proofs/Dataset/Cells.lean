import GroupFlattening.Dataset.Write
import GroupFlattening.Proofs.Buffer
import GroupFlattening.Proofs.Shape.Box
import Mathlib.Data.List.Induction

/-!
# Cells of a Variable

What a variable holds at an index after a box of it was filled: the cell with the number that the
index has in the box (`cell_fill_of_getElem?`), and outside the box what it held before
(`cell_fill_of_not_mem`). Boxes that are copied from another variable of the same type bring along
what that variable holds there (`cell_copyBoxes`).
-/

namespace GroupFlattening.Dataset.Variable

variable {v : Variable} {box : Box} {cells : List Cell} {index : Index}

theorem cell_ofDefinition (definition : VariableDefinition) (shape : Shape) (index : Index) :
    (ofDefinition definition shape).cell index = Cell.zero definition.type :=
  Std.ExtTreeMap.getD_empty

/-! ## Filling a box -/

theorem fill_cells : (v.fill box cells).cells = v.cells.insertMany (box.indices.zip cells) := by
  unfold fill
  generalize box.indices.zip cells = entries, v.cells = all
  induction entries generalizing all with
  | nil => exact Std.ExtTreeMap.insertMany_nil.symm
  | cons entry rest ih =>
    rw [List.foldl_cons, Std.ExtTreeMap.insertMany_cons]
    exact ih _

/-- Filling a box sets the cell of each index of the box. -/
theorem cell_fill_of_getElem? (hbox : box.start.length = box.count.length)
    (hcells : cells.length = box.count.volume) {k : Nat} {cell : Cell}
    (hindex : box.indices[k]? = some index) (hcell : cells[k]? = some cell) :
    (v.fill box cells).cell index = cell := by
  have hmem : (index, cell) ∈ box.indices.zip cells := by
    apply List.mem_of_getElem?
    rw [List.getElem?_zip_eq_some]
    exact ⟨hindex, hcell⟩
  have hle : box.indices.length ≤ cells.length :=
    Nat.le_of_eq ((Box.length_indices box).trans hcells.symm)
  -- no index occurs twice, so no later entry overwrites this one
  have hdistinct : (box.indices.zip cells).Pairwise fun a b => ¬ compare a.1 b.1 = .eq := by
    have hnodup : ((box.indices.zip cells).map Prod.fst).Nodup := by
      rw [List.map_fst_zip hle]
      exact Box.nodup_indices hbox
    rw [List.Nodup, List.pairwise_map] at hnodup
    exact hnodup.imp fun hne heq => hne (Std.compare_eq_iff_eq.mp heq)
  rw [Variable.cell, fill_cells]
  exact Std.ExtTreeMap.getD_insertMany_list_of_mem (Std.compare_eq_iff_eq.mpr rfl) hdistinct hmem

/-- Filling a box sets nothing outside the box. -/
theorem cell_fill_of_not_mem (h : index ∉ box.indices) :
    (v.fill box cells).cell index = v.cell index := by
  have hnew : ((box.indices.zip cells).map Prod.fst).contains index = false := by
    rw [List.contains_eq_mem, decide_eq_false_iff_not, List.mem_map]
    rintro ⟨entry, hentry, rfl⟩
    exact h (List.of_mem_zip hentry).1
  rw [Variable.cell, fill_cells]
  exact Std.ExtTreeMap.getD_insertMany_list_of_contains_eq_false hnew

/-- What is there after filling a box was there before or lies in the box. -/
theorem mem_fill (h : index ∈ (v.fill box cells).cells) :
    index ∈ v.cells ∨ index ∈ box.indices := by
  rw [fill_cells, Std.ExtTreeMap.mem_insertMany_list, List.contains_eq_mem, decide_eq_true_eq,
    List.mem_map] at h
  rcases h with h | ⟨entry, hentry, rfl⟩
  · exact Or.inl h
  · exact Or.inr (List.of_mem_zip hentry).1

/-- The cells of a variable that is filled with cells are those or the ones it had. -/
theorem cell_fill_cases (hbox : box.start.length = box.count.length)
    (hcells : cells.length = box.count.volume) (index : Index) :
    (v.fill box cells).cell index ∈ cells ∨ (v.fill box cells).cell index = v.cell index := by
  by_cases hindex : index ∈ box.indices
  -- an index of the box gets the cell with its number
  · obtain ⟨k, hk⟩ := List.mem_iff_getElem?.mp hindex
    have hlt : k < cells.length := by
      rw [hcells, ← Box.length_indices]
      exact (List.getElem?_eq_some_iff.mp hk).1
    have hcell : cells[k]? = some cells[k] := List.getElem?_eq_getElem hlt
    left
    rw [cell_fill_of_getElem? hbox hcells hk hcell]
    exact List.getElem_mem hlt
  · exact Or.inr (cell_fill_of_not_mem hindex)

/-! ## Copying boxes -/

/-- Filling a box with what is read from another variable copies its cells there. -/
theorem cell_fill_read {source : Variable}
    (htyped : ∀ index, (source.cell index).HasType source.type)
    (hbox : box.start.length = box.count.length) (index : Index) :
    (v.fill box ((source.read box).cells source.type)).cell index =
      if index ∈ box.indices then source.cell index else v.cell index := by
  -- what was read off the source are the cells of the box, in order
  have hcells : (source.read box).cells source.type = box.indices.map source.cell := by
    apply Buffer.cells_ofCells
    intro cell hcell
    obtain ⟨index, -, rfl⟩ := List.mem_map.mp hcell
    exact htyped index
  rw [hcells]
  split
  · next hindex =>
    obtain ⟨k, hk⟩ := List.mem_iff_getElem?.mp hindex
    refine cell_fill_of_getElem? hbox ?_ hk ?_
    · rw [List.length_map, Box.length_indices]
    · rw [List.getElem?_map, hk]
      rfl
  · next hindex => exact cell_fill_of_not_mem hindex

/-- A variable with boxes of another one copied to it, one after the other. -/
def copyBoxes (source : Variable) (boxes : List Box) (v : Variable) : Variable :=
  boxes.foldl (fun v box => v.fill box ((source.read box).cells source.type)) v

theorem copyBoxes_append_singleton (source : Variable) (boxes : List Box) (box : Box)
    (v : Variable) :
    copyBoxes source (boxes ++ [box]) v =
      (copyBoxes source boxes v).fill box ((source.read box).cells source.type) := by
  unfold copyBoxes
  rw [List.foldl_append]
  rfl

theorem type_copyBoxes (source : Variable) (boxes : List Box) (v : Variable) :
    (copyBoxes source boxes v).type = v.type := by
  induction boxes using List.reverseRecOn with
  | nil => rfl
  | append_singleton boxes box ih =>
    rw [copyBoxes_append_singleton]
    exact ih

/-- Where boxes were copied a variable holds what the other one holds, and elsewhere what it held
before. -/
theorem cell_copyBoxes {source : Variable}
    (htyped : ∀ index, (source.cell index).HasType source.type) {boxes : List Box}
    (hboxes : ∀ box ∈ boxes, box.start.length = box.count.length) (index : Index) :
    (copyBoxes source boxes v).cell index =
      if ∃ box ∈ boxes, index ∈ box.indices then source.cell index else v.cell index := by
  induction boxes using List.reverseRecOn with
  -- by the last box, since later boxes overwrite earlier ones
  | nil => simp [copyBoxes]
  | append_singleton boxes box ih =>
    -- the last box counts where it was copied
    rw [copyBoxes_append_singleton, cell_fill_read htyped (hboxes box (by simp)),
      ih fun box hbox => hboxes box (List.mem_append_left _ hbox)]
    by_cases hlast : index ∈ box.indices
    · simp [hlast]
    · simp [hlast, or_and_right, exists_or]

end GroupFlattening.Dataset.Variable
