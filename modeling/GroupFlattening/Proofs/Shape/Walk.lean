import GroupFlattening.Proofs.Shape.Box
import Mathlib.Algebra.Group.Nat.Defs
import Mathlib.Data.Set.Function

/-!
# Walking a Box

A box can be walked without numbering its indices: from one index to the next by taking the last
axis one position further, and starting it again and going on with the axis before it where it has
no further position (`advance?`). Positions are looked up by the number of their axis, and an axis
that an index does not have makes the walk fail. Where the first index and the extent of the box
have one rank, it never does: measured in row-major numbers one step leads from each number to the
next one (`advance?_index`), so the walk ends and visits the indices in row-major order
(`isWalk_iff`), whatever is done at each of them (`forEach?_eq_foldlM`).
-/

namespace GroupFlattening

/-! ## Row-major numbers by one pass -/

namespace Shape

/-- The row-major number of an index, computed from the outermost axis inwards. -/
def linear (shape : Shape) (index : Index) : Nat :=
  (index.zip shape).foldl (fun number axis => number * axis.2 + axis.1) 0

theorem foldl_linear {shape : Shape} {index : Index} (h : index.length = shape.length)
    (number : Nat) :
    (index.zip shape).foldl (fun number axis => number * axis.2 + axis.1) number =
      number * shape.volume + shape.offset index := by
  -- along the axes, from any number of the axes outside
  induction shape generalizing index number with
  | nil =>
    rw [List.length_eq_zero_iff.mp h]
    simp [offset]
  | cons n shape ih =>
    cases index with
    | nil => cases h
    | cons i index =>
      rw [List.zip_cons_cons, List.foldl_cons, ih (Nat.succ.inj h), offset, volume_cons,
        Nat.add_mul, Nat.mul_assoc, Nat.add_assoc]

theorem volume_eq_zero {shape : Shape} (h : 0 ∈ shape) : shape.volume = 0 := by
  apply Nat.eq_zero_of_not_pos
  intro hpos
  exact not_within_of_zero_mem h (within_unrank hpos)

theorem linear_eq_offset {shape : Shape} {index : Index} (h : index.length = shape.length) :
    shape.linear index = shape.offset index := by
  rw [linear, foldl_linear h, Nat.zero_mul, Nat.zero_add]

/-- The indices of a shape have all numbers below the volume, each of them one. -/
theorem bijOn_linear (shape : Shape) :
    Set.BijOn shape.linear {index | shape.Within index} {k | k < shape.volume} := by
  have hoffset : ∀ index, shape.Within index → shape.linear index = shape.offset index :=
    fun index h => linear_eq_offset h.length_eq
  -- unranking is the inverse
  have hinverse : Set.InvOn shape.unrank shape.linear {index | shape.Within index}
      {k | k < shape.volume} := by
    constructor
    · intro index h
      rw [hoffset index h, unrank_offset h]
    · intro k hk
      rw [hoffset _ (within_unrank hk), offset_unrank hk]
  refine hinverse.bijOn (fun index h => ?_) fun k hk => within_unrank hk
  show shape.linear index < shape.volume
  rw [hoffset index h]
  exact offset_lt h

end Shape

namespace Box

/-! ## The ends of the axes -/

/-- The position behind the box on the axis of a number. -/
def end? (box : Box) (axis : Nat) : Option Nat := do
  let first ← box.start[axis]?
  let extent ← box.count[axis]?
  pure (first + extent)

/-- An axis has an end where both the first index and the extent have the axis. -/
theorem end?_eq (box : Box) (axis : Nat) : box.end? axis = box.stop[axis]? := by
  rw [end?, stop, List.getElem?_zipWith]
  cases box.start[axis]? with
  | none => rfl
  | some first =>
    cases box.count[axis]? with
    | none => rfl
    | some extent => rfl

/-! ## The next index -/

/-- The index with its axes below `axis` taken one position further, the last one first: an axis
that has a further position takes it, and one that has none starts again before the next one is
looked at. Also gives whether there was such an axis. -/
def advance? (box : Box) : Nat → Index → Option (Index × Bool)
  | 0, index => some (index, false)
  | axis + 1, index => do
    let position ← index[axis]?
    let first ← box.start[axis]?
    let extent ← box.count[axis]?
    if position + 1 < first + extent then pure (index.set axis (position + 1), true)
    else box.advance? axis (index.set axis first)

/-- The axes behind the outermost one are taken further first. -/
theorem advance?_cons (first extent position : Nat) (start : Index) (count : Shape) (axis : Nat)
    (index : Index) :
    (Box.mk (first :: start) (extent :: count)).advance? (axis + 1) (position :: index) =
      ((Box.mk start count).advance? axis index).map fun (next, more) =>
        if more then (position :: next, true)
        else if position + 1 < first + extent then ((position + 1) :: next, true)
        else (first :: next, false) := by
  -- on the axes inside, of which the innermost that can go on does
  induction axis generalizing index with
  | zero =>
    by_cases hfurther : position + 1 < first + extent
    · simp [advance?, hfurther]
    · simp [advance?, hfurther]
  | succ axis ih =>
    rw [advance?, advance?]
    simp only [List.getElem?_cons_succ]
    cases index[axis]? with
    | none => rfl
    | some i =>
      cases start[axis]? with
      | none => rfl
      | some s =>
        cases count[axis]? with
        | none => rfl
        | some n =>
          by_cases hfurther : i + 1 < s + n
          · simp [hfurther]
          · simpa [hfurther] using ih (index.set axis s)

theorem index_zero {box : Box} (h : box.start.length = box.count.length) :
    box.index 0 = box.start := by
  obtain ⟨start, count⟩ := box
  simp only [index] at h ⊢
  -- axis by axis no shift
  induction count generalizing start with
  | nil => rw [List.length_eq_zero_iff.mp h]; rfl
  | cons n count ih =>
    cases start with
    | nil => cases h
    | cons s start =>
      rw [Shape.unrank, Nat.zero_div, Nat.zero_mod, List.zipWith_cons_cons,
        ih start (Nat.succ.inj h), Nat.add_zero]

theorem succ_div_mod_of_lt {k n : Nat} (h : k % n + 1 < n) :
    (k + 1) / n = k / n ∧ (k + 1) % n = k % n + 1 := by
  rw [Nat.div_mod_unique (by omega)]
  have hdiv := Nat.mod_add_div k n
  omega

theorem succ_div_mod_of_eq {k n : Nat} (hn : 0 < n) (h : k % n + 1 = n) :
    (k + 1) / n = k / n + 1 ∧ (k + 1) % n = 0 := by
  rw [Nat.div_mod_unique hn, Nat.mul_succ]
  have hdiv := Nat.mod_add_div k n
  omega

/-- The index of a number is taken to the index of the next number, and the last index to the
first. -/
theorem advance?_index {box : Box} (h : box.start.length = box.count.length) {k : Nat}
    (hk : k < box.count.volume) :
    box.advance? box.start.length (box.index k) =
      some (if k + 1 < box.count.volume then (box.index (k + 1), true)
        else (box.start, false)) := by
  obtain ⟨start, count⟩ := box
  simp only at h hk ⊢
  -- on the axes, where the number of an index is that on the axes inside and a quotient outside
  induction count generalizing start k with
  | nil =>
    rw [Shape.volume_nil] at hk ⊢
    rw [List.length_eq_zero_iff.mp h, if_neg (by omega)]
    rfl
  | cons n count ih =>
    cases start with
    | nil => cases h
    | cons s start =>
      rw [Shape.volume_cons] at hk ⊢
      have hpos : 0 < Shape.volume count := Nat.pos_of_ne_zero fun h0 => by simp [h0] at hk
      have hzero : (Box.mk start count).index 0 = start := index_zero (Nat.succ.inj h)
      have hstep := ih start (Nat.succ.inj h) (Nat.mod_lt k hpos)
      have houter : ∀ j, j < n * Shape.volume count ↔ j / Shape.volume count < n :=
        fun j => (Nat.div_lt_iff_lt_mul hpos).symm
      have hindex : ∀ j, (Box.mk (s :: start) (n :: count)).index j =
          (s + j / Shape.volume count) :: (Box.mk start count).index (j % Shape.volume count) :=
        fun _ => rfl
      rw [hindex, List.length_cons, advance?_cons, hstep]
      by_cases hinner : k % Shape.volume count + 1 < Shape.volume count
      · -- the outermost axis stays where it is
        obtain ⟨hnext, hrest⟩ := succ_div_mod_of_lt hinner
        have hlt : k + 1 < n * Shape.volume count := by
          rw [houter, hnext, ← houter]
          exact hk
        rw [if_pos hinner, if_pos hlt, hindex, hnext, hrest]
        rfl
      · -- the inner axes start again, and the outermost one goes on
        have hlast : k % Shape.volume count + 1 = Shape.volume count :=
          Nat.le_antisymm (Nat.mod_lt k hpos) (Nat.le_of_not_lt hinner)
        obtain ⟨hnext, hrest⟩ := succ_div_mod_of_eq hpos hlast
        have hfurther : k + 1 < n * Shape.volume count ↔
            s + (k / Shape.volume count + 1) < s + n := by
          rw [houter, hnext]
          omega
        rw [if_neg hinner, hindex, hnext, hrest, hzero, Option.map_some, Nat.add_assoc]
        by_cases hmore : k + 1 < n * Shape.volume count
        · simp only [Bool.false_eq_true, if_false, if_pos hmore, if_pos (hfurther.mp hmore)]
        · simp only [Bool.false_eq_true, if_false, if_neg hmore, if_neg (mt hfurther.mpr hmore)]

/-! ## The walk -/

/-- The indices that a walk visits from one of them on until it ends. -/
inductive Visits (box : Box) : Index → List Index → Prop
  | last {index next : Index} (hnext : box.advance? box.start.length index = some (next, false)) :
      Visits box index [index]
  | more {index next : Index} {rest : List Index}
      (hnext : box.advance? box.start.length index = some (next, true))
      (hrest : Visits box next rest) : Visits box index (index :: rest)

/-- The indices that a walk over the whole box visits until it ends; a box with an empty axis has
none. -/
def IsWalk (box : Box) (visited : List Index) : Prop :=
  if box.count.contains 0 then visited = [] else box.Visits box.start visited

/-- From an index on there is one walk at most. -/
theorem Visits.unique {box : Box} {index : Index} {visited visited' : List Index}
    (h : box.Visits index visited) (h' : box.Visits index visited') : visited = visited' := by
  induction h generalizing visited' with
  | last hnext =>
    -- `advance?` has one answer, so both walks end or both go on
    cases h' with
    | last _ => rfl
    | more hnext' _ => simp [hnext] at hnext'
  | more hnext _ ih =>
    cases h' with
    | last hnext' => simp [hnext] at hnext'
    | more hnext' hrest' =>
      rw [hnext, Option.some_inj, Prod.mk.injEq] at hnext'
      obtain ⟨rfl, -⟩ := hnext'
      rw [ih hrest']

/-- From the index of a number on, the indices are visited in the order of their numbers. -/
theorem visits_index {box : Box} (h : box.start.length = box.count.length) (left : Nat) {k : Nat}
    (hk : k + (left + 1) = box.count.volume) :
    box.Visits (box.index k) ((List.range' k (left + 1)).map box.index) := by
  -- on how many indices come behind number `k`
  induction left generalizing k with
  | zero =>
    have hlast := advance?_index h (k := k) (by omega)
    rw [if_neg (by omega)] at hlast
    exact .last hlast
  | succ left ih =>
    have hnext := advance?_index h (k := k) (by omega)
    rw [if_pos (by omega)] at hnext
    rw [List.range'_succ, List.map_cons]
    exact .more hnext (ih (by omega))

/-- The walk over a box ends, and it visits the indices of the box in their order. -/
theorem isWalk_iff {box : Box} (h : box.start.length = box.count.length)
    {visited : List Index} : box.IsWalk visited ↔ visited = box.indices := by
  rw [IsWalk]
  by_cases hzero : 0 ∈ box.count
  · rw [if_pos (by simpa using hzero), indices_eq_nil hzero]
  · have hpos := Shape.volume_pos hzero
    have hwalk := visits_index h (box.count.volume - 1) (k := 0) (by omega)
    rw [index_zero h, Nat.sub_add_cancel hpos, ← List.range_eq_range'] at hwalk
    rw [if_neg (by simpa using hzero)]
    exact ⟨fun hvisits => hvisits.unique hwalk, fun heq => heq ▸ hwalk⟩

/-- The indices of a box are visited one place after the other: the number of each of them, counted
from the first index on, is its place in the walk. -/
theorem linear_of_getElem? {box : Box} (h : box.start.length = box.count.length) {k : Nat}
    {index : Index} (hindex : box.indices[k]? = some index) :
    box.count.linear (List.zipWith (· - ·) index box.start) = k := by
  rw [indices, List.getElem?_map, Option.map_eq_some_iff] at hindex
  obtain ⟨j, hj, rfl⟩ := hindex
  obtain ⟨hk, rfl⟩ := List.getElem?_eq_some_iff.mp hj
  rw [List.length_range] at hk
  rw [List.getElem_range]
  -- without the start only the shift is left, and its number is `k`
  have hshift : List.zipWith (· - ·) (box.index k) box.start = box.count.unrank k := by
    apply List.ext_getElem
    · simp [index, h]
    · simp [index]
  rw [hshift, Shape.linear_eq_offset (Shape.length_unrank box.count k), Shape.offset_unrank hk]

/-- A walk over a box whose first index and extent have one rank ends. It visits the indices from
the first one up to the end of the box, none of them twice, in lexicographic order, so that each has
its place in the walk as its number. A box with an empty axis is not visited at all, and one of rank
zero once. The numbers of the indices of a shape are those below the product of its axes, each of
them once. -/
theorem walk_in_order :
    (∀ box : Box, box.start.length = box.count.length →
      (∀ visited, box.IsWalk visited ↔ visited = box.indices) ∧
      (∀ index, index ∈ box.indices ↔
        List.Forall₂ (· ≤ ·) box.start index ∧ List.Forall₂ (· < ·) index box.stop) ∧
      box.indices.Nodup ∧ box.indices.Pairwise (· < ·) ∧
      (∀ (k : Nat) (index : Index), box.indices[k]? = some index →
        box.count.linear (List.zipWith (· - ·) index box.start) = k) ∧
      (0 ∈ box.count → box.indices = []) ∧ (box.count = [] → box.indices = [box.start])) ∧
    ∀ shape : Shape, Set.BijOn shape.linear {index | shape.Within index} {k | k < shape.prod} := by
  refine ⟨fun box h => ?_, Shape.bijOn_linear⟩
  refine ⟨fun visited => isWalk_iff h, fun index => mem_indices_iff_between h, nodup_indices h,
    pairwise_lt_indices h, fun k index => linear_of_getElem? h, indices_eq_nil, fun hcount => ?_⟩
  obtain ⟨start, count⟩ := box
  obtain rfl : count = [] := hcount
  obtain rfl : start = [] := List.length_eq_zero_iff.mp h
  rfl

/-- Two rows of three columns behind the first row and the first two columns: the fifth index that
is visited is in the middle of the second row. -/
theorem walk_in_order_two_by_three :
    (Box.mk [1, 2] [2, 3]).start.length = (Box.mk [1, 2] [2, 3]).count.length ∧
    (Box.mk [1, 2] [2, 3]).IsWalk [[1, 2], [1, 3], [1, 4], [2, 2], [2, 3], [2, 4]] ∧
    (Box.mk [1, 2] [2, 3]).indices[4]? = some [2, 3] ∧ Shape.linear [2, 3] [1, 1] = 4 ∧
    0 ∈ (Box.mk [5, 5] [0, 3]).count ∧ (Box.mk [5, 5] [0, 3]).indices = [] ∧
    (Box.mk [] []).indices = [[]] := by
  have hrank : (Box.mk [1, 2] [2, 3]).start.length = (Box.mk [1, 2] [2, 3]).count.length := rfl
  obtain ⟨hwalk, -, -, -, hnumber, -⟩ := walk_in_order.1 _ hrank
  obtain ⟨-, -, -, -, -, hempty, -⟩ := walk_in_order.1 ⟨[5, 5], [0, 3]⟩ rfl
  obtain ⟨-, -, -, -, -, -, honce⟩ := walk_in_order.1 ⟨[], []⟩ rfl
  have hfifth : (Box.mk [1, 2] [2, 3]).indices[4]? = some [2, 3] := by decide
  have hzero : 0 ∈ (Box.mk [5, 5] [0, 3]).count := by decide
  exact ⟨hrank, (hwalk _).mpr (by decide), hfifth, hnumber 4 _ hfifth, hzero, hempty hzero,
    honce rfl⟩

/-! ## Acting on every index -/

variable {σ : Type}

/-- Acts on the index and those behind it, at most `fuel` times. -/
def walk? (box : Box) (visit : σ → Index → Option σ) : Nat → Index → σ → Option σ
  | 0, _, _ => none
  | fuel + 1, index, state => do
    let state ← visit state index
    let (next, more) ← box.advance? box.start.length index
    if more then box.walk? visit fuel next state else pure state

/-- Acts on every index of the box, one after the other. -/
def forEach? (box : Box) (visit : σ → Index → Option σ) (state : σ) : Option σ :=
  if box.count.contains 0 then some state
  else box.walk? visit box.count.volume box.start state

/-- With enough fuel, the indices that are visited are acted on. -/
theorem Visits.walk?_eq {box : Box} {index : Index} {visited : List Index}
    (h : box.Visits index visited) (visit : σ → Index → Option σ) {fuel : Nat}
    (hfuel : visited.length ≤ fuel) (state : σ) :
    box.walk? visit fuel index state = visited.foldlM visit state := by
  -- along the walk, with fuel for every index that is visited
  induction h generalizing fuel state with
  | last hnext =>
    obtain ⟨fuel, rfl⟩ := Nat.exists_eq_add_of_le' hfuel
    simp [walk?, hnext]
  | more hnext _ ih =>
    obtain ⟨fuel, rfl⟩ := Nat.exists_eq_add_of_le' (Nat.le_trans (Nat.succ_pos _) hfuel)
    simp only [walk?, hnext, List.foldlM_cons]
    exact bind_congr fun state => ih (Nat.le_of_succ_le_succ hfuel) state

/-- The indices of a box are acted on in row-major order, and no axis is out of range. -/
theorem forEach?_eq_foldlM {box : Box} (h : box.start.length = box.count.length)
    (visit : σ → Index → Option σ) (state : σ) :
    box.forEach? visit state = box.indices.foldlM visit state := by
  have hwalk := (isWalk_iff h).mpr (Eq.refl box.indices)
  rw [IsWalk] at hwalk
  rw [forEach?]
  split
  -- an empty box is not walked at all
  · next hzero =>
    rw [if_pos hzero] at hwalk
    rw [hwalk]
    rfl
  · next hzero =>
    rw [if_neg hzero] at hwalk
    exact hwalk.walk?_eq visit (Nat.le_of_eq (length_indices box)) state

end Box

end GroupFlattening
