import GroupFlattening.Provenance
import GroupFlattening.Proofs.Dataset.WellFormed
import GroupFlattening.Reference.Rule
import Mathlib.Data.List.Nodup

/-!
# Provenance with Distinct Records

What the provenance of objects says where their flat names are distinct: it is a bijection as soon
as their paths are distinct too, and it leads from the flat name of each of them to its path.
-/

namespace GroupFlattening

namespace Provenance

theorem isBijective_iff {p : Provenance} :
    p.isBijective = true ↔ (p.records.map (·.1)).Nodup ∧ (p.records.map (·.2)).Nodup := by
  simp [isBijective]

variable {α : Type} {entries : List α} {flat path : α → String} {p : Provenance}

/-- Objects with distinct flat names have a provenance that is a bijection, if no two of them have
the same path. -/
theorem isBijective_of_nodup (hrecords : p.records = entries.map fun e => (flat e, path e))
    (hflat : (entries.map flat).Nodup)
    (hpath : ∀ e ∈ entries, ∀ e' ∈ entries, path e = path e' → e = e') :
    p.isBijective = true := by
  rw [isBijective_iff, hrecords, List.map_map, List.map_map]
  refine ⟨hflat, ?_⟩
  exact List.Nodup.map_on (fun e he e' he' heq => hpath e he e' he' heq) hflat.of_map

/-- Where flat names are distinct, each leads to the path of its object. -/
theorem path?_of_mem (hrecords : p.records = entries.map fun e => (flat e, path e))
    (hflat : (entries.map flat).Nodup) {e : α} (he : e ∈ entries) :
    p.path? (flat e) = some (path e) := by
  have hnodup : (p.records.map (·.1)).Nodup := by
    rw [hrecords, List.map_map]
    exact hflat
  have hmem : (flat e, path e) ∈ p.records := by
    rw [hrecords]
    exact List.mem_map_of_mem (f := fun e => (flat e, path e)) he
  -- the flat names are distinct, so the record found is this one
  have hfind := Dataset.find?_eq_some_of_nodup hnodup hmem
  rw [path?, hfind]
  rfl

end Provenance

/-- The provenance of the objects of one kind. -/
def ProvenanceMaps.ofKind (maps : ProvenanceMaps) : ObjectKind → Provenance
  | .dim => maps.dimensions
  | .var => maps.vars

end GroupFlattening
