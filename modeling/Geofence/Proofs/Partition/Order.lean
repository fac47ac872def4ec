/-
# Geofence.Proofs.Partition.Order -- the ranges of one table

The ranges collected for a prefix are checked before they become a table: each
must start behind the end of the one before, and then they are in order
altogether (`checkOrder_eq_ok_iff`).  The rows of the table are the rows of the
ranges, one range after the other (`encodeTable_eq`).
-/
import Geofence.Proofs.Partition.Collect

namespace Geofence

set_option autoImplicit false

namespace CellRange

variable {l : Nat} {r s : CellRange}

theorem start_lt_stopKey (placed : Cell.depth r.start = l) : r.start < r.stopKey := by
  have fits := r.fits_arc placed
  have inside := fits.first_lt_past.trans_le fits.past_le_count
  have own := (contains_nth placed inside).2 ⟨le_rfl, fits.first_lt_past⟩
  simp only [contains, Bool.and_eq_true, decide_eq_true_eq] at own
  rw [← r.start_eq_nth placed] at own
  exact own.2

theorem before_iff (placed : Cell.depth r.start = l) (other : Cell.depth s.start = l) :
    (¬s.start < r.start ∧ r.overlaps s = false) ↔ r.arc.Before s.arc := by
  have own := start_lt_stopKey placed
  have next := start_lt_stopKey other
  rw [← stopKey_le_start_iff placed other]
  simp only [overlaps, Bool.and_eq_false_iff, decide_eq_false_iff_not]
  omega

end CellRange

namespace Partition

variable {f : Format} {ranges : List CellRange} {p : Nat}

theorem nonempty_of_atLevel (atLevel : ∀ r ∈ ranges, AtLevel f r) :
    ∀ a ∈ ranges.map CellRange.arc, a.first < a.past := by
  intro a member
  obtain ⟨r, r_member, rfl⟩ := List.mem_map.1 member
  exact (r.fits_arc (atLevel r r_member)).first_lt_past

/-- The check looks at neighbours only; that suffices. -/
theorem checkOrder_eq_ok_iff (atLevel : ∀ r ∈ ranges, AtLevel f r) :
    checkOrder ranges = .ok () ↔ (ranges.map CellRange.arc).Pairwise Arc.Before := by
  rw [← Arc.isChain_iff_pairwise (nonempty_of_atLevel atLevel)]
  fun_induction checkOrder ranges with
  | case1 r s rest back =>
      have before_iff := CellRange.before_iff (atLevel r (by simp)) (atLevel s (by simp))
      simp only [reduceCtorEq, List.map_cons, List.isChain_cons_cons, false_iff, not_and]
      exact fun before => absurd back (before_iff.2 before).1
  | case2 r s rest forward meets =>
      have before_iff := CellRange.before_iff (atLevel r (by simp)) (atLevel s (by simp))
      simp only [reduceCtorEq, List.map_cons, List.isChain_cons_cons, false_iff, not_and]
      exact fun before => absurd meets (by simp [(before_iff.2 before).2])
  | case3 r s rest forward apart ih =>
      have before_iff := CellRange.before_iff (atLevel r (by simp)) (atLevel s (by simp))
      have before := before_iff.1 ⟨forward, by simpa using apart⟩
      rw [ih fun x later => atLevel x (List.mem_cons_of_mem _ later)]
      simp only [List.map_cons, List.isChain_cons_cons, before, true_and]
  | case4 ranges short =>
      match ranges with
      | [] => simp
      | [r] => simp
      | r :: s :: rest => exact absurd rfl (short r s rest)

/-- The check is refused for two neighbours that are out of order or overlap. -/
theorem checkOrder_refused {fault : Fault} (refused : checkOrder ranges = .error fault) :
    ∃ later earlier, fault = .outOfOrder later earlier ∨ fault = .overlapping earlier later := by
  fun_induction checkOrder ranges with
  | case1 r s => exact ⟨s.toSpan, r.toSpan, Or.inl (Except.error.inj refused).symm⟩
  | case2 r s => exact ⟨s.toSpan, r.toSpan, Or.inr (Except.error.inj refused).symm⟩
  | case3 _ _ _ _ _ ih => exact ih refused
  | case4 => contradiction

theorem mapM_cutToRows_eq (inside : ∀ r ∈ ranges, InPrefix f p r) :
    ∃ rows : List (List CellRange), ranges.mapM (cutToRows f) = .ok rows ∧
      (∀ r ∈ rows.flatten, AtLevel f r) ∧
      rows.flatten.map CellRange.arc = (ranges.map CellRange.arc).flatMap (rowsOf f) := by
  obtain ⟨rows, made, placed, arcs⟩ :
      ∃ rows, ranges.mapM (cutToRows f) = .ok rows ∧ (∀ row ∈ rows, ∀ s ∈ row, AtLevel f s) ∧
        rows.map (List.map CellRange.arc) = ranges.map fun r => rowsOf f r.arc :=
    Outcome.exists_mapM_eq_ok fun r member =>
      cutToRows_eq (inside r member).atLevel (inside r member).past_le
  refine ⟨rows, made, ?_, ?_⟩
  · intro r member
    obtain ⟨row, held, among⟩ := List.mem_flatten.1 member
    exact placed row held r among
  · rw [List.map_flatten, arcs, List.flatMap_map]
    rfl

theorem encodeTable_nil (f : Format) (p : Int) : encodeTable f p [] = .ok [] :=
  rfl

theorem encodeTable_eq (inside : ∀ r ∈ ranges, InPrefix f p r) (nonempty : ranges ≠ [])
    (sorted : (ranges.map CellRange.arc).Pairwise Arc.Before) :
    ∃ rows : List CellRange, encodeTable f p ranges = Block.encode f p rows ∧
      (∀ r ∈ rows, AtLevel f r) ∧
      rows.map CellRange.arc = (ranges.map CellRange.arc).flatMap (rowsOf f) := by
  obtain ⟨rows, made, placed, arcs⟩ := mapM_cutToRows_eq inside
  have ordered := (checkOrder_eq_ok_iff fun r member => (inside r member).atLevel).2 sorted
  refine ⟨rows.flatten, ?_, placed, arcs⟩
  rw [encodeTable, if_neg (by simpa using nonempty), ordered, Outcome.ok_bind, made,
    Outcome.ok_bind]

/-- A table is made only of ranges in order. -/
theorem sorted_of_encodeTable {payload : List UInt8} (inside : ∀ r ∈ ranges, InPrefix f p r)
    (made : encodeTable f p ranges = .ok payload) :
    (ranges.map CellRange.arc).Pairwise Arc.Before := by
  rw [← checkOrder_eq_ok_iff fun r member => (inside r member).atLevel]
  cases ranges with
  | nil => rfl
  | cons r rs =>
      rw [encodeTable, if_neg (by simp)] at made
      obtain ⟨_, ordered, -⟩ := Outcome.bind_eq_ok.1 made
      exact ordered

/-- A table is refused for ranges that are not in order; otherwise it is for the rows to say. -/
theorem encodeTable_refused {fault : Fault} (inside : ∀ r ∈ ranges, InPrefix f p r)
    (refused : encodeTable f p ranges = .error fault) :
    (∃ later earlier, fault = .outOfOrder later earlier ∨ fault = .overlapping earlier later) ∧
        ¬(ranges.map CellRange.arc).Pairwise Arc.Before ∨
      (ranges.map CellRange.arc).Pairwise Arc.Before ∧
        ∃ rows : List CellRange, Block.encode f p rows = .error fault ∧
          (∀ r ∈ rows, AtLevel f r) ∧
          rows.map CellRange.arc = (ranges.map CellRange.arc).flatMap (rowsOf f) := by
  by_cases sorted : (ranges.map CellRange.arc).Pairwise Arc.Before
  · have nonempty : ranges ≠ [] := by
      rintro rfl
      contradiction
    obtain ⟨rows, same, placed, arcs⟩ := encodeTable_eq inside nonempty sorted
    exact Or.inr ⟨sorted, rows, same ▸ refused, placed, arcs⟩
  · have unordered := mt (checkOrder_eq_ok_iff fun r member => (inside r member).atLevel).1 sorted
    refine Or.inl ⟨?_, sorted⟩
    rw [encodeTable] at refused
    split at refused
    · contradiction
    · cases checked : checkOrder ranges with
      | ok u => exact absurd checked unordered
      | error cause =>
          rw [checked] at refused
          obtain rfl := Except.error.inj refused
          exact checkOrder_refused checked

end Partition

end Geofence
