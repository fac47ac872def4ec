/-
# Geofence.Proofs.Range.Cells -- the cells of a range

The cells of a range are those whose numbers lie in its arc.  They are what a
walk from the start passes until it meets the stop (`passes_cells`), also where
the range wraps and the stop lies in front of the start, and they are what the
range contains (`mem_cells`).  Two ranges of one level overlap just when they
have a cell in common.  So the comparisons of ids, with `2 ^ 64` for a stop that
wraps, say of every range what the walk says (`predicates_match_walk`).
-/
import Geofence.Proofs.Cell.Passage
import Geofence.Proofs.Range.Join

namespace Geofence.CellRange

set_option autoImplicit false

def cells (r : CellRange) : List Cell :=
  (List.range' r.arc.first r.arc.length).map (Cell.nth (Cell.depth r.start).toNat)

variable {r s : CellRange} {c : Cell} {l : Nat}

theorem exists_placed (r : CellRange) : ∃ l : Nat, l ≤ 30 ∧ Cell.depth r.start = l := by
  obtain ⟨l, k, deep, -, start_eq⟩ := Cell.exists_nth_of_isValid r.start_valid
  exact ⟨l, deep, by rw [start_eq, Cell.depth_nth deep]⟩

theorem cells_eq (placed : Cell.depth r.start = l) :
    r.cells = (List.range' r.arc.first r.arc.length).map (Cell.nth l) := by
  rw [cells, placed, Int.toNat_natCast]

theorem passes_cells (r : CellRange) : Cell.Passes r.stop r.start r.cells := by
  obtain ⟨l, deep, placed⟩ := r.exists_placed
  have fits := r.fits_arc placed
  have nonempty := fits.first_lt_past
  have upper := fits.past_le_count
  have whole : r.arc.first + r.arc.length = r.arc.past := Nat.add_sub_cancel' nonempty.le
  have fewer : r.arc.length < Cell.count l := by
    have some_cells : 0 < 4 ^ l := by positivity
    rcases upper.lt_or_eq with below | last
    · omega
    · have := fits.lastFace_of_past_eq last
      omega
  have passes := Cell.passes_nth deep fewer (whole.trans_le upper) (nonempty.trans_le upper)
  rw [whole, ← r.stop_eq_stopAt placed, ← r.start_eq_nth placed] at passes
  rw [cells_eq placed, List.range'_eq_map_range, List.map_map]
  exact passes

theorem mem_cells : c ∈ r.cells ↔
    Cell.isValid c = true ∧ Cell.depth c = r.level ∧ r.contains c = true := by
  obtain ⟨l, deep, placed⟩ := r.exists_placed
  have fits := r.fits_arc placed
  have nonempty := fits.first_lt_past
  have whole : r.arc.first + r.arc.length = r.arc.past := Nat.add_sub_cancel' nonempty.le
  rw [cells_eq placed, level, placed, List.mem_map]
  constructor
  · rintro ⟨k, member, rfl⟩
    rw [List.mem_range'_1, whole] at member
    have inside : k < Cell.count l := member.2.trans_le fits.past_le_count
    exact ⟨Cell.isValid_nth deep inside, Cell.depth_nth deep k, (contains_nth placed inside).2 member⟩
  · rintro ⟨valid, depth_eq, held⟩
    obtain ⟨-, inside, numbered⟩ := Cell.nth_index valid depth_eq
    rw [← numbered, contains_nth placed inside, ← whole, ← List.mem_range'_1] at held
    exact ⟨_, held, numbered⟩

theorem cells_ne_nil (r : CellRange) : r.cells ≠ [] := by
  obtain ⟨l, -, placed⟩ := r.exists_placed
  have nonempty := (r.fits_arc placed).first_lt_past
  have some_cells : r.arc.length ≠ 0 := (Nat.sub_pos_of_lt nonempty).ne'
  simpa [cells] using some_cells

/-- The cells of a range stand in the order of their ids, with no cell twice. -/
theorem ascending_cells (r : CellRange) : r.cells.Pairwise (· < ·) := by
  rw [cells, List.pairwise_map]
  have numbers : (List.range' r.arc.first r.arc.length).Pairwise (· < ·) := List.pairwise_lt_range'
  exact numbers.imp fun less => Cell.nth_lt_nth.2 less

/-! ## Overlap -/

theorem overlaps_comm (r s : CellRange) : r.overlaps s = s.overlaps r :=
  Bool.and_comm _ _

theorem overlaps_iff_arcs (placed : Cell.depth r.start = l) (other : Cell.depth s.start = l) :
    r.overlaps s = true ↔ r.arc.first < s.arc.past ∧ s.arc.first < r.arc.past := by
  simp only [overlaps, Bool.and_eq_true, decide_eq_true_eq]
  rw [← not_le, stopKey_le_start_iff other placed, ← not_le, stopKey_le_start_iff placed other,
    Arc.Before, Arc.Before, not_le, not_le]

/-- Ranges of one level overlap when a cell is in both. -/
theorem overlaps_iff_exists_mem (same : r.level = s.level) :
    r.overlaps s = true ↔ ∃ c, c ∈ r.cells ∧ c ∈ s.cells := by
  obtain ⟨l, -, placed⟩ := r.exists_placed
  have other : Cell.depth s.start = l := same.symm.trans placed
  have r_nonempty := (r.fits_arc placed).first_lt_past
  have s_nonempty := (s.fits_arc other).first_lt_past
  rw [overlaps_iff_arcs placed other, cells_eq placed, cells_eq other]
  simp only [List.mem_map, List.mem_range'_1, Arc.length]
  constructor
  · -- the later of the two starts is in both
    rintro ⟨r_first, s_first⟩
    refine ⟨Cell.nth l (max r.arc.first s.arc.first), ⟨_, ?_, rfl⟩, ⟨_, ?_, rfl⟩⟩ <;> omega
  · rintro ⟨_, ⟨j, j_bounds, rfl⟩, ⟨k, k_bounds, numbered⟩⟩
    rw [Cell.nth_inj] at numbered
    omega

/-- Ranges and walks agree. Three numbers that make a range are two cells and a value, and a walk
from the first cell meets the second after some steps; it passes, in the order of their ids, the
cells of the level that the range contains. Overlap of two ranges of one level does not depend on
their order, and holds when there is a cell of the level that both contain. -/
theorem predicates_match_walk :
    (∀ start stop value r, of start stop value = .ok r →
      ∃ cells, Cell.Passes stop start cells ∧ cells ≠ [] ∧ cells.Pairwise (· < ·) ∧
        ∀ c, c ∈ cells ↔
          Cell.isValid c = true ∧ Cell.depth c = r.level ∧ r.contains c = true) ∧
    ∀ r s : CellRange, r.level = s.level →
      r.overlaps s = s.overlaps r ∧
      (r.overlaps s = true ↔ ∃ c, Cell.isValid c = true ∧ Cell.depth c = r.level ∧
        r.contains c = true ∧ s.contains c = true) := by
  constructor
  · intro start stop value r made
    have spelled : r.toSpan = { start, stop, value } := toSpan_of_ofSpan made
    have passes := r.passes_cells
    rw [show r.start = start from congrArg Span.start spelled,
      show r.stop = stop from congrArg Span.stop spelled] at passes
    exact ⟨r.cells, passes, r.cells_ne_nil, r.ascending_cells, fun c => mem_cells⟩
  · intro r s same
    refine ⟨overlaps_comm r s, (overlaps_iff_exists_mem same).trans (exists_congr fun c => ?_)⟩
    rw [mem_cells, mem_cells, ← same]
    tauto

/-- At level 1 the range of the last two cells of face 5 ends on the first cell of all, and the walk
to there passes the last cell of face 5, but no cell of face 0. It overlaps a range that goes from
face 4 to the first of the two. -/
theorem predicates_match_walk_wrapped : ∃ r s,
    of (Cell.nth 1 22) (Cell.nth 1 0) 7 = .ok r ∧ of (Cell.nth 1 17) (Cell.nth 1 23) 0 = .ok s ∧
    (∃ cells, Cell.Passes (Cell.nth 1 0) (Cell.nth 1 22) cells ∧ Cell.nth 1 23 ∈ cells ∧
      Cell.nth 1 0 ∉ cells) ∧
    r.overlaps s = true ∧ s.overlaps r = true := by
  obtain ⟨walks, overlap⟩ := predicates_match_walk
  have last_two : Arc.Fits 1 ⟨22, 24, 7⟩ := ⟨by decide, by decide, by decide, by decide⟩
  have two_faces : Arc.Fits 1 ⟨17, 23, 0⟩ := ⟨by decide, by decide, by decide, by decide⟩
  obtain ⟨r, r_made, r_placed, r_arc⟩ := exists_of_arc (by decide) last_two
  obtain ⟨s, s_made, s_placed, s_arc⟩ := exists_of_arc (by decide) two_faces
  have r_holds {k : Nat} (inside : k < 24) : r.contains (Cell.nth 1 k) = true ↔ 22 ≤ k := by
    rw [contains_nth r_placed inside, r_arc]
    exact and_iff_left inside
  have s_holds : s.contains (Cell.nth 1 22) = true := by
    rw [contains_nth s_placed (by decide), s_arc]
    decide
  obtain ⟨cells, passes, -, -, mem_iff⟩ := walks _ _ _ r r_made
  obtain ⟨comm, meet_iff⟩ := overlap r s (r_placed.trans s_placed.symm)
  have meet : r.overlaps s = true :=
    meet_iff.2 ⟨Cell.nth 1 22, by decide +kernel, by rw [level, r_placed]; decide +kernel,
      (r_holds (by decide)).2 (by decide), s_holds⟩
  refine ⟨r, s, r_made, s_made, ⟨cells, passes, ?_, ?_⟩, meet, comm ▸ meet⟩
  · exact (mem_iff _).2 ⟨by decide +kernel, by rw [level, r_placed]; decide +kernel,
      (r_holds (by decide)).2 (by decide)⟩
  · intro member
    have held := (r_holds (by decide)).1 ((mem_iff _).1 member).2.2
    omega

end Geofence.CellRange
