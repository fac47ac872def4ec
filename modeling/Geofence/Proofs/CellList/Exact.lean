/-
# Geofence.Proofs.CellList.Exact -- merging is exact

The ranges of a list of cells of one level, in the order of their ids, give back
the list: the cells of one range behind those of the other, each with the value
of its range, are the entries that were merged.  The ranges are in order, and no
two that touch have one value.  They can be made just when no value is negative
and the list does not overrun (`toRanges_exact`).
-/
import Geofence.Proofs.CellList.Merge
import Geofence.Proofs.Range.Cells

namespace Geofence

set_option autoImplicit false

/-- The cells of a range, each with the value of the range. -/
def CellRange.listing (r : CellRange) : List Listed :=
  r.cells.map fun c => { cell := c, value := r.value }

namespace CellList

variable {l : Nat} {listed : List Listed} {ranges : List CellRange}

/-! ## Values -/

theorem value_nonneg_of_of {start stop value : Int} {r : CellRange}
    (made : CellRange.of start stop value = .ok r) : 0 ≤ value := by
  have value_eq : r.value = value := congrArg Span.value (CellRange.toSpan_of_ofSpan made)
  exact value_eq ▸ r.value_nonneg

theorem value_nonneg_of_rangesFrom {level value : Int} {start stop : Cell} {rest : List Listed}
    (made : rangesFrom level start stop value rest = .ok ranges) :
    0 ≤ value ∧ ∀ x ∈ rest, 0 ≤ x.value := by
  induction rest generalizing start stop value ranges with
  | nil =>
      rw [rangesFrom] at made
      obtain ⟨r, first_made, -⟩ := Outcome.bind_eq_ok.1 made
      exact ⟨value_nonneg_of_of first_made, by simp⟩
  | cons x rest ih =>
      rw [rangesFrom] at made
      obtain ⟨m, -, made⟩ := Outcome.bind_eq_ok.1 made
      by_cases placed : m ≠ level
      · rw [if_pos placed] at made
        contradiction
      · rw [if_neg placed] at made
        by_cases parts : stop ≠ x.cell ∨ x.value ≠ value
        · rw [if_pos parts] at made
          obtain ⟨r, first_made, made⟩ := Outcome.bind_eq_ok.1 made
          obtain ⟨next, -, made⟩ := Outcome.bind_eq_ok.1 made
          obtain ⟨others, others_made, -⟩ := Outcome.bind_eq_ok.1 made
          exact ⟨value_nonneg_of_of first_made, List.forall_mem_cons.2 (ih others_made)⟩
        · rw [if_neg parts] at made
          obtain ⟨next, -, made⟩ := Outcome.bind_eq_ok.1 made
          have same : x.value = value := not_not.1 fun apart => parts (Or.inr apart)
          obtain ⟨own, others⟩ := ih made
          exact ⟨own, List.forall_mem_cons.2 ⟨same ▸ own, others⟩⟩

theorem value_nonneg_of_toRanges {level : Int} (made : toRanges level listed = .ok ranges) :
    ∀ x ∈ listed, 0 ≤ x.value := by
  cases listed with
  | nil => simp
  | cons x rest =>
      rw [toRanges] at made
      obtain ⟨m, -, made⟩ := Outcome.bind_eq_ok.1 made
      by_cases placed : m ≠ level
      · rw [if_pos placed] at made
        contradiction
      · rw [if_neg placed] at made
        obtain ⟨stop, -, made⟩ := Outcome.bind_eq_ok.1 made
        exact List.forall_mem_cons.2 (value_nonneg_of_rangesFrom made)

/-! ## The cells of the ranges -/

def entry (l : Nat) (p : Nat × Int) : Listed where
  cell := Cell.nth l p.1
  value := p.2

theorem listing_eq {r : CellRange} (placed : Cell.depth r.start = l) :
    r.listing = r.arc.listed.map (entry l) := by
  rw [CellRange.listing, CellRange.cells_eq placed, Arc.listed, List.map_map, List.map_map]
  rfl

theorem listed_arc {x : Listed} (valid : Cell.isValid x.cell = true)
    (placed : Cell.depth x.cell = l) : x.arc.listed.map (entry l) = [x] := by
  have single : x.arc.length = 1 := Nat.add_sub_cancel_left _ _
  rw [Arc.listed, single, List.range'_one, List.map_singleton, List.map_singleton, entry]
  simp only [Listed.arc, (Cell.nth_index valid placed).2.2]

/-- The ranges of the joined arcs give back the list. -/
theorem flatMap_listing
    (valid : ∀ x ∈ listed, Cell.isValid x.cell = true ∧ Cell.depth x.cell = l)
    (placed : ∀ r ∈ ranges, Cell.depth r.start = l)
    (arcs : ranges.map CellRange.arc = Arc.joined (listed.map Listed.arc)) :
    ranges.flatMap CellRange.listing = listed := by
  calc ranges.flatMap CellRange.listing
      = ranges.flatMap (fun r => r.arc.listed.map (entry l)) :=
        List.flatMap_congr fun r member => listing_eq (placed r member)
    _ = ((ranges.map CellRange.arc).flatMap Arc.listed).map (entry l) := by
        rw [List.flatMap_map, List.map_flatMap]
    _ = ((listed.map Listed.arc).flatMap Arc.listed).map (entry l) := by
        rw [arcs, Arc.flatMap_listed_joined (nonempty_arcs listed)]
    _ = listed.flatMap (fun x => x.arc.listed.map (entry l)) := by
        rw [List.flatMap_map, List.map_flatMap]
    _ = listed.flatMap (fun x => [x]) :=
        List.flatMap_congr fun x member => listed_arc (valid x member).1 (valid x member).2
    _ = listed := List.flatMap_singleton' listed

/-! ## Merging -/

theorem normal_of_valid
    (valid : ∀ x ∈ listed, Cell.isValid x.cell = true ∧ Cell.depth x.cell = l)
    (ascending : listed.Pairwise fun x y => x.cell < y.cell)
    (value_nonneg : ∀ x ∈ listed, 0 ≤ x.value) : Normal l listed where
  placed := fun x member => by
    obtain ⟨-, inside, numbered⟩ := Cell.nth_index (valid x member).1 (valid x member).2
    exact ⟨_, inside, numbered.symm⟩
  ascending := ascending
  value_nonneg := value_nonneg

theorem apart_ranges (deep : l ≤ 30) (normal : Normal l listed)
    (placed : ∀ r ∈ ranges, Cell.depth r.start = l)
    (arcs : ranges.map CellRange.arc = Arc.joined (listed.map Listed.arc)) :
    ranges.Pairwise fun r s => r.stopKey ≤ s.start ∧ (r.stop = s.start → r.value ≠ s.value) := by
  have apart := Arc.apart_joined (ordered_arcs deep normal) (nonempty_arcs listed)
  rw [← arcs, List.pairwise_map] at apart
  refine apart.imp_of_mem fun {r s} r_member s_member rest => ?_
  have r_placed := placed r r_member
  have s_placed := placed s s_member
  obtain ⟨before, untouched⟩ := rest
  refine ⟨(CellRange.stopKey_le_start_iff r_placed s_placed).2 before, ?_⟩
  intro touch same
  refine untouched ⟨?_, same⟩
  have s_fits := s.fits_arc s_placed
  have inside : r.arc.past < Cell.count l :=
    lt_of_le_of_lt before (s_fits.first_lt_past.trans_le s_fits.past_le_count)
  rwa [r.stop_eq_stopAt r_placed, Cell.stopAt_of_lt inside, s.start_eq_nth s_placed,
    Cell.nth_inj] at touch

/-- Cells of one level in the order of their ids are merged just when no value is negative and the
list does not overrun; a list that overruns is refused as a range that does not run forward. The
ranges pass the cells of the list, with their values and in order; each ends before the next
starts, or on its start with another value. -/
theorem toRanges_exact (deep : l ≤ 30)
    (valid : ∀ x ∈ listed, Cell.isValid x.cell = true ∧ Cell.depth x.cell = l)
    (ascending : listed.Pairwise fun x y => x.cell < y.cell) :
    ((∃ ranges, toRanges l listed = .ok ranges) ↔
      (∀ x ∈ listed, 0 ≤ x.value) ∧ ¬Overruns l listed) ∧
    ((∀ x ∈ listed, 0 ≤ x.value) → Overruns l listed →
      ∃ span, toRanges l listed = .error (.startNotBelowStop span)) ∧
    ∀ ranges, toRanges l listed = .ok ranges →
      (∀ r ∈ ranges, Cell.Passes r.stop r.start r.cells) ∧
      ranges.flatMap CellRange.listing = listed ∧
      ranges.Pairwise fun r s =>
        r.stopKey ≤ s.start ∧ (r.stop = s.start → r.value ≠ s.value) := by
  refine ⟨?_, ?_, ?_⟩
  · constructor
    · rintro ⟨ranges, made⟩
      have value_nonneg := value_nonneg_of_toRanges made
      have normal := normal_of_valid valid ascending value_nonneg
      exact ⟨value_nonneg, (merged_of_toRanges deep normal made).1⟩
    · rintro ⟨value_nonneg, within⟩
      have normal := normal_of_valid valid ascending value_nonneg
      obtain ⟨ranges, made, -⟩ := exists_toRanges deep normal within
      exact ⟨ranges, made⟩
  · intro value_nonneg overruns
    exact toRanges_refused deep (normal_of_valid valid ascending value_nonneg) overruns
  · intro ranges made
    have normal := normal_of_valid valid ascending (value_nonneg_of_toRanges made)
    have within := (merged_of_toRanges deep normal made).1
    obtain ⟨own, own_made, placed, arcs⟩ := exists_toRanges deep normal within
    obtain rfl := Except.ok.inj (own_made.symm.trans made)
    exact ⟨fun r _ => r.passes_cells, flatMap_listing valid placed arcs,
      apart_ranges deep normal placed arcs⟩

/-- Cells of level 1: one alone, two with one value, one that follows with another, and the last
two of face 5. -/
def scattered : List Listed :=
  [{ cell := Cell.nth 1 3, value := 7 }, { cell := Cell.nth 1 5, value := 1 },
    { cell := Cell.nth 1 6, value := 1 }, { cell := Cell.nth 1 7, value := 2 },
    { cell := Cell.nth 1 22, value := 2 }, { cell := Cell.nth 1 23, value := 2 }]

/-- They are merged into four ranges, of which the last wraps. -/
theorem toRanges_exact_scattered : ∃ ranges, toRanges 1 scattered = .ok ranges ∧
    ranges.map CellRange.toSpan =
      [{ start := Cell.nth 1 3, stop := Cell.nth 1 4, value := 7 },
        { start := Cell.nth 1 5, stop := Cell.nth 1 7, value := 1 },
        { start := Cell.nth 1 7, stop := Cell.nth 1 8, value := 2 },
        { start := Cell.nth 1 22, stop := Cell.nth 1 0, value := 2 }] ∧
    (∀ r ∈ ranges, Cell.Passes r.stop r.start r.cells) ∧
    ranges.flatMap CellRange.listing = scattered := by
  have within : ¬Overruns 1 scattered := by
    rintro ⟨v, all⟩
    have named := all 20 (by decide) (by decide)
    simp [scattered, Cell.nth_inj] at named
  obtain ⟨made_iff, -, each⟩ := @toRanges_exact 1 scattered (by decide) (by decide +kernel)
    (by decide +kernel)
  obtain ⟨ranges, made⟩ := made_iff.2 ⟨by decide, within⟩
  obtain ⟨passes, same, -⟩ := each ranges made
  refine ⟨ranges, made, ?_, passes, same⟩
  have spans : (toRanges 1 scattered).map (List.map CellRange.toSpan) = .ok
      [{ start := Cell.nth 1 3, stop := Cell.nth 1 4, value := 7 },
        { start := Cell.nth 1 5, stop := Cell.nth 1 7, value := 1 },
        { start := Cell.nth 1 7, stop := Cell.nth 1 8, value := 2 },
        { start := Cell.nth 1 22, stop := Cell.nth 1 0, value := 2 }] := by
    decide +kernel
  rw [show toRanges 1 scattered = .ok ranges from made] at spans
  exact Except.ok.inj spans

/-- Cells of level 1: one on face 0, and a run from the last cell of face 4 to the end of face 5. -/
def acrossFaces : List Listed :=
  { cell := Cell.nth 1 3, value := 7 } ::
    (List.range' 19 5).map fun k => { cell := Cell.nth 1 k, value := 1 }

/-- They are cells of one level in the order of their ids, with values, and are refused for the
run, which does not start on face 5. -/
theorem acrossFaces_refused :
    (∀ x ∈ acrossFaces, Cell.isValid x.cell = true ∧ Cell.depth x.cell = 1 ∧ 0 ≤ x.value) ∧
    (acrossFaces.Pairwise fun x y => x.cell < y.cell) ∧
    toRanges 1 acrossFaces = .error
      (.startNotBelowStop { start := Cell.nth 1 19, stop := Cell.nth 1 0, value := 1 }) := by
  decide +kernel

end CellList

end Geofence
