/-
# Geofence.Proofs.Partition.Stored -- tables and the pieces they hold

The table of a prefix is made of the rows of the ranges collected for it.  In
formats whose numbers fit four bytes it is made whenever these are in order
(`exists_encodeTable`), and once made it reads back as their pieces
(`encodeTable_holds`).
-/
import Geofence.Proofs.Partition.Order
import Geofence.Proofs.Table.Block

namespace Geofence.Partition

set_option autoImplicit false

variable {f : Format} {p : Nat} {ranges : List CellRange} {payload : List UInt8}

theorem inside_of_mem_rowsOf (inside : ∀ r ∈ ranges, InPrefix f p r) {a : Arc}
    (member : a ∈ (ranges.map CellRange.arc).flatMap (rowsOf f)) :
    (∃ r ∈ ranges, a ∈ rowsOf f r.arc) ∧ a.first / f.prefixCells = p ∧
      a.past ≤ f.prefixEnd a.first := by
  simp only [List.mem_flatMap, List.mem_map] at member
  obtain ⟨_, ⟨r, r_member, rfl⟩, part⟩ := member
  have placed := inside r r_member
  obtain ⟨lower, nonempty, upper⟩ :=
    (tiles_rowsOf (r.fits_arc placed.atLevel).first_lt_past).bounds part
  have past_le := placed.past_le
  rw [Format.prefixEnd, placed.prefix_eq] at past_le
  have prefix_eq : a.first / f.prefixCells = p := by
    rw [Nat.div_eq_iff f.prefixCells_pos]
    have started := Nat.div_mul_le_self r.arc.first f.prefixCells
    rw [placed.prefix_eq] at started
    rw [Nat.succ_mul] at past_le
    omega
  refine ⟨⟨r, r_member, part⟩, prefix_eq, ?_⟩
  rw [Format.prefixEnd, prefix_eq]
  exact upper.trans past_le

/-- Ranges inside a prefix, cut to length, are the rows of its table. -/
theorem rows_of_inPrefix (inside : ∀ r ∈ ranges, InPrefix f p r)
    (sorted : (ranges.map CellRange.arc).Pairwise Arc.Before) :
    Block.Rows f p ((ranges.map CellRange.arc).flatMap (rowsOf f)) where
  fits := by
    intro a member
    obtain ⟨⟨r, r_member, part⟩, -⟩ := inside_of_mem_rowsOf inside member
    exact (r.fits_arc (inside r r_member).atLevel).of_mem_cut part
  prefix_eq := fun _ member => (inside_of_mem_rowsOf inside member).2.1
  past_le := fun _ member => (inside_of_mem_rowsOf inside member).2.2
  short := by
    intro a member
    obtain ⟨⟨r, -, part⟩, -⟩ := inside_of_mem_rowsOf inside member
    have := Arc.past_le_next_of_mem_cut (fun k => Nat.lt_add_of_pos_right f.longest_pos) part
    unfold Arc.length
    omega
  sorted := (Arc.pairwise_flatMap_cut
    (nonempty_of_atLevel fun r member => (inside r member).atLevel)).2 sorted

theorem value_of_mem_rowsOf {r : CellRange}
    (member : r.arc ∈ (ranges.map CellRange.arc).flatMap (rowsOf f)) :
    ∃ s ∈ ranges, r.value = s.value := by
  simp only [List.mem_flatMap, List.mem_map] at member
  obtain ⟨_, ⟨s, s_member, rfl⟩, part⟩ := member
  exact ⟨s, s_member, Arc.value_of_mem_cut part⟩

/-- In formats whose numbers fit four bytes, ranges in order are made a table when their values
have room. -/
theorem exists_encodeTable (inside : ∀ r ∈ ranges, InPrefix f p r)
    (sorted : (ranges.map CellRange.arc).Pairwise Arc.Before) (prefix_lt : p < 2 ^ 32)
    (suffixBits_le : f.suffixBits ≤ 28)
    (fitting : 0 < f.valueSize → ∀ r ∈ ranges, r.value ≤ f.greatestValue) :
    ∃ payload, encodeTable f p ranges = .ok payload := by
  by_cases none_here : ranges = []
  · rw [none_here]
    exact ⟨[], encodeTable_nil f p⟩
  · obtain ⟨rows, same, placed, arcs⟩ := encodeTable_eq inside none_here sorted
    have fit := rows_of_inPrefix inside sorted
    rw [← arcs] at fit
    rw [same]
    refine Block.exists_encode placed fit prefix_lt suffixBits_le ?_
    intro room r member
    have among := List.mem_map_of_mem (f := CellRange.arc) member
    rw [arcs] at among
    obtain ⟨s, s_member, value_eq⟩ := value_of_mem_rowsOf among
    rw [value_eq]
    exact fitting room s s_member

/-- A table is refused for ranges that are not in order, for a value without room, or for a number
that does not fit its field. -/
theorem encodeTable_refused_cases {fault : Fault} (inside : ∀ r ∈ ranges, InPrefix f p r)
    (refused : encodeTable f p ranges = .error fault) :
    (∃ later earlier, fault = .outOfOrder later earlier ∨ fault = .overlapping earlier later) ∨
      fault.kind = .argument ∨ fault.kind = .overflow := by
  rcases encodeTable_refused inside refused with
    ⟨misplaced, -⟩ | ⟨sorted, rows, unstored, placed, arcs⟩
  · exact Or.inl misplaced
  · have fit := rows_of_inPrefix inside sorted
    rw [← arcs] at fit
    exact Or.inr (Block.blames_encode placed fit fault unstored)

theorem value_le_of_encodeTable (inside : ∀ r ∈ ranges, InPrefix f p r)
    (made : encodeTable f p ranges = .ok payload) (room : 0 < f.valueSize) :
    ∀ r ∈ ranges, r.value ≤ f.greatestValue := by
  intro r member
  obtain ⟨rows, same, -, arcs⟩ := encodeTable_eq inside (List.ne_nil_of_mem member)
    (sorted_of_encodeTable inside made)
  obtain ⟨a, part⟩ := List.exists_mem_of_ne_nil (rowsOf f r.arc) Arc.cut_ne_nil
  have among : a ∈ rows.map CellRange.arc := by
    rw [arcs]
    exact List.mem_flatMap.2 ⟨r.arc, List.mem_map_of_mem member, part⟩
  obtain ⟨s, s_member, rfl⟩ := List.mem_map.1 among
  have value_eq : s.value = r.value := Arc.value_of_mem_cut part
  rw [← value_eq]
  exact Block.value_le_of_encode (same ▸ made) room s s_member

theorem length_encodeTable_le (inside : ∀ r ∈ ranges, InPrefix f p r)
    (made : encodeTable f p ranges = .ok payload) : payload.length ≤ 20 + 12 * f.prefixCells := by
  have sorted := sorted_of_encodeTable inside made
  by_cases none_here : ranges = []
  · subst none_here
    obtain rfl := Except.ok.inj ((encodeTable_nil f p).symm.trans made)
    exact Nat.zero_le _
  · obtain ⟨rows, same, placed, arcs⟩ := encodeTable_eq inside none_here sorted
    exact Block.length_encode_le placed (arcs ▸ rows_of_inPrefix inside sorted) (same ▸ made)

/-- A table reads back as the pieces of its ranges; it has no bytes when there are none. -/
theorem encodeTable_holds (inside : ∀ r ∈ ranges, InPrefix f p r)
    (made : encodeTable f p ranges = .ok payload) :
    (payload = [] ↔ (ranges.map CellRange.arc).flatMap (rowsOf f) = []) ∧
      Block.Rows f p ((ranges.map CellRange.arc).flatMap (rowsOf f)) ∧
      ∃ b, (∀ id, Block.load f p id payload = .ok b) ∧
        Block.Holds f p ((ranges.map CellRange.arc).flatMap (rowsOf f)) b := by
  have sorted := sorted_of_encodeTable inside made
  have fit := rows_of_inPrefix inside sorted
  by_cases none_here : ranges = []
  · subst none_here
    obtain rfl := Except.ok.inj ((encodeTable_nil f p).symm.trans made)
    exact ⟨iff_of_true rfl rfl, fit, .empty p, fun id => rfl, .empty⟩
  · obtain ⟨rows, same, placed, arcs⟩ := encodeTable_eq inside none_here sorted
    have some_rows : rows.map CellRange.arc ≠ [] := by
      intro no_rows
      rw [arcs, List.flatMap_eq_nil_iff] at no_rows
      obtain ⟨r, r_member⟩ := List.exists_mem_of_ne_nil _ none_here
      exact Arc.cut_ne_nil (no_rows r.arc (List.mem_map_of_mem r_member))
    rw [← arcs] at fit ⊢
    obtain ⟨some_bytes, b, loaded, holds⟩ :=
      Block.load_encode placed fit (fun empty => some_rows (by rw [empty]; rfl)) (same ▸ made)
    exact ⟨iff_of_false some_bytes some_rows, fit, b, loaded, holds⟩

end Geofence.Partition
