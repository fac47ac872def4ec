/-
# Geofence.Proofs.Partition.Pieces -- what a file stores of its ranges

`storedPieces` is the reference cut of a list of ranges and `piecesAt` the part
of it that belongs to one prefix.  The tables of a partition are made of just
these: the table of prefix `p` holds `piecesAt p` (`TablesOf.rows_eq`), which is
empty behind the last face (`piecesAt_eq_nil`).
-/
import Geofence.Proofs.Partition.Stored
import Geofence.Proofs.Partition.Tables

namespace Geofence.Partition

set_option autoImplicit false

variable (f : Format)

def storedPieces (ranges : List CellRange) : List Arc :=
  ranges.flatMap fun r => pieces f r.arc

/-- The stored parts that start in prefix `p`. -/
def piecesAt (ranges : List CellRange) (p : Nat) : List Arc :=
  (storedPieces f ranges).filter fun a => a.first / f.prefixCells = p

variable {f} {ranges : List CellRange} {a b : Arc} {k p : Nat}

/-! ## One range -/

theorem tiles_pieces (nonempty : a.first < a.past) : Arc.Tiles a.first a.past (pieces f a) := by
  have tiles : Arc.Tiles a.first a.past (segments f a) := tiles_segments nonempty
  exact tiles.flatMap fun b member => tiles_rowsOf (tiles.bounds member).2.1

theorem value_of_mem_pieces (member : b ∈ pieces f a) : b.value = a.value := by
  obtain ⟨c, segment, part⟩ := List.mem_flatMap.1 member
  rw [Arc.value_of_mem_cut part, Arc.value_of_mem_cut segment]

theorem fits_of_mem_pieces (fits : a.Fits f.level) (member : b ∈ pieces f a) : b.Fits f.level := by
  obtain ⟨c, segment, part⟩ := List.mem_flatMap.1 member
  exact (fits.of_mem_cut segment).of_mem_cut part

theorem past_le_of_mem_pieces (nonempty : a.first < a.past) (member : b ∈ pieces f a) :
    b.past ≤ f.prefixEnd b.first := by
  obtain ⟨c, segment, part⟩ := List.mem_flatMap.1 member
  have c_nonempty := ((tiles_segments nonempty).bounds segment).2.1
  obtain ⟨lower, -, upper⟩ := (tiles_rowsOf c_nonempty).bounds part
  have past_le := Arc.past_le_next_of_mem_cut f.lt_prefixEnd segment
  exact upper.trans (past_le.trans (Nat.mul_le_mul_right _
    (Nat.succ_le_succ (Nat.div_le_div_right lower))))

theorem prefix_eq_of_mem_pieces (nonempty : a.first < a.past) (member : b ∈ pieces f a)
    (within : b.first ≤ k ∧ k < b.past) : b.first / f.prefixCells = k / f.prefixCells := by
  have past_le := past_le_of_mem_pieces nonempty member
  have below : k / f.prefixCells < b.first / f.prefixCells + 1 :=
    (Nat.div_lt_iff_lt_mul f.prefixCells_pos).2 (within.2.trans_le past_le)
  have := Nat.div_le_div_right (c := f.prefixCells) within.1
  omega

/-- A cell of a range lies in one of the pieces of the range, and none of these holds others. -/
theorem exists_mem_pieces_iff (nonempty : a.first < a.past) :
    (∃ b ∈ pieces f a, b.first ≤ k ∧ k < b.past) ↔ a.first ≤ k ∧ k < a.past := by
  have tiles : Arc.Tiles a.first a.past (pieces f a) := tiles_pieces nonempty
  constructor
  · rintro ⟨b, member, lower, upper⟩
    obtain ⟨after, -, before⟩ := tiles.bounds member
    exact ⟨after.trans lower, upper.trans_le before⟩
  · rintro ⟨lower, upper⟩
    exact tiles.covers lower upper

/-! ## All ranges -/

theorem storedPieces_eq (f : Format) (ranges : List CellRange) :
    storedPieces f ranges = (segmentsOf f ranges).flatMap (rowsOf f) := by
  rw [segmentsOf, List.flatMap_assoc]
  rfl

theorem mem_piecesAt : a ∈ piecesAt f ranges p ↔
    (∃ r ∈ ranges, a ∈ pieces f r.arc) ∧ a.first / f.prefixCells = p := by
  simp [piecesAt, storedPieces]

/-- Behind the last face there is nothing to store. -/
theorem piecesAt_eq_nil (atLevel : ∀ r ∈ ranges, AtLevel f r) (dead : livePrefixes f ≤ p) :
    piecesAt f ranges p = [] := by
  rw [List.eq_nil_iff_forall_not_mem]
  intro a member
  obtain ⟨⟨r, r_member, part⟩, prefix_eq⟩ := mem_piecesAt.1 member
  have fits := r.fits_arc (atLevel r r_member)
  obtain ⟨-, nonempty, upper⟩ := (tiles_pieces fits.first_lt_past).bounds part
  have live := f.prefix_lt_livePrefixes (nonempty.trans_le (upper.trans fits.past_le_count))
  omega

/-- Of lists of items of consecutive keys, the items with one key are one of the lists. -/
theorem filter_flatten_eq {α : Type} {key : α → Nat} {start : Nat} {lists : List (List α)}
    (placed : ∀ (i : Nat) (inside : i < lists.length), ∀ x ∈ lists[i], key x = start + i) {i : Nat}
    (inside : i < lists.length) :
    (lists.flatten.filter fun x => key x = start + i) = lists[i] := by
  induction lists generalizing start i with
  | nil => simp at inside
  | cons first lists ih =>
      have later : ∀ (j : Nat) (below : j < lists.length), ∀ x ∈ lists[j],
          key x = start + 1 + j := by
        intro j below x member
        rw [placed (j + 1) (by simpa using below) x member]
        omega
      rw [List.flatten_cons, List.filter_append]
      cases i with
      | zero =>
          have own : (first.filter fun x => key x = start + 0) = first :=
            List.filter_eq_self.2 fun x member => by simpa using placed 0 inside x member
          have none_later : (lists.flatten.filter fun x => key x = start + 0) = [] := by
            rw [List.filter_eq_nil_iff]
            intro x member
            obtain ⟨list, list_member, x_member⟩ := List.mem_flatten.1 member
            obtain ⟨j, below, rfl⟩ := List.mem_iff_getElem.1 list_member
            have := later j below x x_member
            simp only [decide_eq_true_eq]
            omega
          rw [own, none_later, List.append_nil, List.getElem_cons_zero]
      | succ i =>
          have none_here : (first.filter fun x => key x = start + (i + 1)) = [] := by
            rw [List.filter_eq_nil_iff]
            intro x member
            have := placed 0 (by simp) x member
            simp only [decide_eq_true_eq]
            omega
          have rest := ih later (Nat.lt_of_succ_lt_succ inside)
          rw [none_here, List.nil_append, List.getElem_cons_succ, ← rest]
          congr 1
          funext x
          simp only [show start + 1 + i = start + (i + 1) by omega]

namespace TablesOf

variable {tables : List (List CellRange × List UInt8)}

/-- The arcs of the rows of the table of a prefix. -/
theorem rows_eq (held : TablesOf f ranges tables) (bound : p < tables.length) :
    (tables[p].1.map CellRange.arc).flatMap (rowsOf f) = piecesAt f ranges p := by
  have placed : ∀ (i : Nat) (inside : i < (tables.map fun t =>
      (t.1.map CellRange.arc).flatMap (rowsOf f)).length), ∀ a ∈ (tables.map fun t =>
      (t.1.map CellRange.arc).flatMap (rowsOf f))[i], a.first / f.prefixCells = 0 + i := by
    intro i inside a member
    rw [List.length_map] at inside
    rw [List.getElem_map] at member
    rw [Nat.zero_add]
    exact (encodeTable_holds (held.inPrefix i inside) (held.encoded i inside)).2.1.prefix_eq a member
  have own := filter_flatten_eq placed (i := p) (by simpa using bound)
  rw [List.getElem_map, Nat.zero_add] at own
  rw [← own, piecesAt, storedPieces_eq, held.segments_eq, List.map_flatMap, List.flatMap_assoc,
    List.flatMap_def]

/-- The table of each prefix reads back as the pieces that start there. -/
theorem holds (held : TablesOf f ranges tables) (bound : p < tables.length) :
    (tables[p].2 = [] ↔ piecesAt f ranges p = []) ∧ Block.Rows f p (piecesAt f ranges p) ∧
      ∃ b, (∀ id, Block.load f p id tables[p].2 = .ok b) ∧
        Block.Holds f p (piecesAt f ranges p) b := by
  rw [← held.rows_eq bound]
  exact encodeTable_holds (held.inPrefix p bound) (held.encoded p bound)

theorem value_le (held : TablesOf f ranges tables) (room : 0 < f.valueSize) :
    ∀ r ∈ ranges, r.value ≤ f.greatestValue := by
  intro r member
  obtain ⟨a, segment⟩ := List.exists_mem_of_ne_nil (segments f r.arc) Arc.cut_ne_nil
  have among : a ∈ segmentsOf f ranges := List.mem_flatMap.2 ⟨r, member, segment⟩
  rw [held.segments_eq] at among
  obtain ⟨s, s_member, rfl⟩ := List.mem_map.1 among
  obtain ⟨t, t_member, s_among⟩ := List.mem_flatMap.1 s_member
  obtain ⟨p, bound, rfl⟩ := List.mem_iff_getElem.1 t_member
  have value_eq : s.value = r.value := Arc.value_of_mem_cut segment
  rw [← value_eq]
  exact value_le_of_encodeTable (held.inPrefix p bound) (held.encoded p bound) room s s_among

/-- The pieces by prefix, one prefix after the other, are all pieces. -/
theorem flatMap_piecesAt (held : TablesOf f ranges tables) :
    (List.range f.tableCount).flatMap (piecesAt f ranges) = storedPieces f ranges := by
  have each : (List.range f.tableCount).map (piecesAt f ranges) = tables.map fun t =>
      (t.1.map CellRange.arc).flatMap (rowsOf f) := by
    apply List.ext_getElem
    · simp [held.length_eq]
    · intro p below bound
      rw [List.length_map] at bound
      rw [List.getElem_map, List.getElem_map, List.getElem_range, held.rows_eq bound]
  rw [List.flatMap_def, each, storedPieces_eq, held.segments_eq, List.map_flatMap,
    List.flatMap_assoc, List.flatMap_def]

theorem sorted_pieces (held : TablesOf f ranges tables) :
    (storedPieces f ranges).Pairwise Arc.Before := by
  rw [storedPieces_eq]
  exact (Arc.pairwise_flatMap_cut (nonempty_of_mem_segmentsOf held.atLevel)).2 held.sorted

end TablesOf

end Geofence.Partition
