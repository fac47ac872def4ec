/-
# Geofence.Proofs.Partition.Alike -- lists that leave the same tables

What the tables of a list are made of is the reference cut of the list and
nothing else, and of the cut only what a file keeps of it: where ranges of one
value touch, it does not matter whether they came as one or as several
(`SamePieces`).  The partitions of two such lists go side by side.  What is
pending in the one and in the other stays alike from prefix to prefix
(`collect_alike`), so one runs through as far as the other and makes the same
tables (`Filled.alike`, `tables_eq_of_samePieces`).

The pieces of a list are not cut again (`pieces_eq_self`), so a list and the list
of its pieces are alike.
-/
import Geofence.Proofs.Partition.Pieces
import Geofence.Proofs.Table.Ranges

namespace Geofence

set_option autoImplicit false

variable {f : Format}

theorem Arc.stored_stored (a : Arc) : (a.stored f).stored f = a.stored f := by
  unfold stored
  dsimp only
  split
  · rfl
  · rfl

namespace Block

/-- The values that a file keeps are those of the arcs as it keeps them. -/
theorem kept_eq_of_stored (ranges : List CellRange) : SharedData.kept f (ranges.map (·.value)) =
    SharedData.kept f (((ranges.map CellRange.arc).map (Arc.stored f)).map Arc.value) := by
  unfold SharedData.kept
  split
  · rfl
  · rename_i room
    rw [List.map_map, List.map_map]
    refine List.map_congr_left fun r _ => ?_
    change r.value = if f.valueSize = 0 then 0 else r.value
    rw [if_neg room]

/-- The stored table of rows is made of what a file keeps of them. -/
theorem encode_congr {p : Nat} {rows others : List CellRange}
    (placed : ∀ r ∈ rows, Partition.AtLevel f r) (fit : Rows f p (rows.map CellRange.arc))
    (others_placed : ∀ r ∈ others, Partition.AtLevel f r)
    (others_fit : Rows f p (others.map CellRange.arc))
    (same : (rows.map CellRange.arc).map (Arc.stored f) =
      (others.map CellRange.arc).map (Arc.stored f)) :
    encode f p rows = encode f p others := by
  have kept_eq : SharedData.kept f (rows.map (·.value)) =
      SharedData.kept f (others.map (·.value)) := by
    rw [kept_eq_of_stored, kept_eq_of_stored, same]
  have shared_eq :
      SharedData.encode f { tablePrefix := p, values := (rows.map (·.value)).toArray } =
        SharedData.encode f { tablePrefix := p, values := (others.map (·.value)).toArray } :=
    SharedData.encode_congr rfl kept_eq
  have rowOf_stored : rowOf f ∘ Arc.stored f = rowOf f := rfl
  have rows_eq : (rows.map CellRange.arc).map (rowOf f) =
      (others.map CellRange.arc).map (rowOf f) := by
    rw [← rowOf_stored, ← List.map_map, same, List.map_map]
  rw [encode_eq placed fit, encode_eq others_placed others_fit, shared_eq, rows_eq]

end Block

namespace Partition

variable {current p : Nat} {a b : Arc} {pending others rest next : Pending CellRange}
  {batch otherBatch ranges otherRanges : List CellRange} {payload : List UInt8}
  {tables : List (List CellRange × List UInt8)} {made : Array (List UInt8)}

/-! ## Pieces of pieces -/

theorem pieces_eq_self (inside : a.past ≤ f.prefixEnd a.first)
    (short : a.past ≤ a.first + f.longest) : pieces f a = [a] := by
  rw [pieces, segments, Arc.cut_eq_self inside, List.flatMap_singleton, rowsOf,
    Arc.cut_eq_self short]

/-- No piece is longer than a row can say. -/
theorem past_le_longest_of_mem_pieces (member : b ∈ pieces f a) :
    b.past ≤ b.first + f.longest := by
  obtain ⟨c, -, part⟩ := List.mem_flatMap.1 member
  exact Arc.past_le_next_of_mem_cut (fun k => Nat.lt_add_of_pos_right f.longest_pos) part

/-- A file keeps the same of both lists. -/
def SamePieces (f : Format) (ranges others : List CellRange) : Prop :=
  (storedPieces f ranges).map (Arc.stored f) = (storedPieces f others).map (Arc.stored f)

/-- Of a list and of the list of its pieces a file keeps the same. -/
theorem samePieces_of_arcs (atLevel : ∀ r ∈ ranges, AtLevel f r)
    (arcs : otherRanges.map CellRange.arc = (storedPieces f ranges).map (Arc.stored f)) :
    SamePieces f ranges otherRanges := by
  have uncut : ∀ q ∈ otherRanges, pieces f q.arc = [q.arc] := by
    intro q member
    have among := List.mem_map_of_mem (f := CellRange.arc) member
    rw [arcs] at among
    obtain ⟨b, b_member, arc_eq⟩ := List.mem_map.1 among
    obtain ⟨r, r_member, part⟩ := List.mem_flatMap.1 b_member
    have inside : b.past ≤ f.prefixEnd b.first :=
      past_le_of_mem_pieces (r.fits_arc (atLevel r r_member)).first_lt_past part
    have short : b.past ≤ b.first + f.longest := past_le_longest_of_mem_pieces part
    rw [← arc_eq]
    exact pieces_eq_self inside short
  have whole : storedPieces f otherRanges = otherRanges.map CellRange.arc := by
    rw [storedPieces, List.flatMap_congr uncut, List.map_eq_flatMap]
  rw [SamePieces, whole, arcs, List.map_map]
  exact List.map_congr_left fun b _ => b.stored_stored.symm

/-! ## One prefix -/

/-- What is pending is in order and starts in prefix `current` or behind it. -/
structure Orderly (f : Format) (current : Nat) (ranges : List CellRange) : Prop where
  atLevel : ∀ r ∈ ranges, AtLevel f r
  sorted : (segmentsOf f ranges).Pairwise Arc.Before
  ahead : ∀ a ∈ segmentsOf f ranges, current ≤ a.first / f.prefixCells

/-- What is in order is not refused. -/
theorem Orderly.exists_collect (orderly : Orderly f current pending.toList) :
    ∃ batch rest, collect f current pending = .ok (batch, rest) := by
  cases collected : collect f current pending with
  | ok made => exact ⟨made.1, made.2, rfl⟩
  | error fault =>
      rcases collect_refused collected with ⟨r, member, other, -⟩ | ⟨-, a, member, low⟩
      · exact absurd (orderly.atLevel r member) other
      · exact absurd (orderly.ahead a member) (not_le.2 low)

namespace Collected

variable (step : Collected f current pending batch rest)
  (orderly : Orderly f current pending.toList)

include step orderly

theorem sorted_batch : (batch.map CellRange.arc).Pairwise Arc.Before := by
  have sorted := orderly.sorted
  rw [step.segments_eq] at sorted
  exact (List.pairwise_append.1 sorted).1

theorem orderly_rest : Orderly f (current + 1) rest.toList where
  atLevel := step.atLevel_iff.2 orderly.atLevel
  sorted := by
    have sorted := orderly.sorted
    rw [step.segments_eq] at sorted
    exact (List.pairwise_append.1 sorted).2.1
  ahead := step.passed orderly.sorted

/-- The rows of what was collected are the pieces that start in the prefix, and the others are still
pending. -/
theorem filter_pieces :
    (storedPieces f pending.toList).filter (fun a => a.first / f.prefixCells = current) =
        (batch.map CellRange.arc).flatMap (rowsOf f) ∧
      (storedPieces f pending.toList).filter (fun a => ¬a.first / f.prefixCells = current) =
        storedPieces f rest.toList := by
  have here : ∀ a ∈ (batch.map CellRange.arc).flatMap (rowsOf f),
      a.first / f.prefixCells = current :=
    (rows_of_inPrefix step.inPrefix (step.sorted_batch orderly)).prefix_eq
  have later : ∀ a ∈ (segmentsOf f rest.toList).flatMap (rowsOf f),
      ¬a.first / f.prefixCells = current := by
    intro a member
    obtain ⟨b, segment, part⟩ := List.mem_flatMap.1 member
    have left := step.orderly_rest orderly
    have nonempty := nonempty_of_mem_segmentsOf left.atLevel b segment
    have lower := ((tiles_rowsOf nonempty).bounds part).1
    have beyond : current < b.first / f.prefixCells := left.ahead b segment
    exact (beyond.trans_le (Nat.div_le_div_right lower)).ne'
  rw [storedPieces_eq, storedPieces_eq, step.segments_eq, List.flatMap_append, List.filter_append,
    List.filter_append]
  constructor
  · rw [List.filter_eq_self.2 fun a member => decide_eq_true (here a member),
      List.filter_eq_nil_iff.2 fun a member => by simpa using later a member, List.append_nil]
  · rw [List.filter_eq_nil_iff.2 fun a member => by simpa using here a member,
      List.filter_eq_self.2 fun a member => decide_eq_true (later a member), List.nil_append]

end Collected

/-- The tables of collected ranges are the same if a file keeps the same of their rows. -/
theorem encodeTable_congr (inside : ∀ r ∈ batch, InPrefix f p r)
    (sorted : (batch.map CellRange.arc).Pairwise Arc.Before)
    (others_inside : ∀ r ∈ otherBatch, InPrefix f p r)
    (others_sorted : (otherBatch.map CellRange.arc).Pairwise Arc.Before)
    (same : ((batch.map CellRange.arc).flatMap (rowsOf f)).map (Arc.stored f) =
      ((otherBatch.map CellRange.arc).flatMap (rowsOf f)).map (Arc.stored f)) :
    encodeTable f p batch = encodeTable f p otherBatch := by
  have rows_nil_iff : ∀ ranges : List CellRange,
      ((ranges.map CellRange.arc).flatMap (rowsOf f)).map (Arc.stored f) = [] ↔ ranges = [] := by
    intro ranges
    rw [List.map_eq_nil_iff, List.flatMap_eq_nil_iff]
    constructor
    · intro none_made
      cases ranges with
      | nil => rfl
      | cons r ranges => exact absurd (none_made r.arc List.mem_cons_self) Arc.cut_ne_nil
    · rintro rfl
      simp
  by_cases none_here : batch = []
  · have none_there : otherBatch = [] := by
      rw [← rows_nil_iff, ← same, rows_nil_iff, none_here]
    rw [none_here, none_there]
  · have some_there : otherBatch ≠ [] := by
      rwa [Ne, ← rows_nil_iff, ← same, rows_nil_iff]
    obtain ⟨rows, rows_eq, placed, arcs⟩ := encodeTable_eq inside none_here sorted
    obtain ⟨otherRows, others_eq, others_placed, other_arcs⟩ :=
      encodeTable_eq others_inside some_there others_sorted
    have fit := rows_of_inPrefix inside sorted
    have others_fit := rows_of_inPrefix others_inside others_sorted
    rw [← arcs] at fit same
    rw [← other_arcs] at others_fit same
    rw [rows_eq, others_eq, Block.encode_congr placed fit others_placed others_fit same]

/-- Where a file keeps the same of what is pending, the table of the next prefix is the same, and so
is what a file keeps of what is left. -/
theorem collect_alike (orderly : Orderly f current pending.toList)
    (others_orderly : Orderly f current others.toList)
    (same : SamePieces f pending.toList others.toList)
    (collected : collect f current pending = .ok (batch, rest))
    (encoded : encodeTable f current batch = .ok payload) :
    ∃ otherBatch next, collect f current others = .ok (otherBatch, next) ∧
      encodeTable f current otherBatch = .ok payload ∧ Orderly f (current + 1) rest.toList ∧
      Orderly f (current + 1) next.toList ∧ SamePieces f rest.toList next.toList := by
  obtain ⟨otherBatch, next, others_collected⟩ := others_orderly.exists_collect
  have step := collect_spec collected
  have other_step := collect_spec others_collected
  obtain ⟨here, later⟩ := step.filter_pieces orderly
  obtain ⟨others_here, others_later⟩ := other_step.filter_pieces others_orderly
  -- a file keeps the numbers, so it makes no difference whether the pieces are sifted before
  have sifted (keep : Nat → Bool) (ranges : List CellRange) :
      ((storedPieces f ranges).filter fun a => keep a.first).map (Arc.stored f) =
        ((storedPieces f ranges).map (Arc.stored f)).filter fun a => keep a.first := by
    rw [List.filter_map]
    rfl
  have alike (keep : Nat → Bool) :
      ((storedPieces f pending.toList).filter fun a => keep a.first).map (Arc.stored f) =
        ((storedPieces f others.toList).filter fun a => keep a.first).map (Arc.stored f) := by
    rw [sifted, sifted, same]
  refine ⟨otherBatch, next, others_collected, ?_, step.orderly_rest orderly,
    other_step.orderly_rest others_orderly, ?_⟩
  · rw [← encoded]
    refine (encodeTable_congr step.inPrefix (step.sorted_batch orderly) other_step.inPrefix
      (other_step.sorted_batch others_orderly) ?_).symm
    rw [← here, ← others_here]
    exact alike fun k => k / f.prefixCells = current
  · rw [SamePieces, ← later, ← others_later]
    exact alike fun k => ¬k / f.prefixCells = current

/-! ## All prefixes -/

/-- Where a file keeps the same of what is pending, a run makes the same tables. -/
theorem Filled.alike (filled : Filled f current pending tables rest)
    (orderly : Orderly f current pending.toList) (others_orderly : Orderly f current others.toList)
    (same : SamePieces f pending.toList others.toList) :
    ∃ otherTables next, Filled f current others otherTables next ∧
      otherTables.map Prod.snd = tables.map Prod.snd := by
  induction filled generalizing others with
  | nil current _ => exact ⟨[], others, .nil current others, rfl⟩
  | cons collected encoded _ ih =>
      obtain ⟨otherBatch, next, others_collected, others_encoded, orderly_rest, orderly_next,
        still_same⟩ := collect_alike orderly others_orderly same collected encoded
      obtain ⟨otherTables, last, others_filled, payloads_eq⟩ :=
        ih orderly_rest orderly_next still_same
      refine ⟨_, last, .cons others_collected others_encoded others_filled, ?_⟩
      rw [List.map_cons, List.map_cons, payloads_eq]

/-- Of lists of which a file keeps the same, one is in order if the other is. -/
theorem sorted_of_samePieces (same : SamePieces f ranges otherRanges)
    (sorted : (storedPieces f ranges).Pairwise Arc.Before)
    (others_atLevel : ∀ r ∈ otherRanges, AtLevel f r) :
    (segmentsOf f otherRanges).Pairwise Arc.Before := by
  have kept : ((storedPieces f ranges).map (Arc.stored f)).Pairwise Arc.Before :=
    List.pairwise_map.2 sorted
  rw [same, List.pairwise_map, storedPieces_eq] at kept
  exact (Arc.pairwise_flatMap_cut (nonempty_of_mem_segmentsOf others_atLevel)).1 kept

/-- The tables of a list are made of what a file keeps of its pieces. -/
theorem tables_eq_of_samePieces (done : Partition.tables f ranges = (made, .ok ()))
    (others_atLevel : ∀ r ∈ otherRanges, AtLevel f r) (same : SamePieces f ranges otherRanges) :
    Partition.tables f otherRanges = (made, .ok ()) := by
  obtain ⟨tables, rest, length_eq, made_eq, filled⟩ := exists_filled_of_tables_ok done
  have held := (filled.tablesOf length_eq).2
  have others_sorted := sorted_of_samePieces same held.sorted_pieces others_atLevel
  have orderly : Orderly f 0 (Pending.ofList ranges).toList := by
    rw [Pending.toList_ofList]
    exact ⟨held.atLevel, held.sorted, fun _ _ => Nat.zero_le _⟩
  have others_orderly : Orderly f 0 (Pending.ofList otherRanges).toList := by
    rw [Pending.toList_ofList]
    exact ⟨others_atLevel, others_sorted, fun _ _ => Nat.zero_le _⟩
  obtain ⟨otherTables, next, others_filled, payloads_eq⟩ :=
    filled.alike orderly others_orderly (by rwa [Pending.toList_ofList, Pending.toList_ofList])
  have others_length : otherTables.length = f.tableCount := by
    rw [← length_eq, ← List.length_map (f := Prod.snd), payloads_eq, List.length_map]
  rw [tables_eq_of_filled others_filled others_length, payloads_eq, made_eq]

end Partition

end Geofence
