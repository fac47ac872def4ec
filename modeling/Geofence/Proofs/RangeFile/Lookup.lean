/-
# Geofence.Proofs.RangeFile.Lookup -- lookups in files that were written

A reader of a file that was written for some ranges finds a range for a cell
just when one of the ranges holds the cell, and what it finds is the piece of
that range around the cell (`find_answers`).  This holds after any number of
lookups, because lookups leave a reader serving (`Serves.lookups`).
-/
import Geofence.Proofs.RangeFile.Reader

namespace Geofence.RangeFile

set_option autoImplicit false

open Geofence.Partition (AtLevel pieces piecesAt)

/-- The range `q` is the part of `r` around a cell that a file in format `f` keeps in a row. -/
structure PieceAround (f : Format) (r : CellRange) (c : Cell) (q : CellRange) : Prop where
  holds : q.contains c = true
  start_le : r.start ≤ q.start
  stop_le : q.stopKey ≤ r.stopKey
  prefix_eq : f.prefixOf q.start = f.prefixOf c
  /-- It ends in the prefix of the cell, or on the first cell of the next prefix. -/
  stop_near : f.prefixOf q.stop = f.prefixOf c ∨ f.cellPastPrefix (f.prefixOf c) = .ok q.stop
  length_le : q.arc.length ≤ f.longest
  value_eq : q.value = if f.valueSize = 0 then 0 else r.value

/-- The range of a piece is the part of its range around each of its cells. -/
theorem pieceAround_of_arc {f : Format} {r q : CellRange} {a : Arc} {k : Nat}
    (atLevel : AtLevel f r) (part : a ∈ pieces f r.arc) (within : a.first ≤ k ∧ k < a.past)
    (short : a.length ≤ f.longest) (placed : AtLevel f q) (arc_eq : q.arc = a.stored f) :
    PieceAround f r (Cell.nth f.level k) q := by
  have fits := r.fits_arc atLevel
  obtain ⟨lower, nonempty, upper⟩ := (Partition.tiles_pieces fits.first_lt_past).bounds part
  have past_le := Partition.past_le_of_mem_pieces fits.first_lt_past part
  have inside : k < Cell.count f.level :=
    within.2.trans_le (upper.trans fits.past_le_count)
  have first_eq : q.arc.first = a.first := by
    rw [arc_eq]
    rfl
  have past_eq : q.arc.past = a.past := by
    rw [arc_eq]
    rfl
  have same_prefix := Partition.prefix_eq_of_mem_pieces fits.first_lt_past part within
  refine ⟨?_, ?_, ?_, ?_, ?_, ?_, ?_⟩
  · rw [CellRange.contains_nth placed inside, first_eq, past_eq]
    exact within
  · rw [r.start_eq_nth atLevel, q.start_eq_nth placed, Cell.nth_le_nth, first_eq]
    exact lower
  · exact CellRange.stopKey_le_stopKey placed atLevel (past_eq ▸ upper)
  · rw [q.start_eq_nth placed, f.prefixOf_nth, f.prefixOf_nth, first_eq, same_prefix]
  · rw [← first_eq] at same_prefix
    exact Partition.stop_near_of_past_le placed (by rwa [first_eq, past_eq]) same_prefix.symm
  · rw [arc_eq]
    exact short
  · have value_eq : q.value = (a.stored f).value := congrArg Arc.value arc_eq
    rw [value_eq, Arc.stored, Partition.value_of_mem_pieces part]
    rfl

variable {f : Format} {ranges : List CellRange} {k p : Nat}

/-- A cell of a range lies in a piece of the range, which the table of the cell's prefix holds. -/
theorem exists_piece_of_contains {s : CellRange} (member : s ∈ ranges) (placed : AtLevel f s)
    (inside : k < Cell.count f.level) (contains : s.contains (Cell.nth f.level k) = true) :
    ∃ a ∈ piecesAt f ranges (k / f.prefixCells),
      a ∈ pieces f s.arc ∧ a.first ≤ k ∧ k < a.past := by
  have nonempty := (s.fits_arc placed).first_lt_past
  rw [CellRange.contains_nth placed inside, ← Partition.exists_mem_pieces_iff (f := f) nonempty]
    at contains
  obtain ⟨a, part, within⟩ := contains
  have prefix_eq := Partition.prefix_eq_of_mem_pieces nonempty part within
  exact ⟨a, Partition.mem_piecesAt.2 ⟨⟨s, member, part⟩, prefix_eq⟩, part, within⟩

/-- A cell of a piece lies in the range that was cut. -/
theorem exists_contains_of_piece {a : Arc} (atLevel : ∀ s ∈ ranges, AtLevel f s)
    (inside : k < Cell.count f.level) (member : a ∈ piecesAt f ranges p)
    (within : a.first ≤ k ∧ k < a.past) :
    ∃ s ∈ ranges, s.contains (Cell.nth f.level k) = true := by
  obtain ⟨⟨s, s_member, part⟩, -⟩ := Partition.mem_piecesAt.1 member
  have placed := atLevel s s_member
  refine ⟨s, s_member, ?_⟩
  rw [CellRange.contains_nth placed inside,
    ← Partition.exists_mem_pieces_iff (f := f) (s.fits_arc placed).first_lt_past]
  exact ⟨a, part, within⟩

namespace Reader

theorem findIn_spec {b : Block} {arcs : List Arc} (rows : Block.Rows f p arcs)
    (holds : Block.Holds f p arcs b) (inside : k < Cell.count f.level)
    (placed : k / f.prefixCells = p) :
    (findIn f b (Cell.nth f.level k) = .ok none ∧ ∀ a ∈ arcs, ¬(a.first ≤ k ∧ k < a.past)) ∨
      ∃ a ∈ arcs, (a.first ≤ k ∧ k < a.past) ∧
        ∃ q, findIn f b (Cell.nth f.level k) = .ok (some q) ∧ AtLevel f q ∧
          q.arc = a.stored f := by
  rcases Block.find_spec rows holds inside placed with
    ⟨missed, none_holds⟩ | ⟨i, below, found, within⟩
  · refine Or.inl ⟨?_, none_holds⟩
    rw [findIn, missed]
    rfl
  · obtain ⟨q, made, q_placed, arc_eq⟩ := Block.rangeOf_eq rows holds below
    refine Or.inr ⟨arcs[i], List.getElem_mem below, within, q, ?_, q_placed, arc_eq⟩
    rw [findIn, found, Outcome.ok_bind]
    simp only [holds.row_eq below, Outcome.ok_bind, made]
    rfl

variable [Container.Compression] {r : Reader}

def lookups (r : Reader) (cells : List Cell) : Reader :=
  cells.foldl (fun s c => (s.find c).2) r

theorem Serves.find_eq (serves : r.Serves f ranges) (inside : k < Cell.count f.level) :
    ∃ b s, r.find (Cell.nth f.level k) = (findIn f b (Cell.nth f.level k), s) ∧
      Block.Holds f (k / f.prefixCells) (piecesAt f ranges (k / f.prefixCells)) b ∧
      s.Serves f ranges := by
  have live := f.prefix_lt_livePrefixes inside
  have valid : Cell.validate (Cell.nth f.level k) = .ok (Cell.nth f.level k) := by
    rw [Cell.validate, if_pos (Cell.isValid_nth f.level_le inside)]
  obtain ⟨b, s, read, holds, serves_still⟩ :=
    serves.block (live.trans f.livePrefixes_lt_tableCount)
  refine ⟨b, s, ?_, holds, serves_still⟩
  rw [Reader.find, serves.open_eq, if_neg Bool.false_ne_true, valid]
  simp only [serves.format_eq, Cell.depth_nth f.level_le, f.prefixOf_nth, read]
  rw [if_neg (not_not.2 rfl)]

/-- Lookups leave a reader serving, whether they are answered or refused. -/
theorem Serves.find (serves : r.Serves f ranges) (c : Cell) : (r.find c).2.Serves f ranges := by
  by_cases found : Cell.isValid c = true ∧ Cell.depth c = f.level
  · obtain ⟨valid, depth_eq⟩ := found
    obtain ⟨-, inside, c_eq⟩ := Cell.nth_index valid depth_eq
    obtain ⟨b, s, answer, -, serves_still⟩ := serves.find_eq inside
    rw [c_eq] at answer
    rw [answer]
    exact serves_still
  · rw [Reader.find, serves.open_eq, if_neg Bool.false_ne_true, Cell.validate, serves.format_eq]
    by_cases valid : Cell.isValid c = true
    · simp only [if_pos valid]
      rw [if_pos fun depth_eq => found ⟨valid, depth_eq⟩]
      exact serves
    · simp only [if_neg valid]
      exact serves

theorem Serves.lookups (serves : r.Serves f ranges) (cells : List Cell) :
    (r.lookups cells).Serves f ranges := by
  induction cells generalizing r with
  | nil => exact serves
  | cons c cells ih => exact ih (serves.find c)

/-- A reader that serves ranges finds the piece around a cell, if a range holds the cell. -/
theorem Serves.find_answers {c : Cell} (serves : r.Serves f ranges) (valid : Cell.isValid c = true)
    (depth_eq : Cell.depth c = f.level) :
    ∃ found, (r.find c).1 = .ok found ∧
      (found = none ↔ ∀ s ∈ ranges, s.contains c = false) ∧
      ∀ s ∈ ranges, s.contains c = true → ∃ q, found = some q ∧ PieceAround f s c q := by
  obtain ⟨-, inside, c_eq⟩ := Cell.nth_index valid depth_eq
  generalize Cell.index c = k at inside c_eq
  subst c_eq
  obtain ⟨b, t, answer, holds, -⟩ := serves.find_eq inside
  have rows := serves.rows _ ((f.prefix_lt_livePrefixes inside).trans f.livePrefixes_lt_tableCount)
  rw [answer]
  rcases findIn_spec rows holds inside rfl with
    ⟨missed, none_holds⟩ | ⟨a, member, within, q, found, placed, arc_eq⟩
  · have outside : ∀ s ∈ ranges, s.contains (Cell.nth f.level k) = false := by
      intro s s_member
      rw [Bool.eq_false_iff]
      intro contains
      obtain ⟨a, member, -, within⟩ :=
        exists_piece_of_contains s_member (serves.atLevel s s_member) inside contains
      exact none_holds a member within
    refine ⟨none, missed, iff_of_true rfl outside, ?_⟩
    intro s s_member contains
    rw [outside s s_member] at contains
    contradiction
  · refine ⟨some q, found, iff_of_false (by simp) ?_, ?_⟩
    · intro outside
      obtain ⟨s, s_member, contains⟩ :=
        exists_contains_of_piece serves.atLevel inside member within
      rw [outside s s_member] at contains
      contradiction
    · intro s s_member contains
      have s_placed := serves.atLevel s s_member
      obtain ⟨own, own_member, part, own_within⟩ :=
        exists_piece_of_contains s_member s_placed inside contains
      -- pieces are in order, so no other piece holds the cell
      obtain rfl := Arc.eq_of_pairwise rows.sorted own_member member own_within within
      exact ⟨q, rfl, pieceAround_of_arc s_placed part within (rows.short own member) placed arc_eq⟩

end Reader

/-- What is written is found: the file of ranges that were accepted opens with its format, and
its reader finds for every cell of its level, whatever it was asked before, the piece of the range
that holds the cell, or nothing when no range does. -/
theorem lookup_of_written [Container.Compression] {f : Format} {compressed : Bool}
    {ranges : List CellRange} {w v u : Writer}
    (roundTrips : compressed = true → Container.Compression.RoundTrips)
    (created : Writer.create f compressed = .ok w) (accepted : w.put ranges = (.ok (), v))
    (closed : v.close = (.ok (), u)) (path : String) :
    ∃ r, Reader.ofBytes path u.contents Expected.nothing = .ok r ∧ r.format = f ∧
      ∀ (earlier : List Cell) (c : Cell), Cell.isValid c = true → Cell.depth c = f.level →
        ∃ found, ((r.lookups earlier).find c).1 = .ok found ∧
          (found = none ↔ ∀ s ∈ ranges, s.contains c = false) ∧
          ∀ s ∈ ranges, s.contains c = true → ∃ q, found = some q ∧ PieceAround f s c q := by
  obtain ⟨tables, container, held, ready, tables_eq, holds, opened⟩ :=
    Reader.opens_written roundTrips created accepted closed path
  have serves := Reader.serves_of_holds ready held tables_eq holds
  exact ⟨_, opened, rfl, fun earlier c valid depth_eq =>
    (serves.lookups earlier).find_answers valid depth_eq⟩

/-- A cell of the range over three prefixes is found with the part in its prefix, and a cell between
the ranges is not found. -/
theorem lookup_of_written_small : ∃ w v u : Writer, ∃ r : Reader,
    Writer.create smallFormat true = .ok w ∧
    w.put [spanningRange, wrappingRange] = (.ok (), v) ∧ v.close = (.ok (), u) ∧
    Reader.ofBytes "small" u.contents Expected.nothing = .ok r ∧ r.format = smallFormat ∧
    (∃ q, (r.find (Cell.nth 2 20)).1 = .ok (some q) ∧
      PieceAround smallFormat spanningRange (Cell.nth 2 20) q) ∧
    ((r.lookups [Cell.nth 2 20]).find (Cell.nth 2 40)).1 = .ok none := by
  obtain ⟨w, v, u, created, accepted, closed⟩ := exists_written_small
  obtain ⟨r, opened, format_eq, answers⟩ :=
    lookup_of_written (fun _ => Container.Frame.roundTrips) created accepted closed "small"
  refine ⟨w, v, u, r, created, accepted, closed, opened, format_eq, ?_, ?_⟩
  · obtain ⟨found, answer, -, around⟩ := answers [] (Cell.nth 2 20) (by decide) (by decide)
    obtain ⟨q, rfl, piece⟩ := around spanningRange (by simp) (by decide)
    exact ⟨q, answer, piece⟩
  · obtain ⟨found, answer, none_iff, -⟩ :=
      answers [Cell.nth 2 20] (Cell.nth 2 40) (by decide) (by decide)
    rw [answer, none_iff.2 (by decide)]

end Geofence.RangeFile
