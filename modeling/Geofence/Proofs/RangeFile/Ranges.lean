/-
# Geofence.Proofs.RangeFile.Ranges -- what a file that was written stores

A file that was written for some ranges stores the reference cut of the ranges
and nothing else, block by block and as a whole (`pieces_of_written`).  Walking
over the rows of a table yields the ranges of its pieces
(`Reader.walkRows_eq`), and walking over the tables those of all pieces
(`Serves.walkTables`).
-/
import Geofence.Proofs.Partition.Sorted
import Geofence.Proofs.RangeFile.Lookup

namespace Geofence.RangeFile

set_option autoImplicit false

open Geofence.Partition (AtLevel Sorted piecesAt storedPieces)

/-- The ranges are those of the arcs as a file in format `f` keeps them. -/
def Shows (f : Format) (arcs : List Arc) (ranges : List CellRange) : Prop :=
  ranges.map CellRange.toSpan = arcs.map fun a => (a.stored f).span f.level

variable {f : Format} {arcs more : List Arc} {found others ranges : List CellRange} {p : Nat}

theorem Shows.append (shows_arcs : Shows f arcs found) (shows_more : Shows f more others) :
    Shows f (arcs ++ more) (found ++ others) := by
  unfold Shows at *
  rw [List.map_append, List.map_append, shows_arcs, shows_more]

theorem shows_singleton {a : Arc} {q : CellRange} (placed : AtLevel f q)
    (arc_eq : q.arc = a.stored f) : Shows f [a] [q] := by
  rw [Shows, List.map_singleton, List.map_singleton, q.toSpan_eq_span_arc placed, arc_eq]

theorem Shows.arcs_eq (shown : Shows f arcs found) (fits : ∀ a ∈ arcs, a.Fits f.level) :
    (∀ q ∈ found, AtLevel f q) ∧ found.map CellRange.arc = arcs.map (Arc.stored f) := by
  induction arcs generalizing found with
  | nil =>
      obtain rfl := List.map_eq_nil_iff.1 shown
      exact ⟨by simp, rfl⟩
  | cons a arcs ih =>
      obtain ⟨own, others⟩ := List.forall_mem_cons.1 fits
      cases found with
      | nil => cases shown
      | cons q found =>
          obtain ⟨head_eq, tail_eq⟩ := List.cons.inj shown
          obtain ⟨placed, arc_eq⟩ := CellRange.arc_eq_of_toSpan f.level_le own.stored head_eq
          obtain ⟨all_placed, rest⟩ := ih tail_eq others
          exact ⟨List.forall_mem_cons.2 ⟨placed, all_placed⟩, congrArg₂ List.cons arc_eq rest⟩

theorem Shows.prefixOf_start {q : CellRange} (shown : Shows f arcs found)
    (rows : Block.Rows f p arcs) (member : q ∈ found) : f.prefixOf q.start = p := by
  obtain ⟨placed, arcs_eq⟩ := shown.arcs_eq rows.fits
  have arc_member := List.mem_map_of_mem (f := CellRange.arc) member
  rw [arcs_eq] at arc_member
  obtain ⟨a, a_member, arc_eq⟩ := List.mem_map.1 arc_member
  have first_eq : q.arc.first = a.first := by
    rw [← arc_eq]
    rfl
  rw [Partition.prefixOf_start (placed q member), first_eq, rows.prefix_eq a a_member]

theorem Shows.sorted (shown : Shows f arcs found) (fits : ∀ a ∈ arcs, a.Fits f.level)
    (ordered : arcs.Pairwise Arc.Before) : Sorted found := by
  obtain ⟨placed, arcs_eq⟩ := shown.arcs_eq fits
  rw [Partition.sorted_iff_arcs placed, arcs_eq, List.pairwise_map]
  exact ordered

namespace Reader

theorem walkRows_eq {b : Block} (rows : Block.Rows f p arcs) (holds : Block.Holds f p arcs b)
    (done : Array CellRange) : ∃ found, Shows f arcs found ∧
      walkRows f b none 0 b.rows.toList done =
        { ranges := done ++ found.toArray, fault := none } := by
  have walked : ∀ (back : List Arc) (index : Nat) (done : Array CellRange), arcs.drop index = back →
      ∃ found, Shows f back found ∧ walkRows f b none index (back.map (Block.rowOf f)) done =
        { ranges := done ++ found.toArray, fault := none } := by
    intro back
    induction back with
    | nil => exact fun index done _ => ⟨[], rfl, by simp [walkRows]⟩
    | cons a back ih =>
        intro index done dropped
        have inside : index < arcs.length := by
          by_contra beyond
          rw [List.drop_eq_nil_of_le (not_lt.1 beyond)] at dropped
          contradiction
        rw [List.drop_eq_getElem_cons inside, List.cons.injEq] at dropped
        obtain ⟨head_eq, tail_eq⟩ := dropped
        obtain ⟨q, made, placed, arc_eq⟩ := Block.rangeOf_eq rows holds inside
        rw [head_eq] at made arc_eq
        obtain ⟨found, shown, rest⟩ := ih (index + 1) (done.push q) tail_eq
        refine ⟨q :: found, (shows_singleton placed arc_eq).append shown, ?_⟩
        rw [List.map_cons, walkRows, if_neg (by simp), made]
        simp only [rest]
        simp
  obtain ⟨found, shown, all⟩ := walked arcs 0 done rfl
  refine ⟨found, shown, ?_⟩
  rw [holds.rows_eq]
  exact all

variable [Container.Compression] {r : Reader}

/-- Walking over tables yields the ranges of their pieces, prefix by prefix. -/
theorem Serves.walkTables (serves : r.Serves f ranges) {count : Nat}
    (inside : p + count ≤ f.tableCount) (done : Array CellRange) : ∃ found s,
      Shows f ((List.range' p count).flatMap (piecesAt f ranges)) found ∧
      Reader.walkTables none count p r done =
        ({ ranges := done ++ found.toArray, fault := none }, s) := by
  induction count generalizing p r done with
  | zero => exact ⟨[], r, rfl, by simp [Reader.walkTables]⟩
  | succ count ih =>
      obtain ⟨b, s, read, holds, serves_still⟩ :=
        serves.block (show p < f.tableCount by omega)
      obtain ⟨here, shown, walked⟩ :=
        walkRows_eq (serves.rows p (by omega)) holds done
      obtain ⟨later, t, shown_later, walked_later⟩ :=
        ih (p := p + 1) serves_still (by omega) (done ++ here.toArray)
      refine ⟨here ++ later, t, ?_, ?_⟩
      · rw [List.range'_succ, List.flatMap_cons]
        exact shown.append shown_later
      · rw [Reader.walkTables, if_neg (by simp), read]
        simp only [serves.format_eq, walked, Option.isSome_none, Bool.false_eq_true, if_false,
          walked_later]
        simp

end Reader

/-- A file stores the reference cut of its ranges: the header, empty blocks, and for every prefix
the table of the pieces that start there, without bytes when there is none, as behind the last
face.  All ranges in order are the pieces of the ranges in order. -/
theorem pieces_of_written [Container.Compression] {compressed : Bool} {w v u : Writer}
    (roundTrips : compressed = true → Container.Compression.RoundTrips)
    (created : Writer.create f compressed = .ok w) (accepted : w.put ranges = (.ok (), v))
    (closed : v.close = (.ok (), u)) (path : String) :
    ∃ r, Reader.ofBytes path u.contents Expected.nothing = .ok r ∧
      r.container.blockCount = f.firstTable + f.tableCount ∧
      (∃ header, Header.decode Header.blockType header = .ok f ∧ r.container.read 0 =
        .ok { id := 0, type := Header.blockType, extra := [], payload := header }) ∧
      (∀ i : Nat, 1 ≤ i → i < f.firstTable → r.container.read i =
        .ok { id := i, type := paddingType, extra := [], payload := [] }) ∧
      (∀ p : Nat, p < f.tableCount → ∃ payload b found,
        r.container.read (f.firstTable + p) =
          .ok { id := f.firstTable + p, type := tableType, extra := [], payload } ∧
        (payload = [] ↔ piecesAt f ranges p = []) ∧
        Block.load f p (f.firstTable + p) payload = .ok b ∧
        Reader.walkRows f b none 0 b.rows.toList #[] =
          { ranges := found.toArray, fault := none } ∧
        Shows f (piecesAt f ranges p) found ∧ ∀ q ∈ found, f.prefixOf q.start = p) ∧
      (∀ p : Nat, Partition.livePrefixes f ≤ p → piecesAt f ranges p = []) ∧
      ∀ earlier : List Cell, ∃ found, ((r.lookups earlier).ranges).1 = .ok found ∧
        Shows f (storedPieces f ranges) found ∧ Sorted found := by
  obtain ⟨tables, container, held, ready, tables_eq, holds, opened⟩ :=
    Reader.opens_written roundTrips created accepted closed path
  have serves := Reader.serves_of_holds ready held tables_eq holds
  refine ⟨_, opened, ?_, ?_, ?_, ?_, ?_, ?_⟩
  · rw [holds.blockCount_eq, v.length_items, ready.format_eq, tables_eq, List.size_toArray,
      List.length_map, held.length_eq]
  · exact ⟨v.header, Header.decode_encode ready.header_stored, holds.read_eq 0 _ v.items_header⟩
  · intro i behind before
    exact holds.read_eq i _ (v.items_padding behind (by rwa [ready.format_eq]))
  · intro p inside
    have bound : p < tables.length := held.length_eq ▸ inside
    obtain ⟨empty_iff, rows, b, loaded, pieces⟩ := held.holds bound
    obtain ⟨found, shown, walked⟩ := Reader.walkRows_eq rows pieces #[]
    refine ⟨_, b, found, Reader.read_table ready tables_eq holds bound, empty_iff, loaded _, ?_,
      shown, ?_⟩
    · rw [walked, Array.empty_append]
    · exact fun q member => shown.prefixOf_start rows member
  · exact fun p dead => Partition.piecesAt_eq_nil held.atLevel dead
  · intro earlier
    obtain ⟨found, s, shown, walked⟩ :=
      (serves.lookups earlier).walkTables (p := 0) (Nat.zero_add f.tableCount).le #[]
    rw [← List.range_eq_range', held.flatMap_piecesAt] at shown
    refine ⟨found, ?_, shown, shown.sorted ?_ held.sorted_pieces⟩
    · rw [Reader.ranges, Reader.walk, (serves.lookups earlier).format_eq, walked]
      simp
    · intro a member
      obtain ⟨s, s_member, part⟩ := List.mem_flatMap.1 member
      exact Partition.fits_of_mem_pieces (s.fits_arc (held.atLevel s s_member)) part

theorem storedPieces_small : storedPieces smallFormat [spanningRange, wrappingRange] = [
    { first := 14, past := 16, value := 7 }, { first := 16, past := 31, value := 7 },
    { first := 31, past := 32, value := 7 }, { first := 32, past := 33, value := 7 },
    { first := 90, past := 96, value := 9 }] := by
  have spanning : Partition.pieces smallFormat { first := 14, past := 33, value := 7 } = [
      { first := 14, past := 16, value := 7 }, { first := 16, past := 31, value := 7 },
      { first := 31, past := 32, value := 7 }, { first := 32, past := 33, value := 7 }] := by
    simp [Partition.pieces, Partition.segments, Partition.rowsOf, Arc.cut, Format.prefixEnd,
      Format.prefixCells, Format.longest, Format.lengthBits, Format.rowBits, smallFormat]
  have wrapping : Partition.pieces smallFormat { first := 90, past := 96, value := 9 } =
      [{ first := 90, past := 96, value := 9 }] := by
    simp [Partition.pieces, Partition.segments, Partition.rowsOf, Arc.cut, Format.prefixEnd,
      Format.prefixCells, Format.longest, Format.lengthBits, Format.rowBits, smallFormat]
  rw [storedPieces, List.flatMap_cons, List.flatMap_cons,
    show spanningRange.arc = { first := 14, past := 33, value := 7 } by decide,
    show wrappingRange.arc = { first := 90, past := 96, value := 9 } by decide, spanning, wrapping]
  rfl

/-- The range over three prefixes is stored in four pieces, because a row cannot count all cells of
the prefix between, and the prefix behind them stores none. -/
theorem pieces_of_written_small : ∃ w v u : Writer, ∃ r : Reader,
    Writer.create smallFormat true = .ok w ∧
    w.put [spanningRange, wrappingRange] = (.ok (), v) ∧ v.close = (.ok (), u) ∧
    Reader.ofBytes "small" u.contents Expected.nothing = .ok r ∧ r.container.blockCount = 10 ∧
    r.container.read 5 = .ok { id := 5, type := tableType, extra := [], payload := [] } ∧
    ∃ found, r.ranges.1 = .ok found ∧ Shows smallFormat [
      { first := 14, past := 16, value := 7 }, { first := 16, past := 31, value := 7 },
      { first := 31, past := 32, value := 7 }, { first := 32, past := 33, value := 7 },
      { first := 90, past := 96, value := 9 }] found := by
  obtain ⟨w, v, u, created, accepted, closed⟩ := exists_written_small
  obtain ⟨r, opened, blockCount_eq, -, -, tables, -, ranges_eq⟩ :=
    pieces_of_written (fun _ => Container.Frame.roundTrips) created accepted closed "small"
  refine ⟨w, v, u, r, created, accepted, closed, opened, blockCount_eq, ?_, ?_⟩
  · obtain ⟨payload, b, found, read, empty_iff, -⟩ := tables 3 (by decide)
    have none_there : piecesAt smallFormat [spanningRange, wrappingRange] 3 = [] := by
      rw [piecesAt, storedPieces_small]
      decide
    rw [empty_iff.2 none_there] at read
    exact read
  · obtain ⟨found, walked, shown, -⟩ := ranges_eq []
    rw [storedPieces_small] at shown
    exact ⟨found, walked, shown⟩

end Geofence.RangeFile
