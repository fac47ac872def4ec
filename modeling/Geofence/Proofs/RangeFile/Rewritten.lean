/-
# Geofence.Proofs.RangeFile.Rewritten -- files written again

What a reader enumerates are the pieces that the writer made, and these leave
the same tables as the ranges did.  So a file whose ranges are read and written
again in the format that the reader found is the same file, byte by byte
(`written_again`).
-/
import Geofence.Proofs.Partition.Alike
import Geofence.Proofs.RangeFile.Access
import Geofence.Proofs.RangeFile.Ranges

namespace Geofence.RangeFile

set_option autoImplicit false

open Geofence.Partition (AtLevel SamePieces TablesOf storedPieces)

variable {f : Format} {ranges found : List CellRange} {w v : Writer} {compressed : Bool}

theorem fits_of_mem_storedPieces (atLevel : ∀ r ∈ ranges, AtLevel f r) :
    ∀ a ∈ storedPieces f ranges, a.Fits f.level := by
  intro a member
  obtain ⟨r, r_member, part⟩ := List.mem_flatMap.1 member
  exact Partition.fits_of_mem_pieces (r.fits_arc (atLevel r r_member)) part

/-- Of ranges and of what is shown of their pieces a file keeps the same. -/
theorem Shows.samePieces (shown : Shows f (storedPieces f ranges) found)
    (atLevel : ∀ r ∈ ranges, AtLevel f r) :
    (∀ q ∈ found, AtLevel f q) ∧ SamePieces f ranges found := by
  obtain ⟨placed, arcs_eq⟩ := shown.arcs_eq (fits_of_mem_storedPieces atLevel)
  exact ⟨placed, Partition.samePieces_of_arcs atLevel arcs_eq⟩

/-- A writer that accepts ranges accepts every list of which a file keeps the same, and is left as
the same writer. -/
theorem Writer.put_of_samePieces (created : create f compressed = .ok w)
    (accepted : w.put ranges = (.ok (), v)) (placed : ∀ q ∈ found, AtLevel f q)
    (same : SamePieces f ranges found) : w.put found = (.ok (), v) := by
  obtain ⟨ready, no_tables⟩ := create_ok created
  rw [put_eq no_tables, ready.format_eq] at accepted ⊢
  obtain ⟨result_eq, v_eq⟩ := Prod.mk.inj accepted
  have done : Partition.tables f ranges = ((Partition.tables f ranges).1, .ok ()) :=
    Prod.ext rfl result_eq
  rw [Partition.tables_eq_of_samePieces done placed same, v_eq]

section

variable [Container.Compression] {r : Reader} {tables : List (List CellRange × List UInt8)}

/-- A reader of the tables of some ranges enumerates their pieces. -/
theorem Reader.Serves.ranges_eq (serves : r.Serves f ranges) (held : TablesOf f ranges tables) :
    ∃ found, r.ranges.1 = .ok found ∧ Shows f (storedPieces f ranges) found := by
  obtain ⟨found, s, shown, walked⟩ := serves.walkTables (p := 0) (Nat.zero_add f.tableCount).le #[]
  rw [← List.range_eq_range', held.flatMap_piecesAt] at shown
  refine ⟨found, ?_, shown⟩
  rw [Reader.ranges, Reader.walk, serves.format_eq, walked]
  simp

/-- A file whose ranges are read and written again, in the format of the file and compressed or not
as before, is the same file. -/
theorem written_again {bytes : ByteArray}
    (roundTrips : compressed = true → Container.Compression.RoundTrips)
    (written : Written f compressed ranges bytes) (path : String) :
    ∃ r found, Reader.ofBytes path bytes Expected.nothing = .ok r ∧ r.format = f ∧
      r.ranges.1 = .ok found ∧ Written r.format compressed found bytes := by
  obtain ⟨w, v, u, created, accepted, closed, rfl⟩ := written
  obtain ⟨tables, container, held, ready, tables_eq, holds, opened⟩ :=
    Reader.opens_written roundTrips created accepted closed path
  have serves := Reader.serves_of_holds ready held tables_eq holds
  obtain ⟨found, read, shown⟩ := serves.ranges_eq held
  obtain ⟨placed, same⟩ := shown.samePieces held.atLevel
  exact ⟨_, found, opened, rfl, read, w, v, u, created,
    Writer.put_of_samePieces created accepted placed same, closed, rfl⟩

end

/-- The range over three prefixes is read in four pieces, which are written to the same bytes. -/
theorem written_again_small : ∃ (bytes : ByteArray) (r : Reader) (found : List CellRange),
    Written smallFormat false [spanningRange, wrappingRange] bytes ∧
    Reader.ofBytes "small" bytes Expected.nothing = .ok r ∧ r.ranges.1 = .ok found ∧
    found ≠ [spanningRange, wrappingRange] ∧ Written r.format false found bytes := by
  have session : (do
      let w ← Writer.create smallFormat false
      (w.put [spanningRange, wrappingRange]).1
      (w.put [spanningRange, wrappingRange]).2.close.1
      let r ← Reader.ofBytes "small" (w.put [spanningRange, wrappingRange]).2.close.2.contents
        Expected.nothing
      let found ← r.ranges.1
      return found.length) = .ok 5 := by decide +kernel
  obtain ⟨w, created, session⟩ := Outcome.bind_eq_ok.1 session
  obtain ⟨_, accepted, session⟩ := Outcome.bind_eq_ok.1 session
  obtain ⟨_, closed, session⟩ := Outcome.bind_eq_ok.1 session
  have written : Written smallFormat false [spanningRange, wrappingRange]
      (w.put [spanningRange, wrappingRange]).2.close.2.contents :=
    ⟨w, _, _, created, Prod.ext accepted rfl, Prod.ext closed rfl, rfl⟩
  obtain ⟨r, found, opened, -, read, again⟩ :=
    written_again (fun on => absurd on Bool.false_ne_true) written "small"
  rw [opened, Outcome.ok_bind, read, Outcome.ok_bind] at session
  have length_eq : found.length = 5 := Except.ok.inj session
  refine ⟨_, r, found, written, opened, read, ?_, again⟩
  rintro rfl
  contradiction

end Geofence.RangeFile
