/-
# Geofence.Proofs.RangeFile.Refused -- ranges that are refused

A writer refuses ranges for their order only, as long as their numbers fit
(`accepted_iff_sorted`).  What a caller makes of the writer afterwards matters:
closing it stores the tables made before the fault, and a file with too few
tables is never opened (`refused_of_some_tables`).  But where the very first
prefix was refused there are no tables, and closing takes that for a file of no
ranges.  Such a file is opened, and its reader finds nothing
(`serves_of_no_tables`).
-/
import Geofence.Proofs.Partition.Sorted
import Geofence.Proofs.RangeFile.Lookup

namespace Geofence.RangeFile

set_option autoImplicit false

open Geofence.Partition (Sorted StepRefused)

variable {f : Format} {compressed : Bool} {w v : Writer} {ranges : List CellRange}

/-- A writer without tables accepts just the ranges of which each ends before the next starts, and
refuses all others for their order. -/
theorem accepted_iff_sorted (no_tables : w.tables = #[]) (prefixBits_le : w.format.prefixBits ≤ 32)
    (suffixBits_le : w.format.suffixBits ≤ 28) (level_eq : ∀ r ∈ ranges, r.level = w.format.level)
    (fitting : 0 < w.format.valueSize → ∀ r ∈ ranges, r.value ≤ w.format.greatestValue) :
    ((w.put ranges).1 = .ok () ↔ Sorted ranges) ∧
      (¬Sorted ranges → ∃ fault, (w.put ranges).1 = .error fault ∧ fault.kind = .contract) := by
  rw [Writer.put_eq no_tables]
  exact Partition.tables_ok_iff_sorted prefixBits_le suffixBits_le level_eq fitting

/-- The same two ranges are accepted in order and refused out of order. -/
theorem accepted_iff_sorted_small : ∃ w : Writer, Writer.create smallFormat true = .ok w ∧
    (w.put [spanningRange, wrappingRange]).1 = .ok () ∧
    ∃ fault, (w.put [wrappingRange, spanningRange]).1 = .error fault ∧ fault.kind = .contract := by
  obtain ⟨w, v, u, created, -, -⟩ := exists_written_small
  obtain ⟨ready, no_tables⟩ := Writer.create_ok created
  have accepts (ranges : List CellRange) (level_eq : ∀ r ∈ ranges, r.level = 2)
      (fitting : ∀ r ∈ ranges, r.value ≤ 255) : ((w.put ranges).1 = .ok () ↔ Sorted ranges) ∧
        (¬Sorted ranges → ∃ fault, (w.put ranges).1 = .error fault ∧ fault.kind = .contract) :=
    accepted_iff_sorted no_tables (by rw [ready.format_eq]; decide)
      (by rw [ready.format_eq]; decide) (by rwa [ready.format_eq])
      (fun _ => by rwa [ready.format_eq])
  refine ⟨w, created, ?_, ?_⟩
  · exact (accepts _ (by decide) (by decide)).1.2 (by decide)
  · exact (accepts _ (by decide) (by decide)).2 (by decide)

namespace Reader

variable [Container.Compression]

/-- A file with some tables, but not all, is not opened. -/
theorem refused_of_some_tables (roundTrips : compressed = true → Container.Compression.RoundTrips)
    (ready : w.Ready f compressed) (some_tables : w.tables ≠ #[])
    (too_few : w.tables.size < f.tableCount) (path : String) :
    ∃ cause, ofBytes path w.close.2.contents Expected.nothing = .error cause := by
  rw [ready.close_eq some_tables]
  cases closed : w.blocks.close with
  | mk result stored =>
      cases result with
      | error fault => exact ofBytes_unstored ready closed path
      | ok u =>
          obtain ⟨container, holds, opened⟩ := ofBytes_stored roundTrips ready closed path
          rw [ofContainer_eq ready holds, if_neg too_few.ne] at opened
          exact ⟨_, opened⟩

/-- A file closed without tables is opened as the file of no ranges, if it could be closed. -/
theorem serves_of_no_tables (roundTrips : compressed = true → Container.Compression.RoundTrips)
    (ready : w.Ready f compressed) (no_tables : w.tables = #[]) (path : String) :
    (w.close.1 = .ok () ∧ ∃ r, ofBytes path w.close.2.contents Expected.nothing = .ok r ∧
      r.Serves f []) ∨
    (∃ fault, w.close.1 = .error fault) ∧
      ∃ cause, ofBytes path w.close.2.contents Expected.nothing = .error cause := by
  obtain ⟨v, filled⟩ := Writer.put_nil no_tables
  obtain ⟨v_ready, -⟩ := Writer.put_ok ready no_tables filled
  rw [ready.close_eq_of_no_tables no_tables filled]
  cases closed : v.blocks.close with
  | mk result stored =>
      cases result with
      | error fault => exact Or.inr ⟨⟨fault, rfl⟩, ofBytes_unstored v_ready closed path⟩
      | ok u =>
          obtain ⟨tables, container, held, -, tables_eq, holds, opened⟩ :=
            opens_stored roundTrips ready no_tables filled closed path
          exact Or.inl ⟨rfl, _, opened, serves_of_holds v_ready held tables_eq holds⟩

theorem Serves.find_eq_none {r : Reader} {c : Cell} (serves : r.Serves f [])
    (valid : Cell.isValid c = true) (depth_eq : Cell.depth c = f.level) :
    (r.find c).1 = .ok none := by
  obtain ⟨found, answer, none_iff, -⟩ := serves.find_answers valid depth_eq
  rw [answer, none_iff.2 (by simp)]

end Reader

/-! ## Closing after a fault -/

def innerRange : CellRange where
  start := Cell.nth 2 3
  stop := Cell.nth 2 6
  value := 5
  start_valid := by decide
  stop_valid := by decide
  depth_eq := by decide
  ordered := by decide
  value_nonneg := by decide

/-- Ranges that overlap in the first prefix are refused before any table is made. -/
theorem exists_refused_small : ∃ w v : Writer, Writer.create smallFormat true = .ok w ∧
    w.put [innerRange, innerRange] =
      (.error (.overlapping innerRange.toSpan innerRange.toSpan), v) ∧
    v.tables = #[] ∧ v.close.1 = .ok () := by
  have refused : (do
      let w ← Writer.create smallFormat true
      (w.put [innerRange, innerRange]).1) =
        .error (.overlapping innerRange.toSpan innerRange.toSpan) := by decide +kernel
  have made : (do
      let w ← Writer.create smallFormat true
      return (w.put [innerRange, innerRange]).2.tables) = .ok #[] := by decide +kernel
  have closed : (do
      let w ← Writer.create smallFormat true
      (w.put [innerRange, innerRange]).2.close.1) = .ok () := by decide +kernel
  obtain ⟨w, created, made⟩ := Outcome.bind_eq_ok.1 made
  rw [created] at refused closed
  exact ⟨w, _, created, Prod.ext refused rfl, Except.ok.inj made, closed⟩

/-- Ranges that overlap further on are refused after some tables were made. -/
theorem exists_refused_later_small : ∃ (w v : Writer) (fault : Fault),
    Writer.create smallFormat true = .ok w ∧
    w.put [spanningRange, spanningRange] = (.error fault, v) ∧ v.tables.size = 2 := by
  have made : (do
      let w ← Writer.create smallFormat true
      return (w.put [spanningRange, spanningRange]).2.tables.size) = .ok 2 := by decide +kernel
  have refused : (do
      let w ← Writer.create smallFormat true
      (w.put [spanningRange, spanningRange]).1) =
        .error (.prefixOutOfOrder 2 0 spanningRange.toSpan) := by decide +kernel
  obtain ⟨w, created, made⟩ := Outcome.bind_eq_ok.1 made
  rw [created] at refused
  exact ⟨w, _, _, created, Prod.ext refused rfl, Except.ok.inj made⟩

/-- When ranges were refused and the writer is closed nevertheless, the file is refused as well,
unless the fault came with the first prefix and closing went through: then the file is opened, and
no cell is found in it. -/
theorem opened_iff_of_refused [Container.Compression] {fault : Fault}
    (roundTrips : compressed = true → Container.Compression.RoundTrips)
    (created : Writer.create f compressed = .ok w) (refused : w.put ranges = (.error fault, v))
    (path : String) :
    ((∃ cause, Reader.ofBytes path v.close.2.contents Expected.nothing = .error cause) ↔
      ¬(StepRefused f 0 (.ofList ranges) fault ∧ v.close.1 = .ok ())) ∧
    (StepRefused f 0 (.ofList ranges) fault → v.close.1 = .ok () →
      ∃ r, Reader.ofBytes path v.close.2.contents Expected.nothing = .ok r ∧ r.format = f ∧
        ∀ (earlier : List Cell) (c : Cell), Cell.isValid c = true → Cell.depth c = f.level →
          ((r.lookups earlier).find c).1 = .ok none) := by
  obtain ⟨w_ready, no_tables⟩ := Writer.create_ok created
  obtain ⟨ready, too_few, first_iff⟩ := Writer.put_refused w_ready no_tables refused
  rw [← first_iff]
  by_cases first : v.tables = #[]
  · rcases Reader.serves_of_no_tables roundTrips ready first path with
      ⟨closed, r, opened, serves⟩ | ⟨⟨cause, unclosed⟩, unopened⟩
    · refine ⟨iff_of_false ?_ (not_not.2 ⟨first, closed⟩), ?_⟩
      · rintro ⟨cause, unopened⟩
        rw [opened] at unopened
        cases unopened
      · intro _ _
        refine ⟨r, opened, serves.format_eq, ?_⟩
        intro earlier c valid depth_eq
        exact (serves.lookups earlier).find_eq_none valid depth_eq
    · have open_failed : ¬v.close.1 = .ok () := by
        rw [unclosed]
        nofun
      exact ⟨iff_of_true unopened fun both => open_failed both.2,
        fun _ closed => absurd closed open_failed⟩
  · have unopened := Reader.refused_of_some_tables roundTrips ready first too_few path
    exact ⟨iff_of_true unopened fun both => first both.1, fun empty => absurd empty first⟩

/-- With a fault in the first prefix the file is opened, with a fault further on it is refused. -/
theorem opened_iff_of_refused_small :
    (∃ (w v : Writer) (r : Reader), Writer.create smallFormat true = .ok w ∧
      w.put [innerRange, innerRange] =
        (.error (.overlapping innerRange.toSpan innerRange.toSpan), v) ∧ v.close.1 = .ok () ∧
      Reader.ofBytes "small" v.close.2.contents Expected.nothing = .ok r ∧
      r.format = smallFormat) ∧
    ∃ (w v : Writer) (fault cause : Fault), Writer.create smallFormat true = .ok w ∧
      w.put [spanningRange, spanningRange] = (.error fault, v) ∧
      Reader.ofBytes "small" v.close.2.contents Expected.nothing = .error cause := by
  constructor
  · obtain ⟨w, v, created, refused, no_tables, closed⟩ := exists_refused_small
    obtain ⟨w_ready, w_empty⟩ := Writer.create_ok created
    have first := (Writer.put_refused w_ready w_empty refused).2.2.1 no_tables
    obtain ⟨r, opened, format_eq, -⟩ :=
      (opened_iff_of_refused (fun _ => Container.Frame.roundTrips) created refused "small").2
        first closed
    exact ⟨w, v, r, created, refused, closed, opened, format_eq⟩
  · obtain ⟨w, v, fault, created, refused, size_eq⟩ := exists_refused_later_small
    obtain ⟨w_ready, w_empty⟩ := Writer.create_ok created
    have later : ¬StepRefused smallFormat 0 (.ofList [spanningRange, spanningRange]) fault := by
      rw [← (Writer.put_refused w_ready w_empty refused).2.2]
      rintro no_tables
      rw [no_tables] at size_eq
      contradiction
    obtain ⟨cause, unopened⟩ :=
      (opened_iff_of_refused (fun _ => Container.Frame.roundTrips) created refused "small").1.2
        fun both => later both.1
    exact ⟨w, v, fault, cause, created, refused, unopened⟩

/-- The range refused holds a cell, and the file that is opened does not. -/
theorem opened_although_refused : ∃ (w v : Writer) (r : Reader),
    Writer.create smallFormat true = .ok w ∧
    w.put [innerRange, innerRange] =
      (.error (.overlapping innerRange.toSpan innerRange.toSpan), v) ∧ v.close.1 = .ok () ∧
    Reader.ofBytes "small" v.close.2.contents Expected.nothing = .ok r ∧
    innerRange.contains (Cell.nth 2 4) = true ∧ (r.find (Cell.nth 2 4)).1 = .ok none := by
  obtain ⟨w, v, created, refused, -, closed⟩ := exists_refused_small
  have session : (do
      let w ← Writer.create smallFormat true
      let r ← Reader.ofBytes "small" (w.put [innerRange, innerRange]).2.close.2.contents
        Expected.nothing
      (r.find (Cell.nth 2 4)).1) = .ok none := by decide +kernel
  rw [created, Outcome.ok_bind, refused] at session
  obtain ⟨r, opened, missed⟩ := Outcome.bind_eq_ok.1 session
  exact ⟨w, v, r, created, refused, closed, opened, by decide, missed⟩

end Geofence.RangeFile
