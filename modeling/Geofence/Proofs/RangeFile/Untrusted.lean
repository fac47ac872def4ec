/-
# Geofence.Proofs.RangeFile.Untrusted -- lookups in files of any bytes

A file that is opened may hold anything behind its header.  A lookup of a cell of
its level finds nothing, blames the bytes, or finds a range that holds the cell,
lies in the prefix of the cell and ends there or on the first cell of the next
prefix.  No other fault escapes, and it does not matter what the reader was asked
before (`lookup_of_untrusted`).
-/
import Geofence.Proofs.RangeFile.Calls
import Geofence.Proofs.RangeFile.Opening
import Geofence.Proofs.RangeFile.Writer

namespace Geofence.RangeFile

set_option autoImplicit false

/-- The range `q` holds a cell and is one that a row of the table of its prefix can stand for. -/
structure RowAround (f : Format) (c : Cell) (q : CellRange) : Prop where
  holds : q.contains c = true
  level_eq : q.level = f.level
  prefix_eq : f.prefixOf q.start = f.prefixOf c
  /-- It ends in the prefix of the cell, or on the first cell of the next prefix. -/
  stop_near : f.prefixOf q.stop = f.prefixOf c ∨ f.cellPastPrefix (f.prefixOf c) = .ok q.stop

variable {f : Format} {k : Nat}

theorem rowAround_of_arc {p : Nat} {q : CellRange} (placed : Partition.AtLevel f q)
    (lower : p * f.prefixCells ≤ q.arc.first) (upper : q.arc.past ≤ (p + 1) * f.prefixCells)
    (within : q.arc.first ≤ k ∧ k < q.arc.past) :
    RowAround f (Cell.nth f.level k) q := by
  have fits := q.fits_arc placed
  have inside : k < Cell.count f.level := within.2.trans_le fits.past_le_count
  have prefix_of {j : Nat} (lower : p * f.prefixCells ≤ j) (upper : j < (p + 1) * f.prefixCells) :
      j / f.prefixCells = p := Nat.div_eq_of_lt_le lower upper
  have k_prefix := prefix_of (lower.trans within.1) (within.2.trans_le upper)
  have first_prefix := prefix_of lower (fits.first_lt_past.trans_le upper)
  have past_le : q.arc.past ≤ f.prefixEnd q.arc.first := by
    rwa [Format.prefixEnd, first_prefix]
  have same_prefix := k_prefix.trans first_prefix.symm
  refine ⟨(CellRange.contains_nth placed inside).2 within, placed, ?_, ?_⟩
  · rw [q.start_eq_nth placed, f.prefixOf_nth, f.prefixOf_nth, same_prefix]
  · exact Partition.stop_near_of_past_le placed past_le same_prefix

namespace Reader

/-- A sound table answers with a range around the cell, or its bytes are corrupt. -/
theorem findIn_sound {p : Nat} {b : Block} (sound : Block.Sound p b)
    (inside : k < Cell.count f.level) (placed : k / f.prefixCells = p) :
    (∃ fault, findIn f b (Cell.nth f.level k) = .error fault ∧ fault.kind = .corrupt) ∨
      ∃ found, findIn f b (Cell.nth f.level k) = .ok found ∧
        ∀ q, found = some q → RowAround f (Cell.nth f.level k) q := by
  have live : p < Partition.livePrefixes f := placed ▸ f.prefix_lt_livePrefixes inside
  unfold findIn
  rcases sound.find inside placed with missed | ⟨i, row, found, below, row_read, lower, upper⟩
  · rw [missed]
    exact Or.inr ⟨none, rfl, nofun⟩
  rw [found, Outcome.ok_bind]
  dsimp only
  rw [row_read, Outcome.ok_bind]
  rcases sound.rangeOf live below row with
    ⟨fault, refused, corrupt⟩ | ⟨q, made, q_placed, first_eq, past_eq, past_le⟩
  · rw [refused]
    exact Or.inl ⟨fault, rfl, corrupt⟩
  · rw [made]
    refine Or.inr ⟨some q, rfl, ?_⟩
    rintro _ ⟨⟩
    exact rowAround_of_arc q_placed (by omega) past_le (by omega)

variable [Container.Compression] {r : Reader}

theorem blames_load (open_eq : r.closed = false)
    (counted : r.container.blockCount = r.format.firstTable + r.format.tableCount) {p : Nat}
    (inside : p < r.format.tableCount) : Blames {.corrupt} (r.load p) := by
  refine .bind (Container.Reader.blames_read open_eq (by omega)) fun stored _ => ?_
  dsimp only
  split
  · exact .error rfl
  · exact Block.blames_load _ _ _ _

/-- A reader that was opened keeps no table. -/
theorem faithful_of_ofBytes {path : String} {bytes : ByteArray} {expected : Expected}
    (opened : ofBytes path bytes expected = .ok r) : r.Faithful := by
  rintro b last
  rw [(ofBytes_ok opened).2.1] at last
  contradiction

end Reader

/-- A reader that was opened answers a lookup with nothing, with a range around the cell, or with
the fault that the bytes are corrupt, whatever it was asked before. -/
theorem lookup_of_untrusted [Container.Compression] {path : String} {bytes : ByteArray}
    {expected : Expected} {r : Reader} (opened : Reader.ofBytes path bytes expected = .ok r)
    (calls : List Reader.Call) (open_still : (r.after calls).closed = false) {c : Cell}
    (valid : Cell.isValid c = true) (depth_eq : Cell.depth c = r.format.level) :
    (∃ fault, ((r.after calls).find c).1 = .error fault ∧ fault.kind = .corrupt) ∨
      ∃ found, ((r.after calls).find c).1 = .ok found ∧
        ∀ q, found = some q → RowAround r.format c q := by
  obtain ⟨open_eq, unread, counted⟩ := Reader.ofBytes_ok opened
  have faithful : r.Faithful := by
    rintro b last
    rw [unread] at last
    contradiction
  obtain ⟨-, inside, c_eq⟩ := Cell.nth_index valid depth_eq
  generalize Cell.index c = k at inside c_eq
  subst c_eq
  have below := (r.format.prefix_lt_livePrefixes inside).trans r.format.livePrefixes_lt_tableCount
  have within : 0 ≤ r.format.prefixOf (Cell.nth r.format.level k) ∧
      r.format.prefixOf (Cell.nth r.format.level k) ≤ r.format.greatestPrefix := by
    rw [r.format.prefixOf_nth]
    exact ⟨Int.natCast_nonneg _, Int.ofNat_le.2 (Nat.le_sub_one_of_lt below)⟩
  have agrees := (Reader.Agrees.refl faithful).after calls open_still
  rw [(agrees.find _).1, Reader.find_eq_load faithful open_eq valid depth_eq within,
    r.format.prefixOf_nth]
  cases loaded : r.load ((k / r.format.prefixCells : Nat) : Int) with
  | error fault => exact Or.inl ⟨fault, rfl, Reader.blames_load open_eq counted below _ loaded⟩
  | ok b => exact Reader.findIn_sound (Reader.sound_of_load loaded) inside rfl

/-- A table that no writer makes: the second of its rows starts in front of the first, overlaps it
and runs past the prefix. -/
def strayTable : List UInt8 :=
  [1, 4, 0, 0, 0, 0, 0, 10, 0, 0, 0, 2, 0, 0, 0, 0, 0, 0, 0, 2, 7, 9, 0x59, 0x2f]

/-- A lookup that ends on the first row finds its range, and after that one that ends on the second
row blames the bytes. -/
theorem lookup_of_untrusted_small : ∃ (w : Writer) (r : Reader),
    Writer.create smallFormat false = .ok w ∧
    Reader.ofBytes "small" ({ w with
      tables := #[strayTable, [], [], [], [], [], [], []] }).close.2.contents Expected.nothing =
        .ok r ∧
    (∃ q, (r.find (Cell.nth 2 6)).1 = .ok (some q) ∧ RowAround smallFormat (Cell.nth 2 6) q) ∧
    ∃ fault, ((r.after [.find (Cell.nth 2 6), .walk (some 1)]).find (Cell.nth 2 14)).1 =
      .error fault ∧ fault.kind = .corrupt := by
  have session : (do
      let w ← Writer.create smallFormat false
      let r ← Reader.ofBytes "small" ({ w with
        tables := #[strayTable, [], [], [], [], [], [], []] }).close.2.contents Expected.nothing
      let q ← (r.find (Cell.nth 2 6)).1
      let s := r.after [.find (Cell.nth 2 6), .walk (some 1)]
      return (r.format, q.isSome, s.closed, (s.find (Cell.nth 2 14)).1.isOk)) =
        .ok (smallFormat, true, false, false) := by decide +kernel
  obtain ⟨w, created, session⟩ := Outcome.bind_eq_ok.1 session
  obtain ⟨r, opened, session⟩ := Outcome.bind_eq_ok.1 session
  obtain ⟨q, found, session⟩ := Outcome.bind_eq_ok.1 session
  obtain ⟨format_eq, some_found, open_still, refused⟩ : _ ∧ _ ∧ _ ∧ _ := by
    simpa using Except.ok.inj session
  refine ⟨w, r, created, opened, ?_, ?_⟩
  · have first := lookup_of_untrusted opened [] (Reader.ofBytes_ok opened).1
      (c := Cell.nth 2 6) (by decide) (by rw [format_eq]; decide)
    rw [show r.after [] = r from rfl, found, format_eq] at first
    obtain ⟨fault, answer, -⟩ | ⟨_, answer, around⟩ := first
    · cases answer
    · obtain ⟨q, rfl⟩ := Option.isSome_iff_exists.1 some_found
      exact ⟨q, found, around q (Except.ok.inj answer).symm⟩
  · have second := lookup_of_untrusted opened _ open_still
      (c := Cell.nth 2 14) (by decide) (by rw [format_eq]; decide)
    obtain blamed | ⟨_, answer, -⟩ := second
    · exact blamed
    · rw [answer] at refused
      cases refused

end Geofence.RangeFile
