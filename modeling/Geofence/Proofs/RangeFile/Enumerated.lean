/-
# Geofence.Proofs.RangeFile.Enumerated -- all ranges of files of any bytes

Unlike a lookup, an enumeration visits every table and every row, those that no
cell leads to included.  What is wrong with a table or with a row is blamed on the
bytes, with one exception.  The tables behind those of face 5 have prefixes that
no cell has.  There a row that counts cells of its prefix passes all checks, and
the start of its range is refused as if a caller had handed it over
(`Block.Sound.rangeOf_beyond`).  An enumeration that comes to such a row is
refused in this way, and all others end or blame the bytes
(`enumeration_blames_iff`).  One row is enough for that
(`beyondTable_blames_argument`).
-/
import Geofence.Proofs.RangeFile.Untrusted

namespace Geofence

set_option autoImplicit false

theorem CellRange.of_invalid_start {start stop : Cell} {value : Int}
    (invalid : Cell.isValid start ≠ true) : of start stop value = .error (.invalidCell start) :=
  dif_neg invalid

namespace Block

variable {f : Format} {p i : Nat} {b : Block} {row : Row}

/-- In a table that no cell leads to, a row that counts cells of the prefix is refused for the start
of its range. -/
theorem Sound.rangeOf_beyond (sound : Sound p b) (beyond : Partition.livePrefixes f ≤ p)
    (bounded : p < f.tableCount) (inside : i < b.rows.size) (inPrefix : row.InPrefix f) :
    b.rangeOf f i row =
      .error (.invalidCell (Cell.nth f.level (p * f.prefixCells + row.key))) := by
  have bounded : p ≤ f.greatestPrefix := Nat.le_sub_one_of_lt bounded
  have whole : f.greatestSuffix + 1 = f.prefixCells := Nat.sub_add_cancel f.prefixCells_pos
  have no_cell : Cell.isValid (Cell.nth f.level (p * f.prefixCells + row.key)) ≠ true := by
    rw [Ne, Cell.isValid_nth_iff f.level_le, f.count_level, not_lt]
    exact (Nat.mul_le_mul_right _ beyond).trans (Nat.le_add_right _ _)
  have stops : ∃ stop, (if row.key + (f.lengthOfRowValue row.value).toNat ≤ f.greatestSuffix then
      f.cellOf p ((row.key + (f.lengthOfRowValue row.value).toNat : Nat) : Int)
      else f.cellPastPrefix p) = .ok stop := by
    split
    · exact ⟨_, f.cellOf_eq bounded (by omega)⟩
    · rw [Format.cellPastPrefix, f.nextPrefix_beyond (Nat.le_succ_of_le beyond)]
      exact ⟨_, f.cellOf_eq (p := 0) (s := 0) (Nat.zero_le _) f.prefixCells_pos⟩
  obtain ⟨stop, stop_eq⟩ := stops
  obtain ⟨v, -, range_eq⟩ := sound.rangeOf_of_inPrefix bounded inside inPrefix stop_eq
  rw [range_eq, CellRange.of_invalid_start no_cell]

end Block

namespace RangeFile.Reader

/-! ## Rows of one table -/

theorem no_limit (done : Array CellRange) : ¬(none : Option Nat) = some done.size :=
  nofun

theorem fault_walkRows (f : Format) (b : Block) (i : Nat) (rows : List Row)
    (done : Array CellRange) :
    (walkRows f b none i rows done).fault = (walkRows f b none i rows #[]).fault := by
  induction rows generalizing i done with
  | nil => rfl
  | cons row rows ih =>
      rw [walkRows, walkRows, if_neg (no_limit _), if_neg (no_limit _)]
      cases b.rangeOf f i row with
      | error fault => rfl
      | ok q =>
          dsimp only
          rw [ih, ih (i + 1) (#[].push q)]

theorem blames_walkRows {f : Format} {p i : Nat} {b : Block} {rows : List Row}
    (sound : b.Sound p) (live : p < Partition.livePrefixes f)
    (rows_eq : b.rows.toList.drop i = rows) (done : Array CellRange) {fault : Fault}
    (refused : (walkRows f b none i rows done).fault = some fault) : fault.kind = .corrupt := by
  induction rows generalizing i done with
  | nil => cases refused
  | cons row rows ih =>
      have inside : i < b.rows.size := by
        by_contra beyond
        rw [List.drop_of_length_le (by simpa using beyond)] at rows_eq
        contradiction
      have rest_eq : b.rows.toList.drop (i + 1) = rows := by
        rw [← List.tail_drop, rows_eq, List.tail_cons]
      rw [walkRows, if_neg (no_limit _)] at refused
      rcases sound.rangeOf live inside row with ⟨cause, range_eq, corrupt⟩ | ⟨q, range_eq, -⟩
      · rw [range_eq] at refused
        obtain rfl := Option.some.inj refused
        exact corrupt
      · rw [range_eq] at refused
        exact ih rest_eq _ refused

variable [Container.Compression] {r s : Reader} {p : Nat} {fault : Fault}

/-- The fault that ends an enumeration in the table of a prefix. -/
def faultAt (r : Reader) (p : Nat) : Option Fault :=
  match r.load p with
  | .error fault => some fault
  | .ok b => (walkRows r.format b none 0 b.rows.toList #[]).fault

/-- The first row of a table that no cell leads to counts cells of its prefix. -/
def StraysAt (r : Reader) (p : Nat) : Prop :=
  Partition.livePrefixes r.format ≤ p ∧ ∃ b row rest, r.load p = .ok b ∧
    b.rows.toList = row :: rest ∧ row.InPrefix r.format

/-- An enumeration comes to a row that counts cells of a prefix that no cell has. -/
def Strays (r : Reader) : Prop :=
  ∃ p < r.format.tableCount, r.StraysAt p ∧ ∀ q < p, r.faultAt q = none

theorem faultAt_of_straysAt (inside : p < r.format.tableCount) (strays : r.StraysAt p) :
    ∃ c, r.faultAt p = some (.invalidCell c) := by
  obtain ⟨beyond, b, row, rest, loaded, rows_eq, inPrefix⟩ := strays
  have some_row : 0 < b.rows.size := by
    rw [← Array.length_toList, rows_eq]
    exact Nat.succ_pos _
  have refused := (sound_of_load loaded).rangeOf_beyond beyond inside some_row inPrefix
  rw [faultAt, loaded]
  dsimp only
  rw [rows_eq, walkRows, if_neg (no_limit _), refused]
  exact ⟨_, rfl⟩

/-- A table is corrupt where an enumeration is refused, unless no cell leads to it. -/
theorem blames_faultAt (open_eq : r.closed = false)
    (counted : r.container.blockCount = r.format.firstTable + r.format.tableCount)
    (inside : p < r.format.tableCount) (refused : r.faultAt p = some fault) :
    fault.kind = .corrupt ∨ r.StraysAt p := by
  unfold faultAt at refused
  cases loaded : r.load p with
  | error cause =>
      rw [loaded] at refused
      obtain rfl := Option.some.inj refused
      exact Or.inl (blames_load open_eq counted inside _ loaded)
  | ok b =>
      rw [loaded] at refused
      have sound := sound_of_load loaded
      by_cases live : p < Partition.livePrefixes r.format
      · exact Or.inl (blames_walkRows sound live List.drop_zero _ refused)
      cases rows_eq : b.rows.toList with
      | nil =>
          dsimp only at refused
          rw [rows_eq] at refused
          cases refused
      | cons row rest =>
          by_cases inPrefix : row.InPrefix r.format
          · exact Or.inr ⟨not_lt.1 live, b, row, rest, loaded, rows_eq, inPrefix⟩
          obtain ⟨cause, range_eq, corrupt⟩ :=
            sound.rangeOf_of_not_inPrefix (i := 0) (Nat.le_sub_one_of_lt inside) inPrefix
          dsimp only at refused
          rw [rows_eq, walkRows, if_neg (no_limit _), range_eq] at refused
          obtain rfl := Option.some.inj refused
          exact Or.inl corrupt

/-! ## All tables -/

/-- An enumeration ends with the first fault of a table. -/
theorem fault_walkTables (faithful : r.Faithful) (open_eq : r.closed = false) {count : Nat}
    (bound : p + count ≤ r.format.tableCount) (done : Array CellRange) :
    (walkTables none count p r done).1.fault = (List.range' p count).findSome? r.faultAt := by
  induction count generalizing p done with
  | zero => rfl
  | succ count ih =>
      have below : p < r.format.tableCount := by omega
      have inside : 0 ≤ (p : Int) ∧ (p : Int) ≤ r.format.greatestPrefix :=
        ⟨Int.natCast_nonneg p, Int.ofNat_le.2 (Nat.le_sub_one_of_lt below)⟩
      obtain ⟨answer, same⟩ := block_eq faithful open_eq inside
      rw [walkTables, if_neg (no_limit _), ← Prod.mk.eta (p := r.block p), answer, List.range'_succ,
        List.findSome?_cons, faultAt]
      cases r.load p with
      | error fault => rfl
      | ok b =>
          dsimp only
          cases refused : (walkRows r.format b none 0 b.rows.toList #[]).fault with
          | some fault =>
              rw [if_pos (by simp [fault_walkRows, refused])]
              exact (fault_walkRows _ _ _ _ _).trans refused
          | none =>
              rw [if_neg (by simp [fault_walkRows, refused]), (same.walkTables _ _ _ _).1]
              exact ih (by omega) _

theorem ranges_eq_error_iff : r.ranges.1 = .error fault ↔ (r.walk none).1.fault = some fault := by
  unfold ranges
  dsimp only
  cases (r.walk none).1.fault <;> simp

/-- All ranges are refused with the fault of the first table that has one. -/
theorem ranges_eq_error_iff_faultAt (faithful : r.Faithful) (open_eq : r.closed = false) :
    r.ranges.1 = .error fault ↔
      ∃ p < r.format.tableCount, r.faultAt p = some fault ∧ ∀ q < p, r.faultAt q = none := by
  rw [ranges_eq_error_iff, walk, fault_walkTables faithful open_eq (by omega),
    List.findSome?_eq_some_iff]
  constructor
  · rintro ⟨earlier, p, later, split_eq, refused, none_before⟩
    obtain ⟨k, k_le, earlier_eq, rest_eq⟩ := List.range'_eq_append_iff.1 split_eq
    obtain ⟨k_eq, some_left, -⟩ := List.range'_eq_cons_iff.1 rest_eq.symm
    refine ⟨p, by omega, refused, fun q before => none_before q ?_⟩
    rw [earlier_eq, List.mem_range'_1]
    omega
  · rintro ⟨p, inside, refused, none_before⟩
    refine ⟨List.range' 0 p, p, _, List.range'_eq_append_iff.2 ⟨p, inside.le, rfl,
      (List.range'_eq_cons_iff.2 ⟨by omega, by omega, rfl⟩).symm⟩, refused, fun q member => ?_⟩
    rw [List.mem_range'_1] at member
    exact none_before q (by omega)

theorem Agrees.ranges_eq (agrees : Agrees r s) : r.ranges.1 = s.ranges.1 := by
  have walked := (agrees.walk none).1
  unfold ranges
  dsimp only
  rw [walked]
  cases (s.walk none).1.fault <;> rfl

end RangeFile.Reader

namespace RangeFile

/-- An enumeration of the ranges of a reader that was opened ends or blames the bytes, whatever the
reader was asked before, unless it comes to a row that counts cells of a prefix that no cell has:
just then the start of its range is refused as an argument. -/
theorem enumeration_blames_iff [Container.Compression] {path : String} {bytes : ByteArray}
    {expected : Expected} {r : Reader} (opened : Reader.ofBytes path bytes expected = .ok r)
    (calls : List Reader.Call) (open_still : (r.after calls).closed = false) :
    ((∀ fault, (r.after calls).ranges.1 = .error fault → fault.kind = .corrupt) ↔ ¬r.Strays) ∧
    ((∃ c, (r.after calls).ranges.1 = .error (.invalidCell c)) ↔ r.Strays) := by
  obtain ⟨open_eq, -, counted⟩ := Reader.ofBytes_ok opened
  have faithful := Reader.faithful_of_ofBytes opened
  rw [((Reader.Agrees.refl faithful).after calls open_still).ranges_eq]
  have blamed : ∀ fault, r.ranges.1 = .error fault → fault.kind = .corrupt ∨ r.Strays := by
    intro fault refused
    rw [Reader.ranges_eq_error_iff_faultAt faithful open_eq] at refused
    obtain ⟨p, inside, refused, none_before⟩ := refused
    rcases Reader.blames_faultAt open_eq counted inside refused with corrupt | strays
    · exact Or.inl corrupt
    · exact Or.inr ⟨p, inside, strays, none_before⟩
  have escapes : r.Strays → ∃ c, r.ranges.1 = .error (.invalidCell c) := by
    rintro ⟨p, inside, strays, none_before⟩
    obtain ⟨c, refused⟩ := Reader.faultAt_of_straysAt inside strays
    exact ⟨c, (Reader.ranges_eq_error_iff_faultAt faithful open_eq).2
      ⟨p, inside, refused, none_before⟩⟩
  have other_kind (c : Int) : ¬(Fault.invalidCell c).kind = .corrupt := nofun
  refine ⟨⟨?_, ?_⟩, ?_, escapes⟩
  · intro corrupt strays
    obtain ⟨c, refused⟩ := escapes strays
    exact other_kind c (corrupt _ refused)
  · intro none_strays fault refused
    exact (blamed fault refused).resolve_right none_strays
  · rintro ⟨c, refused⟩
    exact (blamed _ refused).resolve_left (other_kind c)

/-- A table of prefix 6, the first behind face 5, with a row for three cells. -/
def beyondTable : List UInt8 :=
  [1, 4, 0, 0, 0, 0, 0, 9, 0, 0, 0, 1, 0, 0, 0, 6, 0, 0, 0, 1, 5, 0x23]

theorem exists_beyond_small : ∃ (w : Writer) (r : Reader),
    Writer.create smallFormat false = .ok w ∧
    Reader.ofBytes "small" ({ w with
      tables := #[[], [], [], [], [], [], beyondTable, []] }).close.2.contents Expected.nothing =
        .ok r ∧
    (r.after [.find (Cell.nth 2 6), .block 6]).closed = false ∧
    r.ranges.1 = .error (.invalidCell (Cell.nth 2 98)) := by
  have session : (do
      let w ← Writer.create smallFormat false
      let r ← Reader.ofBytes "small" ({ w with
        tables := #[[], [], [], [], [], [], beyondTable, []] }).close.2.contents Expected.nothing
      return ((r.after [.find (Cell.nth 2 6), .block 6]).closed, r.ranges.1)) =
        .ok (false, .error (.invalidCell (Cell.nth 2 98))) := by decide +kernel
  obtain ⟨w, created, session⟩ := Outcome.bind_eq_ok.1 session
  obtain ⟨r, opened, session⟩ := Outcome.bind_eq_ok.1 session
  obtain ⟨open_still, refused⟩ := Prod.mk.inj (Except.ok.inj session)
  exact ⟨w, r, created, opened, open_still, refused⟩

/-- The row is refused whatever the reader was asked before. -/
theorem enumeration_blames_iff_small : ∃ (w : Writer) (r : Reader),
    Writer.create smallFormat false = .ok w ∧
    Reader.ofBytes "small" ({ w with
      tables := #[[], [], [], [], [], [], beyondTable, []] }).close.2.contents Expected.nothing =
        .ok r ∧ r.Strays ∧
    ∃ c, (r.after [.find (Cell.nth 2 6), .block 6]).ranges.1 = .error (.invalidCell c) := by
  obtain ⟨w, r, created, opened, open_still, refused⟩ := exists_beyond_small
  have strays : r.Strays :=
    (enumeration_blames_iff opened [] (Reader.ofBytes_ok opened).1).2.1 ⟨_, refused⟩
  exact ⟨w, r, created, opened, strays, (enumeration_blames_iff opened _ open_still).2.2 strays⟩

/-- A file that opens, whose ranges are refused although its bytes are to blame. -/
theorem beyondTable_blames_argument : ∃ (w : Writer) (r : Reader) (fault : Fault),
    Writer.create smallFormat false = .ok w ∧
    Reader.ofBytes "small" ({ w with
      tables := #[[], [], [], [], [], [], beyondTable, []] }).close.2.contents Expected.nothing =
        .ok r ∧
    r.ranges.1 = .error fault ∧ fault.kind ≠ .corrupt := by
  obtain ⟨w, r, created, opened, -, refused⟩ := exists_beyond_small
  exact ⟨w, r, _, created, opened, refused, by decide⟩

end RangeFile

end Geofence
