/-
# Geofence.Proofs.RangeFile.Reader -- readers of files that were written

A file written for some ranges is opened (`opens_written`), and the reader then
serves the ranges (`Reader.Serves`): it has a table for every prefix, which holds
the pieces that start there.  The table that a reader keeps is the one that it
would load again, so readers go on serving, whatever they are asked
(`Serves.find`).
-/
import Geofence.Proofs.Container.Reader
import Geofence.Proofs.Partition.Pieces
import Geofence.Proofs.RangeFile.Writer
import Geofence.Proofs.Table.Ranges
import Geofence.RangeFile.Reader

namespace Geofence.RangeFile

set_option autoImplicit false

open Geofence.Partition (AtLevel TablesOf piecesAt)

variable [Container.Compression] {f : Format} {compressed : Bool} {w v u : Writer}
  {ranges : List CellRange} {tables : List (List CellRange × List UInt8)}
  {container : Container.Reader} {r s : Reader}

/-- The bytes of a container whose header was never written. -/
def Headless (bytes : ByteArray) : Prop :=
  ∃ rest, bytes.data.toList = List.replicate Container.headerSize 0 ++ rest

theorem Headless.not_opened {bytes : ByteArray} (headless : Headless bytes) (path : String)
    (expected : Expected) : ∃ cause, Reader.ofBytes path bytes expected = .error cause := by
  obtain ⟨rest, zeros⟩ := headless
  obtain ⟨cause, unopened⟩ := Container.Reader.ofBytes_refused_of_zeros zeros path
    Container.rangeMagic Container.rangeVersion
  rw [Reader.ofBytes, unopened]
  exact ⟨cause, rfl⟩

/-- The reader answers from the pieces of the ranges. -/
structure Reader.Serves (f : Format) (ranges : List CellRange) (r : Reader) : Prop where
  format_eq : r.format = f
  open_eq : r.closed = false
  atLevel : ∀ s ∈ ranges, AtLevel f s
  rows : ∀ p < f.tableCount, Block.Rows f p (piecesAt f ranges p)
  load_eq : ∀ p < f.tableCount, ∃ b, r.load p = .ok b ∧ Block.Holds f p (piecesAt f ranges p) b
  /-- The table kept is the one in the file. -/
  kept : ∀ b, r.last = some b → ∃ p < f.tableCount, b.tablePrefix = (p : Int) ∧ r.load p = .ok b

namespace Reader

/-- The container of a finished file is a range file just when it has a table for every prefix. -/
theorem ofContainer_eq (ready : w.Ready f compressed) (holds : container.Holds w.items) :
    ofContainer container =
      if w.tables.size = f.tableCount then .ok { format := f, container, last := none }
      else .error (.blockCount (f.firstTable + w.tables.size) (f.firstTable + f.tableCount)) := by
  have header_read := holds.read_eq 0 _ w.items_header
  have decoded := Header.decode_encode ready.header_stored
  have blockCount_eq : container.blockCount = f.firstTable + w.tables.size := by
    rw [holds.blockCount_eq, w.length_items, ready.format_eq]
  rw [Nat.cast_zero] at header_read
  rw [ofContainer, header_read, Outcome.ok_bind]
  simp only [decoded, Outcome.ok_bind, blockCount_eq]
  by_cases all : w.tables.size = f.tableCount
  · rw [if_pos all, if_neg (by simp [all])]
    rfl
  · rw [if_neg all, if_pos (by simp [all])]
    rfl

/-- The file of stored blocks is opened as the container that holds them. -/
theorem ofBytes_stored {stored : Container.Writer}
    (roundTrips : compressed = true → Container.Compression.RoundTrips)
    (ready : w.Ready f compressed) (closed : w.blocks.close = (.ok (), stored)) (path : String) :
    ∃ container : Container.Reader, container.Holds w.items ∧
      ofBytes path stored.contents Expected.nothing = ofContainer container := by
  obtain ⟨magic_eq, version_eq, compressed_eq, unsealed⟩ := ready.blocks_frame
  obtain ⟨container, opened, holds⟩ := Container.Reader.ofBytes_close (by rwa [compressed_eq])
    unsealed (by rw [magic_eq]; rfl) ready.blocks_hold closed path
  rw [magic_eq, version_eq] at opened
  refine ⟨container, holds, ?_⟩
  rw [ofBytes, opened, Outcome.ok_bind]
  cases ofContainer container <;> rfl

/-- The file of blocks that could not be stored is not opened. -/
theorem ofBytes_unstored {stored : Container.Writer} {fault : Fault}
    (ready : w.Ready f compressed) (refused : w.blocks.close = (.error fault, stored))
    (path : String) :
    ∃ cause, ofBytes path stored.contents Expected.nothing = .error cause := by
  obtain ⟨-, -, -, unsealed⟩ := ready.blocks_frame
  have headless : Headless stored.contents :=
    Container.Writer.exists_of_close_refused unsealed refused
  exact headless.not_opened path Expected.nothing

theorem read_table (ready : w.Ready f compressed)
    (tables_eq : w.tables = (tables.map Prod.snd).toArray) (holds : container.Holds w.items)
    {p : Nat} (bound : p < tables.length) : container.read (f.firstTable + p) = .ok {
      id := f.firstTable + p
      type := tableType
      extra := []
      payload := tables[p].2 } := by
  have found : w.items[f.firstTable + p]? =
      some { type := tableType, extra := [], payload := tables[p].2 } := by
    rw [← ready.format_eq, w.items_table, tables_eq]
    simp [bound]
  exact_mod_cast holds.read_eq _ _ found

/-- A reader of the blocks serves the ranges that they were made of. -/
theorem serves_of_holds (ready : w.Ready f compressed) (held : TablesOf f ranges tables)
    (tables_eq : w.tables = (tables.map Prod.snd).toArray) (holds : container.Holds w.items) :
    Serves f ranges { format := f, container, last := none } where
  format_eq := rfl
  open_eq := holds.open_eq
  atLevel := held.atLevel
  rows := fun p inside => (held.holds (held.length_eq ▸ inside)).2.1
  load_eq := fun p inside => by
    have bound : p < tables.length := held.length_eq ▸ inside
    obtain ⟨-, -, b, loaded, pieces⟩ := held.holds bound
    refine ⟨b, ?_, pieces⟩
    rw [load]
    simp only [read_table ready tables_eq holds bound, Outcome.ok_bind]
    rw [if_neg (by simp)]
    exact loaded _
  kept := fun b last => by contradiction

/-- The file of accepted ranges is opened, once its blocks are stored. -/
theorem opens_stored {stored : Container.Writer}
    (roundTrips : compressed = true → Container.Compression.RoundTrips)
    (ready : w.Ready f compressed) (no_tables : w.tables = #[])
    (accepted : w.put ranges = (.ok (), v)) (closed : v.blocks.close = (.ok (), stored))
    (path : String) :
    ∃ (tables : List (List CellRange × List UInt8)) (container : Container.Reader),
      TablesOf f ranges tables ∧ v.Ready f compressed ∧
      v.tables = (tables.map Prod.snd).toArray ∧ container.Holds v.items ∧
      ofBytes path stored.contents Expected.nothing =
        .ok { format := f, container, last := none } := by
  obtain ⟨v_ready, tables, held, tables_eq⟩ := Writer.put_ok ready no_tables accepted
  have all : v.tables.size = f.tableCount := by
    rw [tables_eq, List.size_toArray, List.length_map, held.length_eq]
  obtain ⟨container, holds, opened⟩ := ofBytes_stored roundTrips v_ready closed path
  rw [ofContainer_eq v_ready holds, if_pos all] at opened
  exact ⟨tables, container, held, v_ready, tables_eq, holds, opened⟩

/-- A file that was written for some ranges is opened. -/
theorem opens_written (roundTrips : compressed = true → Container.Compression.RoundTrips)
    (created : Writer.create f compressed = .ok w) (accepted : w.put ranges = (.ok (), v))
    (closed : v.close = (.ok (), u)) (path : String) :
    ∃ (tables : List (List CellRange × List UInt8)) (container : Container.Reader),
      TablesOf f ranges tables ∧ v.Ready f compressed ∧
      v.tables = (tables.map Prod.snd).toArray ∧ container.Holds v.items ∧
      ofBytes path u.contents Expected.nothing = .ok { format := f, container, last := none } := by
  obtain ⟨ready, no_tables⟩ := Writer.create_ok created
  obtain ⟨v_ready, tables, held, tables_eq⟩ := Writer.put_ok ready no_tables accepted
  rw [v_ready.close_eq (Writer.tables_ne_of_all held tables_eq)] at closed
  obtain ⟨stored, u_eq⟩ := Prod.mk.inj closed
  have contents_eq : u.contents = v.blocks.close.2.contents := by
    rw [← u_eq]
    rfl
  rw [contents_eq]
  exact opens_stored roundTrips ready no_tables accepted (Prod.ext stored rfl) path

/-! ## Tables and lookups -/

theorem serves_keep {b : Block} {p : Nat} (serves : r.Serves f ranges) (inside : p < f.tableCount)
    (loaded : r.load p = .ok b) (prefix_eq : b.tablePrefix = p) :
    Serves f ranges { r with last := some b } where
  format_eq := serves.format_eq
  open_eq := serves.open_eq
  atLevel := serves.atLevel
  rows := serves.rows
  load_eq := serves.load_eq
  kept := fun _ last => ⟨p, inside, Option.some.inj last ▸ ⟨prefix_eq, loaded⟩⟩

/-- The table of a prefix holds its pieces, whether it is kept or loaded. -/
theorem Serves.block {p : Nat} (serves : r.Serves f ranges) (inside : p < f.tableCount) :
    ∃ b s, r.block p = (.ok b, s) ∧ Block.Holds f p (piecesAt f ranges p) b ∧
      s.Serves f ranges := by
  obtain ⟨b, loaded, holds⟩ := serves.load_eq p inside
  have within : ¬¬(0 ≤ (p : Int) ∧ (p : Int) ≤ r.format.greatestPrefix) := by
    rw [serves.format_eq]
    unfold Format.tableCount at inside
    unfold Format.greatestPrefix
    omega
  rw [Reader.block, serves.open_eq, if_neg Bool.false_ne_true, if_neg within]
  cases keeps : r.kept? p with
  | some c =>
      obtain ⟨last, prefix_eq⟩ := Option.filter_eq_some_iff.1 keeps
      obtain ⟨q, -, own, again⟩ := serves.kept c last
      have same : q = p := by
        rw [beq_iff_eq, own, Nat.cast_inj] at prefix_eq
        exact prefix_eq
      rw [same, loaded] at again
      obtain rfl := Except.ok.inj again
      exact ⟨b, r, rfl, holds, serves⟩
  | none =>
      simp only [loaded]
      exact ⟨b, _, rfl, holds, serves_keep serves inside loaded holds.tablePrefix_eq⟩

end Reader

end Geofence.RangeFile
