/-
# Geofence.Proofs.RangeFile.Writer -- the blocks of a range file

The blocks of a range file are its header, empty blocks up to the first table,
and the tables (`Writer.items`).  A writer stays `Ready` until it is closed:
ranges put into it become tables and touch nothing else (`put_ok`,
`put_refused`).  Closing it then stores just its blocks (`Ready.close_eq`,
`Ready.blocks_hold`).
-/
import Geofence.Proofs.Container.Frame
import Geofence.Proofs.Container.Writer
import Geofence.Proofs.Format.Header
import Geofence.Proofs.Partition.Tables

namespace Geofence.RangeFile

set_option autoImplicit false

open Container (Item)
open Geofence.Partition (Filled StepRefused TablesOf)

variable {f : Format} {compressed : Bool} {w v : Writer} {ranges : List CellRange}

namespace Writer

/-- The writer writes a file of a format, and nothing is stored yet. -/
structure Ready (f : Format) (compressed : Bool) (w : Writer) : Prop where
  format_eq : w.format = f
  header_stored : Header.encode f = .ok w.header
  container_made : Container.Writer.create Container.rangeMagic Container.rangeVersion compressed =
    .ok w.container

def items (w : Writer) : List Item :=
  { type := Header.blockType, extra := [], payload := w.header } ::
    (List.replicate (w.format.firstTable - 1) { type := paddingType, extra := [], payload := [] } ++
      w.tables.toList.map fun table => { type := tableType, extra := [], payload := table })

theorem create_ok (created : create f compressed = .ok w) :
    w.Ready f compressed ∧ w.tables = #[] := by
  obtain ⟨container, container_made, created⟩ := Outcome.bind_eq_ok.1 created
  obtain ⟨header, header_stored, created⟩ := Outcome.bind_eq_ok.1 created
  obtain rfl := Except.ok.inj created
  exact ⟨⟨rfl, header_stored, container_made⟩, rfl⟩

theorem Ready.container_eq (ready : w.Ready f compressed) : w.container = {
    magic := Container.rangeMagic
    version := Container.rangeVersion
    compressed
    body := .empty
    records := #[]
    sealed := none } := by
  have made := ready.container_made
  rw [Container.Writer.create, if_neg (by decide)] at made
  exact (Except.ok.inj made).symm

theorem put_eq (no_tables : w.tables = #[]) (ranges : List CellRange) : w.put ranges =
    ((Partition.tables w.format ranges).2,
      { w with tables := (Partition.tables w.format ranges).1 }) := by
  rw [put, if_neg (by simp [no_tables])]

theorem put_ok (ready : w.Ready f compressed) (no_tables : w.tables = #[])
    (accepted : w.put ranges = (.ok (), v)) : v.Ready f compressed ∧
      ∃ tables : List (List CellRange × List UInt8), TablesOf f ranges tables ∧
        v.tables = (tables.map Prod.snd).toArray := by
  rw [put_eq no_tables, ready.format_eq] at accepted
  obtain ⟨went_through, rfl⟩ := Prod.mk.inj accepted
  obtain ⟨tables, made_eq, held⟩ := Partition.tables_ok (Prod.ext rfl went_through)
  exact ⟨⟨rfl, ready.header_stored, ready.container_made⟩, tables, held, made_eq⟩

theorem tables_ne_of_all {tables : List (List CellRange × List UInt8)}
    (held : TablesOf f ranges tables) (tables_eq : w.tables = (tables.map Prod.snd).toArray) :
    w.tables ≠ #[] := by
  rw [← Array.size_pos_iff, tables_eq, List.size_toArray, List.length_map, held.length_eq]
  exact (Nat.zero_le _).trans_lt f.livePrefixes_lt_tableCount

/-- A writer that refuses ranges has run through the prefixes before the fault, and only its tables
have changed. -/
theorem exists_filled_of_put_refused {fault : Fault} (no_tables : w.tables = #[])
    (refused : w.put ranges = (.error fault, v)) :
    v = { w with tables := v.tables } ∧
      ∃ (tables : List (List CellRange × List UInt8)) (left : Pending CellRange),
        tables.length < w.format.tableCount ∧ v.tables = (tables.map Prod.snd).toArray ∧
        Filled w.format 0 (.ofList ranges) tables left ∧
        StepRefused w.format tables.length left fault := by
  rw [put_eq no_tables] at refused
  obtain ⟨went_wrong, rfl⟩ := Prod.mk.inj refused
  exact ⟨rfl, Partition.tables_refused (Prod.ext rfl went_wrong)⟩

/-- A writer that refuses ranges has made the tables of the prefixes before the fault: none just
when the first prefix was refused. -/
theorem put_refused {fault : Fault} (ready : w.Ready f compressed) (no_tables : w.tables = #[])
    (refused : w.put ranges = (.error fault, v)) :
    v.Ready f compressed ∧ v.tables.size < f.tableCount ∧
      (v.tables = #[] ↔ StepRefused f 0 (.ofList ranges) fault) := by
  obtain ⟨frame, tables, left, shorter, made_eq, filled, why⟩ :=
    exists_filled_of_put_refused no_tables refused
  rw [ready.format_eq] at shorter filled why
  refine ⟨?_, ?_, ?_⟩
  · rw [frame]
    exact ⟨ready.format_eq, ready.header_stored, ready.container_made⟩
  · rwa [made_eq, List.size_toArray, List.length_map]
  · rw [← filled.eq_nil_iff (by rwa [Nat.zero_add]), made_eq]
    simp

theorem put_nil (no_tables : w.tables = #[]) : ∃ v, w.put [] = (.ok (), v) := by
  obtain ⟨made, partition⟩ := Partition.tables_nil w.format
  rw [put_eq no_tables, partition]
  exact ⟨_, rfl⟩

/-! ## Blocks -/

theorem length_items (w : Writer) :
    w.items.length = w.format.firstTable + w.tables.size := by
  have := w.format.firstTable_pos
  simp only [items, List.length_cons, List.length_append, List.length_replicate, List.length_map,
    Array.length_toList]
  omega

theorem items_header (w : Writer) :
    w.items[0]? = some { type := Header.blockType, extra := [], payload := w.header } :=
  rfl

theorem items_padding (w : Writer) {i : Nat} (behind : 1 ≤ i) (before : i < w.format.firstTable) :
    w.items[i]? = some { type := paddingType, extra := [], payload := [] } := by
  obtain ⟨i, rfl⟩ : ∃ j, i = j + 1 := ⟨i - 1, by omega⟩
  rw [items, List.getElem?_cons_succ, List.getElem?_append_left (by simp; omega),
    List.getElem?_replicate, if_pos (by omega)]

theorem items_table (w : Writer) (p : Nat) : w.items[w.format.firstTable + p]? =
    w.tables[p]?.map fun table => { type := tableType, extra := [], payload := table } := by
  have := w.format.firstTable_pos
  obtain ⟨n, first_eq⟩ : ∃ n, w.format.firstTable = n + 1 := ⟨w.format.firstTable - 1, by omega⟩
  rw [items, first_eq, show n + 1 + p = n + p + 1 by omega, List.getElem?_cons_succ,
    List.getElem?_append_right (by simp), List.getElem?_map, List.length_replicate,
    Nat.add_sub_cancel, Nat.add_sub_cancel_left, Array.getElem?_toList]

variable [Container.Compression]

theorem blocks_eq (w : Writer) : w.blocks = w.container.appendAll w.items := by
  have padding : ∀ (count : Nat) (c : Container.Writer),
      (List.range count).foldl (fun c _ => c.append paddingType [] []) c =
        c.appendAll (List.replicate count { type := paddingType, extra := [], payload := [] }) := by
    intro count c
    induction count generalizing c with
    | zero => rfl
    | succ count ih =>
        rw [List.range_succ_eq_map, List.foldl_cons, List.foldl_map, List.replicate_succ]
        exact ih _
  rw [blocks, ← Array.foldl_toList]
  simp only [padding, items, Container.Writer.appendAll, List.foldl_cons, List.foldl_append,
    List.foldl_map]
  rfl

/-- The container that a writer will close holds the blocks of the file. -/
theorem Ready.blocks_hold (ready : w.Ready f compressed) : w.blocks.Holds w.items := by
  have none_yet : w.container.Holds [] := by
    rw [ready.container_eq]
    exact List.Forall₂.nil
  rw [blocks_eq]
  exact none_yet.appendAll _

theorem Ready.blocks_frame (ready : w.Ready f compressed) :
    w.blocks.magic = Container.rangeMagic ∧ w.blocks.version = Container.rangeVersion ∧
      w.blocks.compressed = compressed ∧ w.blocks.sealed = none := by
  have frame := Container.Writer.appendAll_frame w.container w.items
  rw [← blocks_eq, ready.container_eq] at frame
  exact frame

/-- Closing a writer whose tables have been made stores its blocks. -/
theorem Ready.close_eq (ready : w.Ready f compressed) (some_tables : w.tables ≠ #[]) :
    w.close = (w.blocks.close.1, { w with container := w.blocks.close.2 }) := by
  have unsealed : w.container.closed = false := by
    rw [ready.container_eq]
    rfl
  rw [close, unsealed, if_neg Bool.false_ne_true, if_neg (by simpa using some_tables)]

/-- A writer without tables is closed as if nothing had been put into it. -/
theorem Ready.close_eq_of_no_tables (ready : w.Ready f compressed) (no_tables : w.tables = #[])
    (filled : w.put [] = (.ok (), v)) :
    w.close = (v.blocks.close.1, { v with container := v.blocks.close.2 }) := by
  have unsealed : w.container.closed = false := by
    rw [ready.container_eq]
    rfl
  rw [close, unsealed, if_neg Bool.false_ne_true, if_pos (by simp [no_tables]), filled]

end Writer

/-! ## A small file -/

/-- Eight prefixes of sixteen cells, of which a row counts fifteen. -/
def smallFormat : Format where
  level := 2
  prefixBits := 3
  suffixBits := 4
  firstTable := 2
  rowSize := 1
  isAllowedList := false
  valueSize := 1
  version := 0
  level_pos := by decide
  level_le := by decide
  prefixBits_ge := by decide
  suffixBits_pos := by decide
  bits_eq := by decide
  firstTable_pos := by decide
  rowSize_le := by decide
  suffixBits_lt := by decide
  valueSize_le := by decide

/-- Thirty-two prefixes of four cells, in an allowed list without values. -/
def allowedFormat : Format where
  level := 2
  prefixBits := 5
  suffixBits := 2
  firstTable := 1
  rowSize := 1
  isAllowedList := true
  valueSize := 0
  version := 3
  level_pos := by decide
  level_le := by decide
  prefixBits_ge := by decide
  suffixBits_pos := by decide
  bits_eq := by decide
  firstTable_pos := by decide
  rowSize_le := by decide
  suffixBits_lt := by decide
  valueSize_le := by decide

/-- A range over three prefixes. -/
def spanningRange : CellRange where
  start := Cell.nth 2 14
  stop := Cell.nth 2 33
  value := 7
  start_valid := by decide
  stop_valid := by decide
  depth_eq := by decide
  ordered := by decide
  value_nonneg := by decide

/-- A range up to the end of the last face. -/
def wrappingRange : CellRange where
  start := Cell.nth 2 90
  stop := Cell.nth 2 0
  value := 9
  start_valid := by decide
  stop_valid := by decide
  depth_eq := by decide
  ordered := by decide
  value_nonneg := by decide

/-- The cells in front of the range over three prefixes. -/
def leadingGap : CellRange where
  start := Cell.nth 2 0
  stop := Cell.nth 2 14
  value := 1
  start_valid := by decide
  stop_valid := by decide
  depth_eq := by decide
  ordered := by decide
  value_nonneg := by decide

/-- The cells between it and the range up to the end of the last face. -/
def middleGap : CellRange where
  start := Cell.nth 2 33
  stop := Cell.nth 2 90
  value := 4
  start_valid := by decide
  stop_valid := by decide
  depth_eq := by decide
  ordered := by decide
  value_nonneg := by decide

theorem exists_written_small : ∃ w v u : Writer, Writer.create smallFormat true = .ok w ∧
    w.put [spanningRange, wrappingRange] = (.ok (), v) ∧ v.close = (.ok (), u) := by
  have session : (do
      let w ← Writer.create smallFormat true
      (w.put [spanningRange, wrappingRange]).1
      (w.put [spanningRange, wrappingRange]).2.close.1) = .ok () := by decide +kernel
  obtain ⟨w, created, session⟩ := Outcome.bind_eq_ok.1 session
  obtain ⟨_, accepted, closed⟩ := Outcome.bind_eq_ok.1 session
  exact ⟨w, _, _, created, Prod.ext accepted rfl, Prod.ext closed rfl⟩

end Geofence.RangeFile
