/-
# Geofence.Proofs.RangeFile.Accepted -- ranges that become a file

In formats whose numbers fit four bytes, ranges in order become a file just when
their values have room: then the writer accepts them, and closing it goes
through, because no block grows too large for its field (`written_iff`).
-/
import Geofence.Proofs.Container.Closing
import Geofence.Proofs.Partition.Pieces
import Geofence.Proofs.Partition.Sorted
import Geofence.Proofs.RangeFile.Writer

namespace Geofence.RangeFile

set_option autoImplicit false

open Container (Item)
open Geofence.Partition (AtLevel TablesOf)

variable {f : Format} {compressed : Bool} {w v : Writer} {ranges : List CellRange}
  {tables : List (List CellRange × List UInt8)}

namespace Writer

/-- A file can be started in a format whose numbers fit the header block, and in no other. -/
theorem exists_create_iff :
    (∃ w, create f compressed = .ok w) ↔ f.firstTable < 2 ^ 16 ∧ f.version < 2 ^ 32 := by
  rw [← Header.exists_encode_iff]
  constructor
  · rintro ⟨w, created⟩
    exact ⟨_, (create_ok created).1.header_stored⟩
  · rintro ⟨header, stored⟩
    rw [create, Container.Writer.create, if_neg (by decide), Outcome.ok_bind, stored]
    exact ⟨_, rfl⟩

variable [Container.Compression]

theorem small_of_mem_items (ready : w.Ready f compressed) (held : TablesOf f ranges tables)
    (tables_eq : w.tables = (tables.map Prod.snd).toArray) (suffixBits_le : f.suffixBits ≤ 28)
    (bounded : compressed = true → Container.Compression.Bounded) :
    ∀ item ∈ w.items, item.Small w.blocks ∧ item.extra = [] := by
  obtain ⟨-, -, compressed_eq, -⟩ := ready.blocks_frame
  have small {type : Nat} (known : type < 2 ^ 32) {payload : List UInt8}
      (short : payload.length ≤ 20 + 12 * 2 ^ 28) :
      Item.Small w.blocks { type := type, extra := [], payload := payload } := by
    refine ⟨by simp only [Nat.cast_nonneg, true_and]; exact_mod_cast known, by simp, ?_, ?_⟩
    · dsimp only
      omega
    · exact Container.Writer.length_pack_lt (by rwa [compressed_eq]) (by dsimp only; omega)
  intro item member
  simp only [items, List.mem_cons, List.mem_append, List.mem_replicate, List.mem_map] at member
  rcases member with rfl | ⟨-, rfl⟩ | ⟨table, made, rfl⟩
  · have header_length := Header.length_encode ready.header_stored
    exact ⟨small (by decide) (by rw [header_length]; decide), rfl⟩
  · exact ⟨small (by decide) (Nat.zero_le _), rfl⟩
  · rw [tables_eq, List.mem_map] at made
    obtain ⟨t, t_member, rfl⟩ := made
    obtain ⟨p, bound, rfl⟩ := List.mem_iff_getElem.1 t_member
    have length_le := Partition.length_encodeTable_le (held.inPrefix p bound) (held.encoded p bound)
    have cells : f.prefixCells ≤ 2 ^ 28 := Nat.pow_le_pow_right (by omega) suffixBits_le
    exact ⟨small (by decide) (by omega), rfl⟩

theorem exists_close (ready : w.Ready f compressed) (held : TablesOf f ranges tables)
    (tables_eq : w.tables = (tables.map Prod.snd).toArray) (prefixBits_le : f.prefixBits ≤ 31)
    (suffixBits_le : f.suffixBits ≤ 28)
    (bounded : compressed = true → Container.Compression.Bounded) :
    ∃ u, w.close = (.ok (), u) := by
  obtain ⟨-, version_eq, compressed_eq, unsealed⟩ := ready.blocks_frame
  have small := small_of_mem_items ready held tables_eq suffixBits_le bounded
  have firstTable_lt := (Header.exists_encode_iff.1 ⟨_, ready.header_stored⟩).1
  have some_tables : w.tables ≠ #[] := Writer.tables_ne_of_all held tables_eq
  have few : w.items.length ≤ 2 ^ 16 + 2 ^ 31 := by
    have count_le : f.tableCount ≤ 2 ^ 31 := Nat.pow_le_pow_right (by omega) prefixBits_le
    rw [w.length_items, tables_eq, List.size_toArray, List.length_map, held.length_eq,
      ready.format_eq]
    omega
  have short : w.blocks.body.size ≤ w.items.length * 2 ^ 32 := by
    have each : ∀ item ∈ w.items,
        item.extra.length + (w.container.pack item.payload).length ≤ 2 ^ 32 := by
      intro item member
      have packed := (small item member).1.packed
      have same : w.blocks.pack item.payload = w.container.pack item.payload := by
        rw [Container.Writer.pack, Container.Writer.pack, compressed_eq, ready.container_eq]
      rw [(small item member).2, List.length_nil, ← same]
      omega
    have grown := Container.Writer.size_body_appendAll each
    rw [ready.container_eq] at grown
    rw [blocks_eq, ready.container_eq]
    simpa using grown
  obtain ⟨u, closed⟩ := Container.Writer.exists_close unsealed ready.blocks_hold
    (fun item member => (small item member).1) (by omega)
    (by
      have : Container.headerSize = 24 := rfl
      omega)
    (by rw [version_eq]; decide)
  rw [ready.close_eq some_tables, closed]
  exact ⟨_, rfl⟩

end Writer

variable [Container.Compression]

/-- Ranges in order become a file just when their values have room. -/
theorem written_iff (created : Writer.create f compressed = .ok w)
    (prefixBits_le : f.prefixBits ≤ 31) (suffixBits_le : f.suffixBits ≤ 28)
    (bounded : compressed = true → Container.Compression.Bounded)
    (atLevel : ∀ r ∈ ranges, AtLevel f r)
    (sorted : (ranges.map CellRange.arc).Pairwise Arc.Before) :
    (∃ v u, w.put ranges = (.ok (), v) ∧ v.close = (.ok (), u)) ↔
      (0 < f.valueSize → ∀ r ∈ ranges, r.value ≤ f.greatestValue) := by
  obtain ⟨ready, no_tables⟩ := Writer.create_ok created
  constructor
  · rintro ⟨v, u, accepted, -⟩ room
    obtain ⟨-, tables, held, -⟩ := Writer.put_ok ready no_tables accepted
    exact held.value_le room
  · intro fitting
    have accepts := (Partition.tables_ok_iff_sorted (prefixBits_le.trans (by decide)) suffixBits_le
      atLevel fitting).1.2 ((Partition.sorted_iff_arcs atLevel).2 sorted)
    have accepted := Writer.put_eq no_tables ranges
    rw [ready.format_eq, accepts] at accepted
    obtain ⟨v_ready, tables, held, tables_eq⟩ := Writer.put_ok ready no_tables accepted
    obtain ⟨u, closed⟩ :=
      Writer.exists_close v_ready held tables_eq prefixBits_le suffixBits_le bounded
    exact ⟨_, u, accepted, closed⟩

end Geofence.RangeFile
