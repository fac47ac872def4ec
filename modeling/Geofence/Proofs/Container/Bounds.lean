/-
# Geofence.Proofs.Container.Bounds -- how far an opened index can be trusted

Opening a container checks that no block ends behind the start of the index, but
where a block ends is worked out in words of 64 bits.  A record whose numbers add
up to `2 ^ 64` or more can pass the check, wherever its block lies.  Of all other
records the check says what it is meant to say (`Record.past_le_iff`): reading
the block then takes the extra bytes and the payload from just the bytes in
front of the index that the record names.  Of a record whose numbers do add up
to that much it never does (`Reader.exact_iff_of_opened`): such a block can be
read short without a fault (`Reader.wrapped_reads_short`).

The bound is one from above only.  `Reader.area` begins with the header, since
nothing keeps a record from naming bytes of it.
-/
import Geofence.Proofs.Bytes.Field
import Geofence.Proofs.Container.Opened

namespace Geofence.Container

set_option autoImplicit false

namespace Record

/-- Where the block ends, by its numbers. -/
def past (r : Record) : Nat :=
  r.offset + r.extra + r.stored

/-- The check of an index is right about the records whose end is a word. -/
theorem past_le_iff {r : Record} {start : Nat} (word : start < 2 ^ (64 : Nat))
    (checked : r.stop ≤ start) : r.past ≤ start ↔ r.past < 2 ^ (64 : Nat) := by
  constructor
  · intro inside
    exact inside.trans_lt word
  · intro small
    rwa [← Nat.mod_eq_of_lt small]

end Record

namespace Reader

def indexStart (r : Reader) : Nat :=
  (headOf r.bytes).indexStart

/-- All bytes in front of the index, the header among them.  The blocks that a writer leaves lie
behind the header, but opening sets no lower bound: a record may name bytes of the header. -/
def area (r : Reader) : List UInt8 :=
  r.bytes.data.toList.take r.indexStart

variable {path : String} {bytes : ByteArray} {magic : List UInt8} {version : Int} {r : Reader}
  {record : Record}

/-- The header has eight bytes for where the index starts. -/
theorem indexStart_lt (r : Reader) : r.indexStart < 2 ^ (64 : Nat) :=
  Bytes.ofLittleEndian_take_lt _ 8

/-- A record has eight bytes for where its block starts. -/
theorem offset_lt {start count : Nat} (member : record ∈ records bytes start count) :
    record.offset < 2 ^ (64 : Nat) := by
  obtain ⟨i, -, rfl⟩ := List.mem_map.1 member
  exact Bytes.ofLittleEndian_take_lt _ 8

theorem length_area (inside : r.indexStart ≤ r.bytes.size) : r.area.length = r.indexStart := by
  rw [area, List.length_take, Array.length_toList, ByteArray.size_data, Nat.min_eq_left inside]

/-- A stretch that ends in front of the index does not notice what stands behind. -/
theorem slice_eq_of_area {start size : Nat} (inside : start + size ≤ r.indexStart) :
    Bytes.slice r.bytes start size = (r.area.drop start).take size := by
  rw [Bytes.slice_eq_take_drop, area, List.drop_take, List.take_take,
    Nat.min_eq_left (Nat.le_sub_of_add_le (Nat.add_comm start size ▸ inside))]

variable [Compression] {id : Int} {block : StoredBlock}

/-- A block that is read has a record, which names the bytes that are taken. -/
theorem exists_record_of_read (found : r.read id = .ok block) :
    ∃ record, r.index[id.toNat]? = some record ∧
      block.extra = Bytes.slice r.bytes record.offset record.extra ∧
      r.unpack id record.raw (Bytes.slice r.bytes (record.offset + record.extra) record.stored) =
        .ok block.payload := by
  unfold read at found
  split at found
  · contradiction
  split at found
  · rename_i inside
    have bound : id.toNat < r.index.size := by omega
    dsimp only at found
    split at found
    · contradiction
    · rename_i payload unpacked
      split at found
      · contradiction
      · obtain rfl := Except.ok.inj found
        exact ⟨r.index[id.toNat], Array.getElem?_eq_getElem bound, rfl, unpacked⟩
  · contradiction

/-- The extra bytes and the payload of a block are taken from just the bytes in front of the index
that the record names. -/
structure Exact (r : Reader) (id : Int) (record : Record) (block : StoredBlock) : Prop where
  extra_eq : block.extra = (r.area.drop record.offset).take record.extra
  extra_length : block.extra.length = record.extra
  stored_length :
    ((r.area.drop (record.offset + record.extra)).take record.stored).length = record.stored
  payload_eq : r.unpack id record.raw
    ((r.area.drop (record.offset + record.extra)).take record.stored) = .ok block.payload

/-- The block of a record that ends in front of the index is read from the bytes it names. -/
theorem exact_of_past_le (inside : r.indexStart ≤ r.bytes.size)
    (past_le : record.past ≤ r.indexStart)
    (extra_eq : block.extra = Bytes.slice r.bytes record.offset record.extra)
    (payload_eq : r.unpack id record.raw
      (Bytes.slice r.bytes (record.offset + record.extra) record.stored) = .ok block.payload) :
    r.Exact id record block := by
  unfold Record.past at past_le
  have area_length := length_area inside
  rw [slice_eq_of_area (by omega)] at extra_eq payload_eq
  refine ⟨extra_eq, ?_, ?_, payload_eq⟩
  · rw [extra_eq, List.length_take, List.length_drop]
    omega
  · rw [List.length_take, List.length_drop]
    omega

/-- Bytes that are there all end where the index starts, or in front of it. -/
theorem past_lt_of_exact (inside : r.indexStart ≤ r.bytes.size)
    (offset_lt : record.offset < 2 ^ (64 : Nat)) (exact_read : r.Exact id record block) :
    record.past < 2 ^ (64 : Nat) := by
  have word := r.indexStart_lt
  have area_length := length_area inside
  have extra_length := exact_read.extra_length
  have stored_length := exact_read.stored_length
  rw [exact_read.extra_eq, List.length_take, List.length_drop] at extra_length
  rw [List.length_take, List.length_drop] at stored_length
  unfold Record.past
  omega

/-- The blocks of a container that was opened, whatever its bytes are: they end in front of the
index, and are read from just the bytes that their records name, unless a record's numbers add up to
`2 ^ 64` or more; and then neither is so. -/
theorem exact_iff_of_opened (opened : ofBytes path bytes magic version = .ok r) :
    (∀ record ∈ r.index, record.past ≤ r.indexStart ↔ record.past < 2 ^ (64 : Nat)) ∧
    ∀ (id : Int) (block : StoredBlock), r.read id = .ok block →
      ∃ record, r.index[id.toNat]? = some record ∧
        (r.Exact id record block ↔ record.past < 2 ^ (64 : Nat)) := by
  obtain ⟨checked, rfl⟩ := ofBytes_eq_ok_iff.1 opened
  have past_le_iff : ∀ record ∈ (ofChecked bytes).index,
      (record.past ≤ (ofChecked bytes).indexStart ↔ record.past < 2 ^ (64 : Nat)) := by
    intro record member
    exact Record.past_le_iff (indexStart_lt _) (checked.stop_le record (List.mem_toArray.1 member))
  refine ⟨past_le_iff, ?_⟩
  intro id block found
  have inside : (ofChecked bytes).indexStart ≤ bytes.size :=
    (Nat.le_add_right _ _).trans checked.inside
  obtain ⟨record, record_eq, extra_eq, payload_eq⟩ := exists_record_of_read found
  have member : record ∈ (ofChecked bytes).index := Array.mem_of_getElem? record_eq
  refine ⟨record, record_eq, past_lt_of_exact inside (offset_lt (List.mem_toArray.1 member)), ?_⟩
  intro small
  exact exact_of_past_le inside ((past_le_iff record member).2 small) extra_eq payload_eq

end Reader

/-- A container of one block, whose index says where the block starts and how many extra bytes and
payload bytes it has. -/
def oneBlock (block : List UInt8) (offset extra stored : Nat) : ByteArray :=
  (rangeMagic ++ Bytes.littleEndian 2 1 ++ Bytes.littleEndian 2 0 ++ Bytes.littleEndian 4 1 ++
    Bytes.littleEndian 8 (headerSize + block.length) ++ List.replicate 4 0 ++ block ++
    Bytes.littleEndian 4 1 ++ Bytes.littleEndian 8 offset ++ Bytes.littleEndian 4 stored ++
    Bytes.littleEndian 4 stored ++ Bytes.littleEndian 2 extra).toByteArray

/-- A block of one extra byte and two payload bytes is read from just these. -/
theorem exact_iff_of_opened_small : ∃ r block record,
    Reader.ofBytes "small" (oneBlock [5, 6, 7] 24 1 2) rangeMagic 1 = .ok r ∧
      r.read 0 = .ok block ∧ r.index[(0 : Int).toNat]? = some record ∧
      record.past ≤ r.indexStart ∧ r.Exact 0 record block := by
  have read : (do
      let r ← Reader.ofBytes "small" (oneBlock [5, 6, 7] 24 1 2) rangeMagic 1
      let _ ← r.read 0
      return r.index.toList.map Record.past) = .ok [27] := by decide +kernel
  obtain ⟨r, opened, read⟩ := Outcome.bind_eq_ok.1 read
  obtain ⟨block, found, past_eq⟩ := Outcome.bind_eq_ok.1 read
  obtain ⟨past_le_iff, exact_iff⟩ := Reader.exact_iff_of_opened opened
  obtain ⟨record, record_eq, exact_iff⟩ := exact_iff 0 block found
  have member : record ∈ r.index := Array.mem_of_getElem? record_eq
  have past_eq : r.index.toList.map Record.past = [27] := Except.ok.inj past_eq
  have small : record.past < 2 ^ (64 : Nat) := by
    have past_mem := List.mem_map_of_mem (f := Record.past) (Array.mem_toList_iff.2 member)
    rw [past_eq, List.mem_singleton] at past_mem
    rw [past_mem]
    decide
  exact ⟨r, block, record, opened, found, record_eq, (past_le_iff record member).2 small,
    exact_iff.2 small⟩

-- No lower bound: a block of four extra bytes at offset 0 is the magic of the file.
example : (do
    let r ← Reader.ofBytes "small" (oneBlock [] 0 4 0) rangeMagic 1
    let block ← r.read 0
    return block.extra) = .ok rangeMagic := by decide +kernel

/-- An index is accepted although its only block starts behind everything, at `2 ^ 64 - 1`, and has
one extra byte: the sum is zero in words.  The block is read, and has no extra byte. -/
theorem Reader.wrapped_reads_short : ∃ r block record,
    ofBytes "small" (oneBlock [] (2 ^ (64 : Nat) - 1) 1 0) rangeMagic 1 = .ok r ∧
      r.index[0]? = some record ∧ ¬record.past ≤ r.indexStart ∧ r.read 0 = .ok block ∧
      block.extra.length ≠ record.extra := by
  have read : (do
      let r ← Reader.ofBytes "small" (oneBlock [] (2 ^ (64 : Nat) - 1) 1 0) rangeMagic 1
      let block ← r.read 0
      return (r.index.toList, r.indexStart, block.extra)) =
        .ok ([{ type := 1, offset := 2 ^ (64 : Nat) - 1, stored := 0, raw := 0, extra := 1 }],
          24, []) := by decide +kernel
  obtain ⟨r, opened, read⟩ := Outcome.bind_eq_ok.1 read
  obtain ⟨block, found, parts_eq⟩ := Outcome.bind_eq_ok.1 read
  obtain ⟨index_eq, start_eq, extra_eq⟩ : _ ∧ _ ∧ _ := by simpa using Except.ok.inj parts_eq
  refine ⟨r, block, _, opened, by rw [← Array.getElem?_toList, index_eq]; rfl, ?_, found, ?_⟩
  · rw [start_eq]
    decide
  · rw [extra_eq]
    decide

end Geofence.Container
