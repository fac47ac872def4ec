/-
# Geofence.Proofs.Container.Writer -- what a container holds

The fixed parts of a container read back from their stored forms, which are
`recordSize` and `headerSize` bytes long.  Storing one fails only for a number
that does not fit its field.

`Writer.Holds` is the invariant of a container that is being written: there is a
record for every item appended, in order, and each record tells where in the
body its item lies.  Appending keeps it (`Holds.appendAll`), because it puts
bytes behind all others only.  A container that was closed consists of its
header, its body and its records, stored one behind the other (`close_ok`); one
whose closing failed starts with zeros (`exists_of_close_refused`).
-/
import Geofence.Container.Basic
import Geofence.Proofs.Bytes.Field

namespace Geofence.Container

set_option autoImplicit false

/-! ## Records and headers read back -/

/-- A record reads back from its stored form, and its payload sizes are below `2 ^ 32`. -/
theorem Record.decode_encode {r : Record} {bytes : List UInt8} (stored : r.encode = .ok bytes) :
    bytes.length = recordSize ∧ Record.decode bytes = r ∧ r.raw < 2 ^ 32 := by
  obtain ⟨type, type_stored, stored⟩ := Outcome.bind_eq_ok.1 stored
  obtain ⟨offset, offset_stored, stored⟩ := Outcome.bind_eq_ok.1 stored
  obtain ⟨size, size_stored, stored⟩ := Outcome.bind_eq_ok.1 stored
  obtain ⟨raw, raw_stored, stored⟩ := Outcome.bind_eq_ok.1 stored
  obtain ⟨extra, extra_stored, stored⟩ := Outcome.bind_eq_ok.1 stored
  obtain ⟨length₁, -, -, type_eq⟩ := Bytes.littleField_spec type_stored
  obtain ⟨length₂, -, -, offset_eq⟩ := Bytes.littleField_spec offset_stored
  obtain ⟨length₃, -, -, size_eq⟩ := Bytes.littleField_spec size_stored
  obtain ⟨length₄, -, raw_lt, raw_eq⟩ := Bytes.littleField_spec raw_stored
  obtain ⟨length₅, -, -, extra_eq⟩ := Bytes.littleField_spec extra_stored
  rw [Nat.cast_inj] at offset_eq size_eq raw_eq extra_eq
  have bytes_eq : type ++ (offset ++ (size ++ (raw ++ extra))) = bytes := by
    simpa only [List.append_assoc] using Except.ok.inj stored
  refine ⟨by simp [← bytes_eq, recordSize, length₁, length₂, length₃, length₄, length₅], ?_,
    by norm_num at raw_lt; omega⟩
  simp [Record.decode, ← bytes_eq, List.drop_append, List.drop_eq_nil_of_le,
    List.take_of_length_le, length₁, length₂, length₃, length₄, length₅, type_eq, offset_eq,
    size_eq, raw_eq, extra_eq]

theorem Head.decode_encode {h : Head} {bytes : List UInt8} (magic : h.magic.length = 4) (stored : h.encode = .ok bytes) :
    bytes.length = headerSize ∧ Head.decode bytes = h := by
  obtain ⟨version, version_stored, stored⟩ := Outcome.bind_eq_ok.1 stored
  obtain ⟨flags, flags_stored, stored⟩ := Outcome.bind_eq_ok.1 stored
  obtain ⟨blockCount, blockCount_stored, stored⟩ := Outcome.bind_eq_ok.1 stored
  obtain ⟨indexStart, indexStart_stored, stored⟩ := Outcome.bind_eq_ok.1 stored
  obtain ⟨length₁, -, -, version_eq⟩ := Bytes.littleField_spec version_stored
  obtain ⟨length₂, -, -, flags_eq⟩ := Bytes.littleField_spec flags_stored
  obtain ⟨length₃, -, -, blockCount_eq⟩ := Bytes.littleField_spec blockCount_stored
  obtain ⟨length₄, -, -, indexStart_eq⟩ := Bytes.littleField_spec indexStart_stored
  rw [Nat.cast_inj] at flags_eq blockCount_eq indexStart_eq
  have bytes_eq : h.magic ++ (version ++ (flags ++ (blockCount ++ (indexStart ++
      List.replicate 4 0)))) = bytes := by
    simpa only [List.append_assoc] using Except.ok.inj stored
  refine ⟨by simp [← bytes_eq, headerSize, magic, length₁, length₂, length₃, length₄], ?_⟩
  simp [Head.decode, ← bytes_eq, List.drop_append, List.drop_eq_nil_of_le, magic, length₁, length₂,
    length₃, length₄, version_eq, flags_eq, blockCount_eq, indexStart_eq]

variable {w v : Writer}

namespace Writer

/-! ## Closing -/

theorem writeIndex_ok {records : List Record} {start index : ByteArray}
    (written : writeIndex start records = (index, .ok ())) :
    ∃ parts : List (List UInt8), List.Forall₂ (fun r part => r.encode = .ok part) records parts ∧
      index.data.toList = start.data.toList ++ parts.flatten := by
  induction records generalizing start with
  | nil =>
      obtain rfl := (Prod.mk.inj written).1
      exact ⟨[], .nil, by simp⟩
  | cons r records ih =>
      rw [writeIndex] at written
      split at written
      · rename_i part encoded
        obtain ⟨parts, others, index_eq⟩ := ih written
        refine ⟨part :: parts, .cons encoded others, ?_⟩
        rw [index_eq]
        simp
      · cases (Prod.mk.inj written).2

/-- A container that was closed: the header, the body and the index. -/
theorem close_ok (unsealed : w.sealed = none) (closed : w.close = (.ok (), v)) :
    ∃ (head : List UInt8) (parts : List (List UInt8)), w.head.encode = .ok head ∧
      List.Forall₂ (fun r part => r.encode = .ok part) w.records.toList parts ∧
      v.contents.data.toList = head ++ w.body.data.toList ++ parts.flatten := by
  rw [close, if_neg (by simp [Writer.closed, unsealed])] at closed
  split at closed
  · cases (Prod.mk.inj closed).1
  · rename_i index _ written
    split at closed
    · cases (Prod.mk.inj closed).1
    · rename_i head encoded
      obtain ⟨parts, related, index_eq⟩ := writeIndex_ok written
      obtain rfl := (Prod.mk.inj closed).2
      refine ⟨head, parts, encoded, related, ?_⟩
      simp [contents, index_eq]

/-- What a failed closing leaves behind starts with zeros. -/
theorem exists_of_close_refused {fault : Fault} (unsealed : w.sealed = none)
    (refused : w.close = (.error fault, v)) :
    ∃ rest, v.contents.data.toList = List.replicate headerSize 0 ++ rest := by
  rw [close, if_neg (by simp [Writer.closed, unsealed])] at refused
  split at refused
  · rename_i index _ _
    obtain rfl := (Prod.mk.inj refused).2
    exact ⟨w.body.data.toList ++ index.data.toList, by simp [contents, unfinished, placeholder]⟩
  · rename_i index _ _
    split at refused
    · obtain rfl := (Prod.mk.inj refused).2
      exact ⟨w.body.data.toList ++ index.data.toList, by simp [contents, unfinished, placeholder]⟩
    · cases (Prod.mk.inj refused).1

/-- A container that was given up: its blocks behind zeros. -/
theorem contents_abort (unsealed : w.sealed = none) :
    w.abort.contents.data.toList = List.replicate headerSize 0 ++ w.body.data.toList := by
  rw [abort, if_neg (by simp [closed, unsealed])]
  simp [contents, unfinished, placeholder]

end Writer

/-! ## Appending -/

/-- A block as it is handed to a writer. -/
structure Item where
  type : Int
  extra : List UInt8
  payload : List UInt8
  deriving DecidableEq, Repr

variable [Compression] {items more : List Item} {item : Item} {r : Record}

/-- The record tells what an item is and where in the body it lies. -/
structure Record.Tells (w : Writer) (item : Item) (r : Record) : Prop where
  type_eq : r.type = item.type
  extra_eq : r.extra = item.extra.length
  stored_eq : r.stored = (w.pack item.payload).length
  raw_eq : r.raw = item.payload.length
  found : ∃ front back : List UInt8,
    w.body.data.toList = front ++ (item.extra ++ w.pack item.payload) ++ back ∧
      r.offset = headerSize + front.length

namespace Writer

def appendItem (w : Writer) (item : Item) : Writer :=
  w.append item.type item.extra item.payload

def appendAll (w : Writer) (items : List Item) : Writer :=
  items.foldl appendItem w

/-- The items appended to a writer. -/
def Holds (w : Writer) (items : List Item) : Prop :=
  List.Forall₂ (Record.Tells w) items w.records.toList

theorem appendItem_body (w : Writer) (item : Item) : (w.appendItem item).body.data.toList =
    w.body.data.toList ++ (item.extra ++ w.pack item.payload) := by
  simp [appendItem, append]

theorem appendAll_frame (w : Writer) (items : List Item) :
    (w.appendAll items).magic = w.magic ∧ (w.appendAll items).version = w.version ∧
      (w.appendAll items).compressed = w.compressed ∧
      (w.appendAll items).sealed = w.sealed := by
  induction items generalizing w with
  | nil => exact ⟨rfl, rfl, rfl, rfl⟩
  | cons item items ih => exact ih (w.appendItem item)

/-- Records stay right when an item is appended, because nothing in front of it moves. -/
theorem tells_appendItem {other : Item} (tells : r.Tells w other) :
    r.Tells (w.appendItem item) other where
  type_eq := tells.type_eq
  extra_eq := tells.extra_eq
  stored_eq := tells.stored_eq
  raw_eq := tells.raw_eq
  found := by
    obtain ⟨front, back, body_eq, offset_eq⟩ := tells.found
    refine ⟨front, back ++ (item.extra ++ w.pack item.payload), ?_, offset_eq⟩
    rw [appendItem_body, body_eq, List.append_assoc _ back]
    rfl

theorem tells_last (w : Writer) (item : Item) :
    ∃ r, (w.appendItem item).records = w.records.push r ∧ r.Tells (w.appendItem item) item := by
  refine ⟨_, rfl, rfl, rfl, rfl, rfl, w.body.data.toList, [], ?_, ?_⟩
  · rw [appendItem_body, List.append_nil]
    rfl
  · rfl

theorem Holds.appendItem (holds : w.Holds items) :
    (w.appendItem item).Holds (items ++ [item]) := by
  obtain ⟨r, records_eq, tells⟩ := tells_last w item
  rw [Holds, records_eq, Array.toList_push]
  exact List.rel_append (holds.imp fun _ _ => tells_appendItem) (.cons tells .nil)

theorem Holds.appendAll (holds : w.Holds items) (more : List Item) :
    (w.appendAll more).Holds (items ++ more) := by
  induction more generalizing w items with
  | nil => rwa [List.append_nil]
  | cons item more ih =>
      have step : (w.appendItem item).Holds (items ++ [item]) := holds.appendItem
      have rest := ih step
      rwa [List.append_assoc, List.singleton_append] at rest

end Writer

end Geofence.Container
