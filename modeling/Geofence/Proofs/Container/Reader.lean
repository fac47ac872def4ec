/-
# Geofence.Proofs.Container.Reader -- containers read back

A container that was closed is opened again, and every block that was appended
reads back as it was handed over (`Reader.ofBytes_close`).  Of compression only
`Compression.RoundTrips` is used, and only where payloads are compressed.  A file
that starts with zeros is never opened (`Reader.ofBytes_refused_of_zeros`).
-/
import Geofence.Proofs.Container.Writer

namespace Geofence.Container

set_option autoImplicit false

variable {w v : Writer} {items : List Item} {item : Item}

namespace Reader

theorem records_eq {bytes : ByteArray} {front : List UInt8} {records : List Record}
    {parts : List (List UInt8)}
    (related : List.Forall₂ (fun (r : Record) part => r.encode = .ok part) records parts)
    (bytes_eq : bytes.data.toList = front ++ parts.flatten) :
    Reader.records bytes front.length records.length = records := by
  rw [Reader.records]
  induction related generalizing front with
  | nil => rfl
  | @cons r part records parts encoded others ih =>
      obtain ⟨width, decoded, -⟩ := Record.decode_encode encoded
      rw [List.flatten_cons] at bytes_eq
      have shifted : bytes.data.toList = front ++ part ++ parts.flatten := by
        rw [bytes_eq, List.append_assoc]
      have rest := ih shifted
      rw [List.length_append, width] at rest
      rw [List.length_cons, List.range_succ_eq_map, List.map_cons, List.map_map]
      congr 1
      · rw [Bytes.slice_eq_take_drop, bytes_eq, Nat.mul_zero, Nat.add_zero, List.drop_left,
          List.take_left' width, decoded]
      · refine Eq.trans (List.map_congr_left ?_) rest
        intro i _
        simp only [Function.comp]
        rw [show front.length + recordSize * i.succ = front.length + recordSize + recordSize * i by
          rw [Nat.mul_succ]; omega]

theorem length_parts {records : List Record} {parts : List (List UInt8)}
    (related : List.Forall₂ (fun (r : Record) part => r.encode = .ok part) records parts) :
    parts.flatten.length = records.length * recordSize := by
  induction related with
  | nil => rw [List.flatten_nil, List.length_nil, List.length_nil, Nat.zero_mul]
  | cons encoded _ ih =>
      rw [List.flatten_cons, List.length_append, (Record.decode_encode encoded).1, ih,
        List.length_cons, Nat.succ_mul, Nat.add_comm]

/-- The index of a closed container is the last thing in it. -/
theorem size_of_parts {head : List UInt8} {parts : List (List UInt8)} {bytes : ByteArray}
    (magic : w.magic.length = 4) (encoded : w.head.encode = .ok head)
    (related : List.Forall₂ (fun (r : Record) part => r.encode = .ok part) w.records.toList parts)
    (bytes_eq : bytes.data.toList = head ++ w.body.data.toList ++ parts.flatten) :
    bytes.size = w.head.indexStart + w.head.blockCount * recordSize := by
  rw [← ByteArray.size_data, ← Array.length_toList, bytes_eq, List.length_append,
    List.length_append, length_parts related, (Head.decode_encode magic encoded).1,
    Array.length_toList, Array.length_toList, ByteArray.size_data]
  rfl

/-- A file that starts with zeros is not opened, whatever magic and version are expected: its index
would start inside the header. -/
theorem ofBytes_refused_of_zeros {bytes : ByteArray} {rest : List UInt8}
    (zeros : bytes.data.toList = List.replicate headerSize 0 ++ rest) (path : String)
    (magic : List UInt8) (version : Int) :
    ∃ fault, ofBytes path bytes magic version = .error fault := by
  have size : ¬bytes.size < headerSize := by
    rw [← ByteArray.size_data, ← Array.length_toList, zeros]
    simp
  have front : Bytes.slice bytes 0 headerSize = List.replicate headerSize 0 := by
    rw [Bytes.slice_eq_take_drop, zeros, List.drop_zero, List.take_left' (List.length_replicate)]
  have start : (Head.decode (List.replicate headerSize 0)).indexStart < headerSize := by decide
  rw [ofBytes, if_neg size]
  simp only [front, start, or_true, if_true]
  split
  · exact ⟨_, rfl⟩
  · split
    · exact ⟨_, rfl⟩
    · exact ⟨_, rfl⟩

variable [Compression]

/-- The blocks of an open container, by id. -/
structure Holds (r : Reader) (items : List Item) : Prop where
  open_eq : r.closed = false
  blockCount_eq : r.blockCount = items.length
  read_eq : ∀ (i : Nat) (item : Item), items[i]? = some item →
    r.read i = .ok { id := i, type := item.type, extra := item.extra, payload := item.payload }

/-- Records stay inside the body. -/
theorem stop_le_of_tells {r : Record} (tells : r.Tells w item) :
    r.stop ≤ headerSize + w.body.size := by
  obtain ⟨front, back, body_eq, offset_eq⟩ := tells.found
  have size : w.body.size = w.body.data.toList.length := by
    rw [Array.length_toList, ByteArray.size_data]
  rw [body_eq, List.length_append, List.length_append, List.length_append, ← tells.extra_eq,
    ← tells.stored_eq] at size
  have := Nat.mod_le (r.offset + r.extra + r.stored) (2 ^ (64 : Nat))
  unfold Record.stop
  omega

theorem unpack_pack {r : Reader} {payload : List UInt8}
    (roundTrips : w.compressed = true → Compression.RoundTrips)
    (compressed_eq : r.compressed = w.compressed) (small : payload.length < 2 ^ 32) (id : Int) :
    r.unpack id payload.length (w.pack payload) = .ok payload := by
  rw [unpack, compressed_eq]
  cases compressed : w.compressed with
  | false => simp [Writer.pack, compressed]
  | true =>
      by_cases empty : payload = []
      · simp [empty]
      · have some_bytes : payload.length ≠ 0 := by simpa using empty
        have packed : w.pack payload = Compression.compress payload := by
          simp [Writer.pack, compressed, empty]
        rw [if_pos rfl, if_neg some_bytes, packed, roundTrips compressed payload empty small]

/-- A block reads back as the item that its record tells of. -/
theorem read_of_tells {r : Reader} {record : Record} {head index : List UInt8} {i : Nat}
    (roundTrips : w.compressed = true → Compression.RoundTrips)
    (bytes_eq : r.bytes.data.toList = head ++ w.body.data.toList ++ index)
    (head_length : head.length = headerSize) (compressed_eq : r.compressed = w.compressed)
    (open_eq : r.closed = false) (found : r.index[i]? = some record)
    (tells : record.Tells w item) (raw_lt : record.raw < 2 ^ 32) :
    r.read i = .ok { id := i, type := item.type, extra := item.extra, payload := item.payload } := by
  obtain ⟨front, back, body_eq, offset_eq⟩ := tells.found
  obtain ⟨inside, record_eq⟩ := Array.getElem?_eq_some_iff.1 found
  have placed : r.bytes.data.toList =
      (head ++ front) ++ item.extra ++ (w.pack item.payload ++ (back ++ index)) := by
    rw [bytes_eq, body_eq]
    simp only [List.append_assoc]
  have extra_start : record.offset = (head ++ front).length := by
    rw [List.length_append, head_length, offset_eq]
  have stored_start : record.offset + record.extra = (head ++ front ++ item.extra).length := by
    rw [List.length_append, ← extra_start, tells.extra_eq]
  have extra_read : Bytes.slice r.bytes record.offset record.extra = item.extra := by
    rw [Bytes.slice_eq_take_drop, placed, List.append_assoc, extra_start, List.drop_left,
      tells.extra_eq, List.take_left]
  have stored_read : Bytes.slice r.bytes (record.offset + record.extra) record.stored =
      w.pack item.payload := by
    rw [Bytes.slice_eq_take_drop, placed, stored_start, List.drop_left, tells.stored_eq,
      List.take_left]
  have raw_eq := tells.raw_eq
  have unpacked : r.unpack i record.raw (w.pack item.payload) = .ok item.payload := by
    rw [raw_eq]
    exact unpack_pack roundTrips compressed_eq (raw_eq ▸ raw_lt) i
  have within : (0 : Int) ≤ i ∧ (i : Int) < r.index.size := by omega
  rw [read, if_neg (by simp [open_eq]), dif_pos within]
  simp only [Int.toNat_natCast, record_eq, stored_read, unpacked]
  rw [if_neg (not_not.2 raw_eq.symm), extra_read, tells.type_eq]

/-- A header, a body and an index are opened as a container with the records of the index. -/
theorem ofBytes_eq {head : List UInt8} {parts : List (List UInt8)} {bytes : ByteArray}
    (magic : w.magic.length = 4) (holds : w.Holds items) (encoded : w.head.encode = .ok head)
    (related : List.Forall₂ (fun (r : Record) part => r.encode = .ok part) w.records.toList parts)
    (bytes_eq : bytes.data.toList = head ++ w.body.data.toList ++ parts.flatten) (path : String) :
    ofBytes path bytes w.magic w.version = .ok {
      bytes
      version := w.head.version.toNat
      flags := w.head.flags
      index := w.records
      closed := false } := by
  obtain ⟨head_length, head_decoded⟩ := Head.decode_encode magic encoded
  have start_eq : w.head.indexStart = (head ++ w.body.data.toList).length := by
    rw [List.length_append, head_length, Array.length_toList, ByteArray.size_data]
    rfl
  have size_eq := size_of_parts magic encoded related bytes_eq
  have head_read : Head.decode (Bytes.slice bytes 0 headerSize) = w.head := by
    rw [Bytes.slice_eq_take_drop, bytes_eq, List.drop_zero, List.append_assoc,
      List.take_left' head_length, head_decoded]
  have records_read : Reader.records bytes w.head.indexStart w.head.blockCount =
      w.records.toList := by
    rw [start_eq]
    change Reader.records _ _ w.records.size = _
    rw [← Array.length_toList]
    exact records_eq related bytes_eq
  have sized : ¬bytes.size < headerSize := by
    rw [size_eq, start_eq, List.length_append, head_length]
    omega
  have inside : ¬(bytes.size < w.head.indexStart + w.head.blockCount * recordSize ∨
      w.head.indexStart < headerSize) := by
    rw [size_eq, start_eq, List.length_append, head_length]
    simp only [Writer.head, Writer.blockCount]
    omega
  have apart : ¬(w.records.toList.any fun r => w.head.indexStart < r.stop) = true := by
    simp only [List.any_eq_true, decide_eq_true_eq, not_exists, not_and, not_lt]
    intro r member
    obtain ⟨i, below, rfl⟩ := List.mem_iff_getElem.1 member
    exact stop_le_of_tells (holds.get (holds.length_eq ▸ below) below)
  rw [ofBytes, if_neg sized]
  simp only [head_read, records_read]
  rw [if_neg (not_not.2 (show w.head.magic = w.magic from rfl)),
    if_neg (not_not.2 (show w.head.version = w.version from rfl)), if_neg inside, if_neg apart,
    Array.toArray_toList]

/-- A container that was closed is opened, and holds what was appended to it. -/
theorem ofBytes_close (roundTrips : w.compressed = true → Compression.RoundTrips)
    (unsealed : w.sealed = none) (magic : w.magic.length = 4) (holds : w.Holds items)
    (closed : w.close = (.ok (), v)) (path : String) :
    ∃ r, ofBytes path v.contents w.magic w.version = .ok r ∧ r.Holds items := by
  obtain ⟨head, parts, encoded, related, contents_eq⟩ := Writer.close_ok unsealed closed
  have head_length := (Head.decode_encode magic encoded).1
  have compressed_eq : (w.head.flags % 2 == 1) = w.compressed := by
    cases compressed : w.compressed <;> simp [Writer.head, compressed]
  refine ⟨_, ofBytes_eq magic holds encoded related contents_eq path, rfl,
    holds.length_eq.symm, ?_⟩
  intro i item item_found
  obtain ⟨below, rfl⟩ := List.getElem?_eq_some_iff.1 item_found
  have inside : i < w.records.toList.length := holds.length_eq ▸ below
  have found : w.records[i]? = some w.records.toList[i] := by
    rw [← Array.getElem?_toList, List.getElem?_eq_getElem inside]
  have raw_lt := (Record.decode_encode (related.get inside (related.length_eq ▸ inside))).2.2
  exact read_of_tells roundTrips contents_eq head_length compressed_eq rfl found
    (holds.get below inside) raw_lt

end Reader

end Geofence.Container
