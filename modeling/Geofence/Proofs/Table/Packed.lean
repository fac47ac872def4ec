/-
# Geofence.Proofs.Table.Packed -- packed tables read back

A row whose key and value have room reads back from its bytes, rows of one width
read back one after the other, and with them the whole table
(`PackedTable.decode_encode`).  Storing a table fails only when its size does not
fit the header.  The other way round, the bytes of a table that was read are the
bytes it is stored in, but for two bytes of the header that say nothing
(`PackedTable.encode_decode`).
-/
import Geofence.Proofs.Bytes.Field
import Geofence.Table.Packed

namespace Geofence

set_option autoImplicit false

variable {l : RowLayout}

theorem RowLayout.of_self (l : RowLayout) : RowLayout.of l.rowSize l.keyBits = .ok l := by
  have := l.rowSize_pos
  have := l.rowSize_le
  have := l.keyBits_pos
  have := l.keyBits_lt
  rw [RowLayout.of, dif_pos (by omega), dif_pos (by omega)]
  simp

theorem RowLayout.eq_of_of {rowSize keyBits : Int} (made : RowLayout.of rowSize keyBits = .ok l) :
    (l.rowSize : Int) = rowSize ∧ (l.keyBits : Int) = keyBits := by
  unfold RowLayout.of at made
  split at made
  · split at made
    · obtain rfl := Except.ok.inj made
      dsimp only
      omega
    · contradiction
  · contradiction

theorem RowLayout.keyBits_add_valueBits (l : RowLayout) :
    l.keyBits + l.valueBits = 8 * l.rowSize := by
  have := l.keyBits_lt
  unfold valueBits
  omega

/-- Keys and values are as many together as there are rows of bytes. -/
theorem RowLayout.keys_mul_values (l : RowLayout) :
    2 ^ l.keyBits * 2 ^ l.valueBits = 256 ^ l.rowSize := by
  rw [← pow_add, l.keyBits_add_valueBits, pow_mul]
  norm_num

namespace Row

structure Fits (l : RowLayout) (r : Row) : Prop where
  key_lt : r.key < 2 ^ l.keyBits
  value_lt : r.value < 2 ^ l.valueBits

variable {r : Row}

theorem word_lt (fits : r.Fits l) : r.word l < 256 ^ l.rowSize := by
  rw [← l.keys_mul_values]
  calc r.word l < r.key * 2 ^ l.valueBits + 2 ^ l.valueBits := Nat.add_lt_add_left fits.value_lt _
    _ = (r.key + 1) * 2 ^ l.valueBits := (Nat.succ_mul _ _).symm
    _ ≤ 2 ^ l.keyBits * 2 ^ l.valueBits := Nat.mul_le_mul_right _ fits.key_lt

theorem ofWord_word (fits : r.Fits l) : ofWord l (r.word l) = r := by
  have positive : 0 < 2 ^ l.valueBits := by positivity
  unfold ofWord word
  rw [Nat.add_comm, Nat.add_mul_div_right _ _ positive, Nat.div_eq_of_lt fits.value_lt,
    Nat.add_mul_mod_self_right, Nat.mod_eq_of_lt fits.value_lt, Nat.zero_add]

theorem decode_encode (fits : r.Fits l) : decode l (r.encode l) = r := by
  rw [decode, encode, Bytes.ofBigEndian_bigEndian_of_lt (word_lt fits), ofWord_word fits]

theorem length_encode (l : RowLayout) (r : Row) : (r.encode l).length = l.rowSize :=
  Bytes.length_bigEndian _ _

theorem fits_decode {bytes : List UInt8} (width : bytes.length = l.rowSize) :
    (decode l bytes).Fits l where
  key_lt := by
    have below := Bytes.ofBigEndian_lt bytes
    rw [width, ← l.keys_mul_values, Nat.mul_comm] at below
    exact Nat.div_lt_of_lt_mul below
  value_lt := Nat.mod_lt _ (by positivity)

theorem encode_decode {bytes : List UInt8} (width : bytes.length = l.rowSize) :
    encode l (decode l bytes) = bytes := by
  have whole : word l (ofWord l (Bytes.ofBigEndian bytes)) = Bytes.ofBigEndian bytes :=
    Nat.div_add_mod' _ _
  rw [encode, decode, whole, ← width, Bytes.bigEndian_ofBigEndian]

end Row

namespace PackedTable

variable {rows : List Row}

theorem length_flatMap_encode (l : RowLayout) (rows : List Row) :
    (rows.flatMap (Row.encode l)).length = rows.length * l.rowSize := by
  induction rows with
  | nil => simp
  | cons r rows ih =>
      rw [List.flatMap_cons, List.length_append, ih, Row.length_encode, List.length_cons,
        Nat.succ_mul, Nat.add_comm]

theorem readRows_encode (fits : ∀ r ∈ rows, r.Fits l) (done : Array Row) :
    readRows l rows.length (rows.flatMap (Row.encode l)) done = done ++ rows.toArray := by
  induction rows generalizing done with
  | nil => simp [readRows]
  | cons r rows ih =>
      obtain ⟨own, others⟩ := List.forall_mem_cons.1 fits
      have width := Row.length_encode l r
      rw [List.flatMap_cons, List.length_cons, readRows, List.take_left' width,
        List.drop_left' width, ih others, Row.decode_encode own]
      simp

variable {t : PackedTable} {bytes : List UInt8}

theorem length_encode (stored : t.encode = .ok bytes) :
    bytes.length = headerSize + t.shared.length + t.rows.size * t.layout.rowSize := by
  obtain ⟨rowSize, rowSize_stored, stored⟩ := Outcome.bind_eq_ok.1 stored
  obtain ⟨keyBits, keyBits_stored, stored⟩ := Outcome.bind_eq_ok.1 stored
  obtain ⟨sharedSize, sharedSize_stored, stored⟩ := Outcome.bind_eq_ok.1 stored
  obtain ⟨rowCount, rowCount_stored, stored⟩ := Outcome.bind_eq_ok.1 stored
  have row_bytes := length_flatMap_encode t.layout t.rows.toList
  rw [t.rows.length_toList] at row_bytes
  rw [← Except.ok.inj stored]
  simp only [List.length_append, (Bytes.bigField_spec rowSize_stored).1,
    (Bytes.bigField_spec keyBits_stored).1, (Bytes.bigField_spec sharedSize_stored).1,
    (Bytes.bigField_spec rowCount_stored).1, row_bytes, headerSize, List.length_cons,
    List.length_nil]

theorem decode_encode (fits : ∀ r ∈ t.rows, r.Fits t.layout) (stored : t.encode = .ok bytes) :
    decode bytes = .ok t := by
  have size := length_encode stored
  obtain ⟨rowSize, rowSize_stored, stored⟩ := Outcome.bind_eq_ok.1 stored
  obtain ⟨keyBits, keyBits_stored, stored⟩ := Outcome.bind_eq_ok.1 stored
  obtain ⟨sharedSize, sharedSize_stored, stored⟩ := Outcome.bind_eq_ok.1 stored
  obtain ⟨rowCount, rowCount_stored, stored⟩ := Outcome.bind_eq_ok.1 stored
  obtain ⟨length₁, -, -, rowSize_eq⟩ := Bytes.bigField_spec rowSize_stored
  obtain ⟨length₂, -, -, keyBits_eq⟩ := Bytes.bigField_spec keyBits_stored
  obtain ⟨length₃, -, -, sharedSize_eq⟩ := Bytes.bigField_spec sharedSize_stored
  obtain ⟨length₄, -, -, rowCount_eq⟩ := Bytes.bigField_spec rowCount_stored
  rw [Nat.cast_inj] at sharedSize_eq rowCount_eq
  have bytes_eq : rowSize ++ (keyBits ++ ([0, 0] ++ (sharedSize ++ (rowCount ++ (t.shared ++
      t.rows.toList.flatMap (Row.encode t.layout)))))) = bytes := by
    simpa only [List.append_assoc] using Except.ok.inj stored
  have read₁ : bytes.take 1 = rowSize := by
    rw [← bytes_eq, List.take_left' length₁]
  have read₂ : (bytes.drop 1).take 1 = keyBits := by
    rw [← bytes_eq, List.drop_left' length₁, List.take_left' length₂]
  have read₃ : (bytes.drop 4).take 4 = sharedSize := by
    simp [← bytes_eq, List.drop_append, List.drop_eq_nil_of_le, length₁, length₂, length₃]
  have read₄ : (bytes.drop 8).take 4 = rowCount := by
    simp [← bytes_eq, List.drop_append, List.drop_eq_nil_of_le, length₁, length₂,
      length₃, length₄]
  have rest : bytes.drop headerSize = t.shared ++ t.rows.toList.flatMap (Row.encode t.layout) := by
    simp [← bytes_eq, List.drop_append, List.drop_eq_nil_of_le, headerSize, length₁, length₂,
      length₃, length₄]
  have rows_read := readRows_encode (fun r member => fits r (Array.mem_toList_iff.1 member)) #[]
  rw [Array.length_toList, Array.toArray_toList, Array.empty_append] at rows_read
  rw [Nat.cast_inj] at rowSize_eq keyBits_eq
  rw [decode, if_neg (by omega)]
  simp only [read₁, read₂, read₃, read₄, rest, rowSize_eq, keyBits_eq, sharedSize_eq, rowCount_eq,
    t.layout.of_self, List.take_left, List.drop_left, rows_read]
  rw [if_neg (not_not.2 size.symm)]

theorem exists_encode (sharedSize : t.shared.length < 2 ^ 32) (rowCount : t.rows.size < 2 ^ 32) :
    ∃ bytes, t.encode = .ok bytes := by
  have := t.layout.rowSize_le
  have := t.layout.keyBits_lt
  obtain ⟨a, a_stored⟩ : ∃ a, Bytes.bigField 1 t.layout.rowSize = .ok a :=
    Bytes.exists_bigField (by omega) (by norm_num; omega)
  obtain ⟨b, b_stored⟩ : ∃ b, Bytes.bigField 1 t.layout.keyBits = .ok b :=
    Bytes.exists_bigField (by omega) (by norm_num; omega)
  obtain ⟨c, c_stored⟩ : ∃ c, Bytes.bigField 4 t.shared.length = .ok c :=
    Bytes.exists_bigField (by omega) (by norm_num; omega)
  obtain ⟨d, d_stored⟩ : ∃ d, Bytes.bigField 4 t.rows.size = .ok d :=
    Bytes.exists_bigField (by omega) (by norm_num; omega)
  rw [encode, a_stored, b_stored, c_stored, d_stored]
  exact ⟨_, rfl⟩

theorem blames_encode (t : PackedTable) : Blames {.overflow} t.encode := by
  refine .bind (Bytes.blames_bigField _ _) fun _ _ => ?_
  refine .bind (Bytes.blames_bigField _ _) fun _ _ => ?_
  refine .bind (Bytes.blames_bigField _ _) fun _ _ => ?_
  exact .bind (Bytes.blames_bigField _ _) fun _ _ => .ok _

/-- A table is stored just when its two counts fit the header. -/
theorem exists_encode_iff :
    (∃ bytes, t.encode = .ok bytes) ↔ t.shared.length < 2 ^ 32 ∧ t.rows.size < 2 ^ 32 := by
  refine ⟨?_, fun fits => exists_encode fits.1 fits.2⟩
  rintro ⟨bytes, stored⟩
  obtain ⟨_, -, stored⟩ := Outcome.bind_eq_ok.1 stored
  obtain ⟨_, -, stored⟩ := Outcome.bind_eq_ok.1 stored
  obtain ⟨_, sharedSize_stored, stored⟩ := Outcome.bind_eq_ok.1 stored
  obtain ⟨_, rowCount_stored, -⟩ := Outcome.bind_eq_ok.1 stored
  obtain ⟨-, -, sharedSize_lt, -⟩ := Bytes.bigField_spec sharedSize_stored
  obtain ⟨-, -, rowCount_lt, -⟩ := Bytes.bigField_spec rowCount_stored
  norm_num at sharedSize_lt rowCount_lt
  omega

/-! ## Rows that are added -/

/-- A row that may be added: its key and its value have room, and its key is greater than that of
the last row. -/
structure Admits (t : PackedTable) (key value : Int) : Prop where
  key_range : 0 ≤ key ∧ key < 2 ^ t.layout.keyBits
  value_range : 0 ≤ value ∧ value < 2 ^ t.layout.valueBits
  ascending : ∀ last ∈ t.rows.back?, (last.key : Int) < key

variable {key value : Int}

theorem push_of_admits (admits : t.Admits key value) :
    t.push key value = .ok { t with rows := t.rows.push ⟨key.toNat, value.toNat⟩ } := by
  rw [push, if_neg (not_not.2 admits.key_range), if_neg (not_not.2 admits.value_range)]
  cases last_row : t.rows.back? with
  | none => rfl
  | some last =>
      have greater := admits.ascending last last_row
      simp only
      rw [if_neg (by omega)]

theorem push_refused (not_admitted : ¬t.Admits key value) :
    ∃ fault, t.push key value = .error fault := by
  rw [push]
  by_cases key_range : 0 ≤ key ∧ key < 2 ^ t.layout.keyBits
  · rw [if_neg (not_not.2 key_range)]
    by_cases value_range : 0 ≤ value ∧ value < 2 ^ t.layout.valueBits
    · rw [if_neg (not_not.2 value_range)]
      cases last_row : t.rows.back? with
      | none => exact absurd ⟨key_range, value_range, by simp [last_row]⟩ not_admitted
      | some last =>
          by_cases below : key ≤ last.key
          · simp [below]
          · refine absurd ⟨key_range, value_range, ?_⟩ not_admitted
            intro other other_row
            rw [last_row] at other_row
            cases other_row
            omega
    · rw [if_pos value_range]
      exact ⟨_, rfl⟩
  · rw [if_pos key_range]
    exact ⟨_, rfl⟩

/-! ## Bytes that are read -/

theorem blames_decode (data : List UInt8) : Blames {.corrupt} (decode data) := by
  unfold decode
  dsimp only
  split
  · exact .error rfl
  split
  · exact .error rfl
  split
  · exact .error rfl
  · exact .ok _

/-- Bytes that rows are read from, with none left over, are the bytes of these rows, and the rows
have room. -/
theorem readRows_spec {count : Nat} (size : bytes.length = count * l.rowSize) :
    (∀ r ∈ readRows l count bytes #[], r.Fits l) ∧
      (readRows l count bytes #[]).toList.flatMap (Row.encode l) = bytes := by
  induction count generalizing bytes with
  | zero =>
      rw [Nat.zero_mul, List.length_eq_zero_iff] at size
      simp [readRows, size]
  | succ count ih =>
      rw [Nat.succ_mul] at size
      have front : (bytes.take l.rowSize).length = l.rowSize := by simp [size]
      have back : (bytes.drop l.rowSize).length = count * l.rowSize := by simp [size]
      obtain ⟨fits, whole⟩ := ih back
      rw [readRows, readRows_eq_append]
      constructor
      · intro r member
        rcases Array.mem_append.1 member with first | later
        · obtain rfl : r = Row.decode l (bytes.take l.rowSize) := by simpa using first
          exact Row.fits_decode front
        · exact fits r later
      · simp [whole, Row.encode_decode front]

/-- The bytes of a table that was read: a header, the shared bytes and the rows, with nothing left
over. -/
structure ReadFrom (data : List UInt8) (t : PackedTable) : Prop where
  rowSize_eq : Bytes.ofBigEndian (data.take 1) = t.layout.rowSize
  keyBits_eq : Bytes.ofBigEndian ((data.drop 1).take 1) = t.layout.keyBits
  length_eq : data.length = headerSize + t.shared.length + t.rows.size * t.layout.rowSize
  sharedSize_eq : Bytes.ofBigEndian ((data.drop 4).take 4) = t.shared.length
  rowCount_eq : Bytes.ofBigEndian ((data.drop 8).take 4) = t.rows.size
  shared_eq : t.shared = (data.drop headerSize).take t.shared.length
  rows_eq : t.rows =
    readRows t.layout t.rows.size (data.drop (headerSize + t.shared.length)) #[]

theorem readFrom_of_decode {data : List UInt8} (read : decode data = .ok t) : ReadFrom data t := by
  unfold decode at read
  split at read
  · contradiction
  · dsimp only at read
    split at read
    · contradiction
    · rename_i l layout
      split at read
      · contradiction
      · rename_i whole
        obtain rfl := Except.ok.inj read
        obtain ⟨rowSize_eq, keyBits_eq⟩ := RowLayout.eq_of_of layout
        rw [Nat.cast_inj] at rowSize_eq keyBits_eq
        rw [not_not, ← rowSize_eq] at whole
        have shared_length : ((data.drop headerSize).take
            (Bytes.ofBigEndian ((data.drop 4).take 4))).length =
              Bytes.ofBigEndian ((data.drop 4).take 4) := by
          rw [List.length_take, List.length_drop]
          omega
        have row_count := size_readRows l (Bytes.ofBigEndian ((data.drop 8).take 4))
          ((data.drop headerSize).drop (Bytes.ofBigEndian ((data.drop 4).take 4))) #[]
        rw [Array.size_empty, Nat.zero_add] at row_count
        exact {
          rowSize_eq := rowSize_eq.symm
          keyBits_eq := keyBits_eq.symm
          length_eq := by rw [shared_length, row_count, whole]
          sharedSize_eq := shared_length.symm
          rowCount_eq := row_count.symm
          shared_eq := by rw [shared_length]
          rows_eq := by rw [row_count, shared_length, ← List.drop_drop] }

namespace ReadFrom

variable {data : List UInt8}

theorem rows_spec (read : ReadFrom data t) : (∀ r ∈ t.rows, r.Fits t.layout) ∧
    t.rows.toList.flatMap (Row.encode t.layout) = data.drop (headerSize + t.shared.length) := by
  have size : (data.drop (headerSize + t.shared.length)).length =
      t.rows.size * t.layout.rowSize := by
    rw [List.length_drop, read.length_eq]
    omega
  have spec := readRows_spec size
  rwa [← read.rows_eq] at spec

/-- A number of the header is stored in the bytes it was read from. -/
theorem field_stored (read : ReadFrom data t) (start : Nat) {width n : Nat}
    (inside : start + width ≤ headerSize)
    (value_eq : Bytes.ofBigEndian ((data.drop start).take width) = n) :
    Bytes.bigField width n = .ok ((data.drop start).take width) := by
  have long := read.length_eq
  exact Bytes.bigField_of_read start (by omega) value_eq

end ReadFrom

theorem fits_of_decode {data : List UInt8} (read : decode data = .ok t) :
    ∀ r ∈ t.rows, r.Fits t.layout :=
  (readFrom_of_decode read).rows_spec.1

/-- A table that was read is stored in the bytes it was read from, if they have zeros where the
header says nothing. -/
theorem encode_decode {data : List UInt8} (read : decode data = .ok t)
    (blank : (data.drop 2).take 2 = [0, 0]) : t.encode = .ok data := by
  have found := readFrom_of_decode read
  have rowSize_stored := found.field_stored 0 (by decide) found.rowSize_eq
  have keyBits_stored := found.field_stored 1 (by decide) found.keyBits_eq
  have sharedSize_stored := found.field_stored 4 (by decide) found.sharedSize_eq
  have rowCount_stored := found.field_stored 8 (by decide) found.rowCount_eq
  have shared_back := Bytes.take_append_drop_at data headerSize t.shared.length
  rw [← found.shared_eq] at shared_back
  rw [encode, rowSize_stored, keyBits_stored, sharedSize_stored, rowCount_stored, ← blank,
    found.rows_spec.2]
  change Except.ok _ = _
  simp only [List.append_assoc]
  rw [shared_back, headerSize, Bytes.take_append_drop_at data 8, Bytes.take_append_drop_at data 4,
    Bytes.take_append_drop_at data 2, Bytes.take_append_drop_at data 1,
    Bytes.take_append_drop_at data 0, List.drop_zero]

end PackedTable

end Geofence
