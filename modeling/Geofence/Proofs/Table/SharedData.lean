/-
# Geofence.Proofs.Table.SharedData -- shared data read back

The prefix and the values of a table read back as they were stored; a format
without values stores none (`decode_encode`).  Where the prefix and the number of
values fit their fields, storing fails for a value without room and for nothing
else (`exists_encode_iff`).  The other way round, the bytes of shared data that
was read are the bytes it is stored in (`encode_decode`), and all other bytes are
corrupt.  `values_read_back` puts both directions together.
-/
import Geofence.Proofs.Bytes.Field
import Geofence.Proofs.Format.Grid

namespace Geofence.SharedData

set_option autoImplicit false

variable {f : Format} {value : Int} {values : List Int} {bytes : List UInt8}

def kept (f : Format) (values : List Int) : List Int :=
  if f.valueSize = 0 then [] else values

theorem length_kept (f : Format) (values : List Int) :
    (kept f values).length = 0 ∨ (kept f values).length = values.length := by
  unfold kept
  split
  · exact Or.inl rfl
  · exact Or.inr rfl

theorem encode_eq (f : Format) (d : SharedData) : encode f d = (do
    let tablePrefix ← Bytes.bigField 4 d.tablePrefix
    let count ← Bytes.bigField 4 (kept f d.values.toList).length
    let stored ← (kept f d.values.toList).mapM (encodeValue f)
    return tablePrefix ++ count ++ stored.flatten) :=
  rfl

/-- The stored form depends on the prefix and the values kept only. -/
theorem encode_congr {d e : SharedData} (prefix_eq : d.tablePrefix = e.tablePrefix)
    (kept_eq : kept f d.values.toList = kept f e.values.toList) : encode f d = encode f e := by
  rw [encode_eq, encode_eq, prefix_eq, kept_eq]

theorem encodeValue_spec (stored : encodeValue f value = .ok bytes) :
    bytes.length = f.valueSize ∧ (Bytes.ofBigEndian bytes : Int) = value := by
  unfold encodeValue at stored
  split at stored
  · rename_i inside
    obtain rfl := Except.ok.inj stored
    have below : value.toNat < 256 ^ f.valueSize := by
      zify
      rw [Int.toNat_of_nonneg inside.1]
      exact f.le_greatestValue_iff.1 inside.2
    refine ⟨Bytes.length_bigEndian _ _, ?_⟩
    rw [Bytes.ofBigEndian_bigEndian_of_lt below, Int.toNat_of_nonneg inside.1]
  · contradiction

theorem encodeValue_ok_iff :
    (∃ bytes, encodeValue f value = .ok bytes) ↔ 0 ≤ value ∧ value ≤ f.greatestValue := by
  unfold encodeValue
  split
  · rename_i inside
    exact iff_of_true ⟨_, rfl⟩ inside
  · rename_i outside
    exact iff_of_false (by simp) outside

theorem encodeValue_refused {fault : Fault} (refused : encodeValue f value = .error fault) :
    ¬(0 ≤ value ∧ value ≤ f.greatestValue) ∧ fault = .valueTooWide value f.valueSize := by
  unfold encodeValue at refused
  split at refused
  · contradiction
  · rename_i outside
    exact ⟨outside, (Except.error.inj refused).symm⟩

theorem blames_encode (f : Format) (d : SharedData) :
    Blames {.argument, .overflow} (encode f d) := by
  rw [encode_eq]
  refine .bind ((Bytes.blames_bigField _ _).mono (by simp)) fun _ _ => ?_
  refine .bind ((Bytes.blames_bigField _ _).mono (by simp)) fun _ _ => ?_
  refine .bind (.mapM fun v _ fault refused => ?_) fun _ _ => .ok _
  rw [(encodeValue_refused refused).2]
  exact Or.inl rfl

/-- What stored bytes say of a value is stored as these bytes. -/
theorem encodeValue_ofBigEndian (width : bytes.length = f.valueSize) :
    encodeValue f (Bytes.ofBigEndian bytes) = .ok bytes := by
  have below := Bytes.ofBigEndian_lt bytes
  rw [width] at below
  have inside : (0 : Int) ≤ Bytes.ofBigEndian bytes ∧
      (Bytes.ofBigEndian bytes : Int) ≤ f.greatestValue :=
    ⟨Int.natCast_nonneg _, f.le_greatestValue_iff.2 (by exact_mod_cast below)⟩
  rw [encodeValue, if_pos inside, Int.toNat_natCast, ← width, Bytes.bigEndian_ofBigEndian]

theorem readValues_encode {stored : List (List UInt8)}
    (encoded : values.mapM (encodeValue f) = .ok stored) (done : Array Int) :
    readValues f.valueSize values.length stored.flatten done = done ++ values.toArray := by
  rw [Outcome.mapM_eq_ok_iff] at encoded
  induction encoded generalizing done with
  | nil => simp [readValues]
  | cons head _ ih =>
      obtain ⟨width, value_eq⟩ := encodeValue_spec head
      rw [List.flatten_cons, List.length_cons, readValues, List.take_left' width,
        List.drop_left' width, value_eq, ih]
      simp

theorem length_flatten_encode {stored : List (List UInt8)}
    (encoded : values.mapM (encodeValue f) = .ok stored) :
    stored.flatten.length = values.length * f.valueSize := by
  rw [Outcome.mapM_eq_ok_iff] at encoded
  induction encoded with
  | nil => simp
  | cons head _ ih =>
      rw [List.flatten_cons, List.length_append, ih, (encodeValue_spec head).1, List.length_cons,
        Nat.succ_mul, Nat.add_comm]

variable {d : SharedData}

theorem length_encode (stored : encode f d = .ok bytes) :
    bytes.length = 8 + (kept f d.values.toList).length * f.valueSize := by
  rw [encode_eq] at stored
  obtain ⟨tablePrefix, tablePrefix_stored, stored⟩ := Outcome.bind_eq_ok.1 stored
  obtain ⟨count, count_stored, stored⟩ := Outcome.bind_eq_ok.1 stored
  obtain ⟨values, encoded, stored⟩ := Outcome.bind_eq_ok.1 stored
  obtain rfl := Except.ok.inj stored
  rw [List.length_append, List.length_append, (Bytes.bigField_spec tablePrefix_stored).1,
    (Bytes.bigField_spec count_stored).1, length_flatten_encode encoded]

/-- Shared data reads back from its stored form, but for values that there is no room for. -/
theorem decode_encode (stored : encode f d = .ok bytes) :
    decode f bytes = .ok { d with values := (kept f d.values.toList).toArray } := by
  have size := length_encode stored
  rw [encode_eq] at stored
  obtain ⟨tablePrefix, tablePrefix_stored, stored⟩ := Outcome.bind_eq_ok.1 stored
  obtain ⟨count, count_stored, stored⟩ := Outcome.bind_eq_ok.1 stored
  obtain ⟨values, encoded, stored⟩ := Outcome.bind_eq_ok.1 stored
  obtain ⟨length₁, -, -, tablePrefix_eq⟩ := Bytes.bigField_spec tablePrefix_stored
  obtain ⟨length₂, -, -, count_eq⟩ := Bytes.bigField_spec count_stored
  rw [Nat.cast_inj] at count_eq
  have bytes_eq : tablePrefix ++ (count ++ values.flatten) = bytes := by
    simpa only [List.append_assoc] using Except.ok.inj stored
  have read₁ : bytes.take 4 = tablePrefix := by
    rw [← bytes_eq, List.take_left' length₁]
  have read₂ : (bytes.drop 4).take 4 = count := by
    rw [← bytes_eq, List.drop_left' length₁, List.take_left' length₂]
  have rest : bytes.drop 8 = values.flatten := by
    simp [← bytes_eq, List.drop_append, List.drop_eq_nil_of_le, length₁, length₂]
  have values_read : readValues f.valueSize (kept f d.values.toList).length values.flatten #[] =
      (kept f d.values.toList).toArray := by
    rw [readValues_encode encoded, Array.empty_append]
  have unexpected : ¬((kept f d.values.toList).length ≠ 0 ∧ f.valueSize = 0) := by
    rintro ⟨some_kept, without⟩
    rw [kept, if_pos without] at some_kept
    exact some_kept rfl
  rw [decode, if_neg (by omega)]
  simp only [read₁, read₂, rest, tablePrefix_eq, count_eq]
  rw [if_neg unexpected, if_neg (not_not.2 size), values_read]

/-- In formats with values only values that have room are stored. -/
theorem value_le_of_encode (stored : encode f d = .ok bytes) (room : 0 < f.valueSize) {v : Int}
    (member : v ∈ d.values) : v ≤ f.greatestValue := by
  rw [encode_eq] at stored
  obtain ⟨_, -, stored⟩ := Outcome.bind_eq_ok.1 stored
  obtain ⟨_, -, stored⟩ := Outcome.bind_eq_ok.1 stored
  obtain ⟨_, encoded, -⟩ := Outcome.bind_eq_ok.1 stored
  have kept_all : kept f d.values.toList = d.values.toList := if_neg room.ne'
  rw [kept_all] at encoded
  have own := Outcome.exists_of_mapM_ok encoded (Array.mem_toList_iff.2 member)
  exact (encodeValue_ok_iff.1 own).2

/-! ## What fails to be stored -/

/-- The prefix and the number of values have room in their fields. -/
structure Fits (d : SharedData) : Prop where
  prefix_nonneg : 0 ≤ d.tablePrefix
  prefix_lt : d.tablePrefix < 2 ^ 32
  count_lt : d.values.size < 2 ^ 32

/-- Then storing is storing the values kept. -/
theorem Fits.encode_eq (fits : d.Fits) (f : Format) : ∃ front, encode f d = (do
    let stored ← (kept f d.values.toList).mapM (encodeValue f)
    return front ++ stored.flatten) := by
  have kept_length := length_kept f d.values.toList
  have listed : d.values.toList.length = d.values.size := Array.length_toList
  have count_lt := fits.count_lt
  obtain ⟨a, a_stored⟩ : ∃ a, Bytes.bigField 4 d.tablePrefix = .ok a :=
    Bytes.exists_bigField fits.prefix_nonneg fits.prefix_lt
  obtain ⟨b, b_stored⟩ : ∃ b, Bytes.bigField 4 (kept f d.values.toList).length = .ok b :=
    Bytes.exists_bigField (by omega) (by norm_num; omega)
  refine ⟨a ++ b, ?_⟩
  rw [SharedData.encode_eq, a_stored, b_stored]
  rfl

theorem exists_encode_iff (fits : d.Fits) : (∃ bytes, encode f d = .ok bytes) ↔
    ∀ v ∈ kept f d.values.toList, 0 ≤ v ∧ v ≤ f.greatestValue := by
  obtain ⟨front, encode_is⟩ := fits.encode_eq f
  rw [encode_is]
  constructor
  · rintro ⟨bytes, stored⟩ v member
    obtain ⟨_, encoded, -⟩ := Outcome.bind_eq_ok.1 stored
    exact encodeValue_ok_iff.1 (Outcome.exists_of_mapM_ok encoded member)
  · intro inside
    obtain ⟨stored, encoded⟩ := Outcome.exists_mapM_ok fun v member =>
      encodeValue_ok_iff.2 (inside v member)
    exact ⟨_, Outcome.bind_eq_ok.2 ⟨stored, encoded, rfl⟩⟩

theorem encode_refused (fits : d.Fits) {fault : Fault} (refused : encode f d = .error fault) :
    ∃ v ∈ kept f d.values.toList,
      ¬(0 ≤ v ∧ v ≤ f.greatestValue) ∧ fault = .valueTooWide v f.valueSize := by
  obtain ⟨front, encode_is⟩ := fits.encode_eq f
  rw [encode_is] at refused
  rcases Outcome.bind_eq_error.1 refused with values_refused | ⟨_, -, done⟩
  · obtain ⟨v, member, own⟩ := Outcome.exists_of_mapM_error values_refused
    exact ⟨v, member, encodeValue_refused own⟩
  · contradiction

/-- Storing shared data fails only for what does not fit. -/
theorem exists_encode {p : Nat} (prefix_lt : p < 2 ^ 32) (count_lt : values.length < 2 ^ 32)
    (nonneg : ∀ v ∈ values, 0 ≤ v)
    (fitting : 0 < f.valueSize → ∀ v ∈ values, v ≤ f.greatestValue) :
    ∃ bytes, encode f { tablePrefix := p, values := values.toArray } = .ok bytes := by
  have fits : Fits { tablePrefix := p, values := values.toArray } :=
    ⟨Int.natCast_nonneg p, Int.ofNat_lt.2 prefix_lt, by simpa using count_lt⟩
  refine (exists_encode_iff fits).2 fun v member => ?_
  unfold kept at member
  split at member
  · simp at member
  · rename_i room
    exact ⟨nonneg v member, fitting (Nat.pos_of_ne_zero room) v member⟩

/-! ## Bytes that are read -/

theorem blames_decode (f : Format) (data : List UInt8) : Blames {.corrupt} (decode f data) := by
  unfold decode
  dsimp only
  split
  · exact .error rfl
  split
  · exact .error rfl
  split
  · exact .error rfl
  · exact .ok _

theorem readValues_eq_append (size count : Nat) (bytes : List UInt8) (done : Array Int) :
    readValues size count bytes done = done ++ readValues size count bytes #[] := by
  induction count generalizing bytes done with
  | zero => simp [readValues]
  | succ count ih =>
      simp only [readValues]
      rw [ih, ih _ (#[].push _), ← Array.append_assoc]
      simp

/-- Bytes that values are read from, with none left over, are the bytes of these values. -/
theorem readValues_spec {count : Nat} (size : bytes.length = count * f.valueSize) :
    ∃ stored, (readValues f.valueSize count bytes #[]).toList.mapM (encodeValue f) = .ok stored ∧
      stored.flatten = bytes := by
  induction count generalizing bytes with
  | zero =>
      rw [Nat.zero_mul, List.length_eq_zero_iff] at size
      exact ⟨[], rfl, size.symm⟩
  | succ count ih =>
      rw [Nat.succ_mul] at size
      have front : (bytes.take f.valueSize).length = f.valueSize := by simp [size]
      have back : (bytes.drop f.valueSize).length = count * f.valueSize := by simp [size]
      obtain ⟨stored, encoded, whole⟩ := ih back
      refine ⟨bytes.take f.valueSize :: stored, ?_, ?_⟩
      · rw [Outcome.mapM_eq_ok_iff] at encoded ⊢
        rw [readValues, readValues_eq_append, Array.toList_append]
        exact .cons (encodeValue_ofBigEndian front) encoded
      · rw [List.flatten_cons, whole, List.take_append_drop]

/-- The bytes of shared data that was read: the prefix, the number of values and the values, with
nothing left over. -/
structure ReadFrom (f : Format) (data : List UInt8) (d : SharedData) : Prop where
  prefix_eq : d.tablePrefix = Bytes.ofBigEndian (data.take 4)
  count_eq : Bytes.ofBigEndian ((data.drop 4).take 4) = d.values.size
  length_eq : data.length = 8 + d.values.size * f.valueSize
  values_eq : d.values = readValues f.valueSize d.values.size (data.drop 8) #[]
  empty_of_no_room : f.valueSize = 0 → d.values.size = 0

theorem readFrom_of_decode {data : List UInt8} (read : decode f data = .ok d) :
    ReadFrom f data d := by
  unfold decode at read
  dsimp only at read
  split at read
  · contradiction
  split at read
  · contradiction
  rename_i expected
  split at read
  · contradiction
  rename_i whole
  obtain rfl := Except.ok.inj read
  have count := size_readValues f.valueSize (Bytes.ofBigEndian ((data.drop 4).take 4))
    (data.drop 8) #[]
  rw [Array.size_empty, Nat.zero_add] at count
  exact {
    prefix_eq := rfl
    count_eq := count.symm
    length_eq := by rw [count, not_not.1 whole]
    values_eq := by rw [count]
    empty_of_no_room := fun without => by
      rw [count]
      exact not_not.1 fun some_values => expected ⟨some_values, without⟩ }

theorem ReadFrom.kept_eq {data : List UInt8} (read : ReadFrom f data d) :
    kept f d.values.toList = d.values.toList := by
  unfold kept
  split
  · rename_i without
    have empty := read.empty_of_no_room without
    rw [← Array.length_toList, List.length_eq_zero_iff] at empty
    exact empty.symm
  · rfl

/-- Shared data that was read is stored in the bytes it was read from. -/
theorem encode_decode {data : List UInt8} (read : decode f data = .ok d) :
    encode f d = .ok data := by
  have found := readFrom_of_decode read
  have long := found.length_eq
  have size : (data.drop 8).length = d.values.size * f.valueSize := by
    rw [List.length_drop, long]
    omega
  obtain ⟨stored, encoded, whole⟩ := readValues_spec size
  rw [← found.values_eq] at encoded
  have prefix_stored : Bytes.bigField 4 d.tablePrefix = .ok (data.take 4) := by
    rw [found.prefix_eq]
    exact Bytes.bigField_of_read 0 (by omega) rfl
  have count_stored := Bytes.bigField_of_read 4 (by omega) found.count_eq
  rw [encode_eq, found.kept_eq, Array.length_toList, prefix_stored, count_stored, encoded]
  change Except.ok _ = _
  rw [whole, List.append_assoc, Bytes.take_append_drop_at data 4, List.take_append_drop]

/-! ## Both directions -/

/-- Shared data and its bytes. Where the prefix and the number of values fit their fields, a format
with values stores shared data just when every value has room, refuses it for a value that has none
otherwise, and reads it back unchanged; a format without values stores it whatever the values are,
and reads it back without them. Bytes are corrupt, or are what the shared data read from them is
stored in. -/
theorem values_read_back (f : Format) :
    (∀ d : SharedData, d.Fits →
      (0 < f.valueSize →
        ((∃ bytes, encode f d = .ok bytes) ↔ ∀ v ∈ d.values, 0 ≤ v ∧ v ≤ f.greatestValue) ∧
        (∀ fault, encode f d = .error fault → fault.kind = .argument ∧
          ∃ v ∈ d.values, ¬(0 ≤ v ∧ v ≤ f.greatestValue) ∧ fault = .valueTooWide v f.valueSize) ∧
        ∀ bytes, encode f d = .ok bytes → decode f bytes = .ok d) ∧
      (f.valueSize = 0 → ∃ bytes, encode f d = .ok bytes ∧
        decode f bytes = .ok { d with values := #[] })) ∧
    ∀ bytes : List UInt8,
      (∀ fault, decode f bytes = .error fault → fault.kind = .corrupt) ∧
      ∀ d, decode f bytes = .ok d → encode f d = .ok bytes := by
  refine ⟨fun d fits => ⟨?_, ?_⟩, fun bytes => ⟨blames_decode f bytes, fun d => encode_decode⟩⟩
  · intro room
    have kept_all : kept f d.values.toList = d.values.toList := if_neg room.ne'
    refine ⟨?_, ?_, ?_⟩
    · rw [exists_encode_iff fits, kept_all]
      simp only [Array.mem_toList_iff]
    · intro fault refused
      obtain ⟨v, member, outside, rfl⟩ := encode_refused fits refused
      rw [kept_all, Array.mem_toList_iff] at member
      exact ⟨rfl, v, member, outside, rfl⟩
    · intro bytes stored
      have read := decode_encode stored
      rwa [kept_all, Array.toArray_toList] at read
  · intro without
    have kept_none : kept f d.values.toList = [] := if_pos without
    obtain ⟨bytes, stored⟩ : ∃ bytes, encode f d = .ok bytes := by
      rw [exists_encode_iff fits, kept_none]
      simp
    have read := decode_encode stored
    rw [kept_none] at read
    exact ⟨bytes, stored, read⟩

/-- The numbers of a format of level 2, but for the bytes of a value. -/
def sampleFields (valueSize : Int) : Format.Fields where
  level := 2
  prefixBits := 3
  suffixBits := 4
  firstTable := 2
  rowBits := 8
  isAllowedList := false
  valueSize := valueSize
  version := 0

def twoBytes : Format :=
  (Format.ofFields (sampleFields 2)).toOption.get (by decide)

def noBytes : Format :=
  (Format.ofFields (sampleFields 0)).toOption.get (by decide)

/-- The greatest value of two bytes is stored and read back, the next one is refused. A format
without values stores either, and reads back neither. Bytes with one value are those of shared data
in the first format, and corrupt in the second. -/
theorem values_read_back_twoBytes :
    (∃ bytes, encode twoBytes { tablePrefix := 7, values := #[0, 65535] } = .ok bytes ∧
      decode twoBytes bytes = .ok { tablePrefix := 7, values := #[0, 65535] }) ∧
    (¬∃ bytes, encode twoBytes { tablePrefix := 7, values := #[1, 65536] } = .ok bytes) ∧
    (∃ bytes, encode noBytes { tablePrefix := 7, values := #[1, 65536] } = .ok bytes ∧
      decode noBytes bytes = .ok { tablePrefix := 7, values := #[] }) ∧
    encode twoBytes { tablePrefix := 7, values := #[65534] } =
      .ok [0, 0, 0, 7, 0, 0, 0, 1, 255, 254] ∧
    ∃ fault, decode noBytes [0, 0, 0, 7, 0, 0, 0, 1, 255, 254] = .error fault ∧
      fault.kind = .corrupt := by
  obtain ⟨stores, reads⟩ := values_read_back twoBytes
  obtain ⟨stores_without, reads_without⟩ := values_read_back noBytes
  have small : Fits { tablePrefix := 7, values := #[0, 65535] } := ⟨by decide, by decide, by decide⟩
  have great : Fits { tablePrefix := 7, values := #[1, 65536] } := ⟨by decide, by decide, by decide⟩
  obtain ⟨stored_iff, -, read_back⟩ := (stores _ small).1 (by decide)
  obtain ⟨bytes, stored⟩ := stored_iff.2 (by decide)
  have refused := (stores _ great).1 (by decide)
  have unexpected : decode noBytes [0, 0, 0, 7, 0, 0, 0, 1, 255, 254] =
      .error (.valuesUnexpected 1) := rfl
  refine ⟨⟨bytes, stored, read_back bytes stored⟩, ?_, (stores_without _ great).2 rfl,
    (reads _).2 _ rfl, _, unexpected, (reads_without _).1 _ unexpected⟩
  rw [refused.1]
  decide

end Geofence.SharedData
