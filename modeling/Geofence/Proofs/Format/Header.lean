/-
# Geofence.Proofs.Format.Header -- the header block read back

The numbers of a format that has a header block read back from it, and pass the
checks again (`decode_encode`).  Only a first table or a version that does not
fit its field keeps a format from having one (`exists_encode`).  Bytes that pass
the checks are the header block of the format they are read as
(`encode_decode`); all others are corrupt.  So a format has one header block at
most, and a block is that of one format at most (`stored_iff_read`).
-/
import Geofence.Format.Header
import Geofence.Proofs.Bytes.Field
import Geofence.Proofs.Format.Preset

namespace Geofence.Header

set_option autoImplicit false

variable {f : Format} {bytes : List UInt8}

theorem decode_encode (stored : encode f = .ok bytes) : decode blockType bytes = .ok f := by
  obtain ⟨level, level_stored, stored⟩ := Outcome.bind_eq_ok.1 stored
  obtain ⟨prefixBits, prefixBits_stored, stored⟩ := Outcome.bind_eq_ok.1 stored
  obtain ⟨suffixBits, suffixBits_stored, stored⟩ := Outcome.bind_eq_ok.1 stored
  obtain ⟨firstTable, firstTable_stored, stored⟩ := Outcome.bind_eq_ok.1 stored
  obtain ⟨rowBits, rowBits_stored, stored⟩ := Outcome.bind_eq_ok.1 stored
  obtain ⟨flag, flag_stored, stored⟩ := Outcome.bind_eq_ok.1 stored
  obtain ⟨valueSize, valueSize_stored, stored⟩ := Outcome.bind_eq_ok.1 stored
  obtain ⟨version, version_stored, stored⟩ := Outcome.bind_eq_ok.1 stored
  obtain ⟨length₁, -, -, level_eq⟩ := Bytes.bigField_spec level_stored
  obtain ⟨length₂, -, -, prefixBits_eq⟩ := Bytes.bigField_spec prefixBits_stored
  obtain ⟨length₃, -, -, suffixBits_eq⟩ := Bytes.bigField_spec suffixBits_stored
  obtain ⟨length₄, -, -, firstTable_eq⟩ := Bytes.bigField_spec firstTable_stored
  obtain ⟨length₅, -, -, rowBits_eq⟩ := Bytes.bigField_spec rowBits_stored
  obtain ⟨length₆, -, -, flag_eq⟩ := Bytes.bigField_spec flag_stored
  obtain ⟨length₇, -, -, valueSize_eq⟩ := Bytes.bigField_spec valueSize_stored
  obtain ⟨length₈, -, -, version_eq⟩ := Bytes.bigField_spec version_stored
  have bytes_eq : level ++ (prefixBits ++ (suffixBits ++ (firstTable ++ (rowBits ++ (flag ++
      (valueSize ++ version)))))) = bytes := by
    simpa only [List.append_assoc] using Except.ok.inj stored
  have two_ways : ¬1 < Bytes.ofBigEndian flag := by
    split at flag_eq <;> omega
  have flag_says : (Bytes.ofBigEndian flag == 1) = f.isAllowedList := by
    rw [Bool.eq_iff_iff, beq_iff_eq]
    split at flag_eq
    · rename_i allowed
      exact iff_of_true (by exact_mod_cast flag_eq) allowed
    · rename_i allowed
      exact iff_of_false (by omega) allowed
  have length_eq : bytes.length = size := by
    simp [← bytes_eq, size, length₁, length₂, length₃, length₄, length₅, length₆, length₇, length₈]
  have flag_read : (bytes.drop 6).take 1 = flag := by
    simp [← bytes_eq, List.drop_append, List.drop_eq_nil_of_le, length₁, length₂, length₃,
      length₄, length₅, length₆]
  have fields_read : fieldsOf bytes (Bytes.ofBigEndian flag) = f.fields := by
    simp [fieldsOf, Format.fields, ← bytes_eq, List.drop_append, List.drop_eq_nil_of_le,
      List.take_of_length_le, length₁, length₂, length₃, length₄, length₅, length₆, length₇, length₈,
      level_eq, prefixBits_eq, suffixBits_eq, firstTable_eq, rowBits_eq, valueSize_eq, version_eq,
      flag_says]
  rw [decode, if_neg (by simp), if_neg (by simpa using length_eq)]
  simp only [flag_read, fields_read]
  rw [if_neg two_ways, Format.ofFields_fields]

theorem length_encode (stored : encode f = .ok bytes) : bytes.length = size := by
  have decoded := decode_encode stored
  by_contra other
  rw [decode, if_neg (by simp), if_pos other] at decoded
  cases decoded

theorem exists_encode (firstTable_lt : f.firstTable < 2 ^ 16) (version_lt : f.version < 2 ^ 32) :
    ∃ bytes, encode f = .ok bytes := by
  have := f.level_le
  have := f.bits_eq
  have := f.rowSize_le
  have := f.valueSize_le
  have row_bits : f.rowBits = 8 * f.rowSize := rfl
  obtain ⟨a, a_stored⟩ : ∃ a, Bytes.bigField 1 f.level = .ok a :=
    Bytes.exists_bigField (by omega) (by norm_num; omega)
  obtain ⟨b, b_stored⟩ : ∃ b, Bytes.bigField 1 f.prefixBits = .ok b :=
    Bytes.exists_bigField (by omega) (by norm_num; omega)
  obtain ⟨c, c_stored⟩ : ∃ c, Bytes.bigField 1 f.suffixBits = .ok c :=
    Bytes.exists_bigField (by omega) (by norm_num; omega)
  obtain ⟨d, d_stored⟩ : ∃ d, Bytes.bigField 2 f.firstTable = .ok d :=
    Bytes.exists_bigField (by omega) (by norm_num; omega)
  obtain ⟨e, e_stored⟩ : ∃ e, Bytes.bigField 1 f.rowBits = .ok e :=
    Bytes.exists_bigField (by omega) (by norm_num; omega)
  obtain ⟨g, g_stored⟩ : ∃ g, Bytes.bigField 1 (if f.isAllowedList then 1 else 0) = .ok g :=
    Bytes.exists_bigField (by split <;> omega) (by norm_num; split <;> omega)
  obtain ⟨h, h_stored⟩ : ∃ h, Bytes.bigField 1 f.valueSize = .ok h :=
    Bytes.exists_bigField (by omega) (by norm_num; omega)
  obtain ⟨i, i_stored⟩ : ∃ i, Bytes.bigField 4 f.version = .ok i :=
    Bytes.exists_bigField (by omega) (by norm_num; omega)
  rw [encode, a_stored, b_stored, c_stored, d_stored, e_stored, g_stored, h_stored, i_stored]
  exact ⟨_, rfl⟩

/-- A format has a header block just when its first table and its version fit their fields. -/
theorem exists_encode_iff :
    (∃ bytes, encode f = .ok bytes) ↔ f.firstTable < 2 ^ 16 ∧ f.version < 2 ^ 32 := by
  refine ⟨?_, fun fits => exists_encode fits.1 fits.2⟩
  rintro ⟨bytes, stored⟩
  obtain ⟨_, -, stored⟩ := Outcome.bind_eq_ok.1 stored
  obtain ⟨_, -, stored⟩ := Outcome.bind_eq_ok.1 stored
  obtain ⟨_, -, stored⟩ := Outcome.bind_eq_ok.1 stored
  obtain ⟨_, firstTable_stored, stored⟩ := Outcome.bind_eq_ok.1 stored
  obtain ⟨_, -, stored⟩ := Outcome.bind_eq_ok.1 stored
  obtain ⟨_, -, stored⟩ := Outcome.bind_eq_ok.1 stored
  obtain ⟨_, -, stored⟩ := Outcome.bind_eq_ok.1 stored
  obtain ⟨_, version_stored, -⟩ := Outcome.bind_eq_ok.1 stored
  obtain ⟨-, -, firstTable_lt, -⟩ := Bytes.bigField_spec firstTable_stored
  obtain ⟨-, -, version_lt, -⟩ := Bytes.bigField_spec version_stored
  norm_num at firstTable_lt version_lt
  omega

theorem blames_encode (f : Format) : Blames {.overflow} (encode f) := by
  refine .bind (Bytes.blames_bigField _ _) fun _ _ => ?_
  refine .bind (Bytes.blames_bigField _ _) fun _ _ => ?_
  refine .bind (Bytes.blames_bigField _ _) fun _ _ => ?_
  refine .bind (Bytes.blames_bigField _ _) fun _ _ => ?_
  refine .bind (Bytes.blames_bigField _ _) fun _ _ => ?_
  refine .bind (Bytes.blames_bigField _ _) fun _ _ => ?_
  refine .bind (Bytes.blames_bigField _ _) fun _ _ => ?_
  exact .bind (Bytes.blames_bigField _ _) fun _ _ => .ok _

/-! ## Bytes that are read -/

theorem blames_decode (type : Int) (data : List UInt8) : Blames {.corrupt} (decode type data) := by
  unfold decode
  dsimp only
  split
  · exact .error rfl
  split
  · exact .error rfl
  split
  · exact .error rfl
  split
  · exact .ok _
  · exact .error rfl

/-- Bytes that are read as a format are twelve, and hold its numbers. -/
theorem fields_of_decode {data : List UInt8} (read : decode blockType data = .ok f) :
    data.length = size ∧ Bytes.ofBigEndian ((data.drop 6).take 1) ≤ 1 ∧
      f.fields = fieldsOf data (Bytes.ofBigEndian ((data.drop 6).take 1)) := by
  unfold decode at read
  dsimp only at read
  split at read
  · contradiction
  split at read
  · contradiction
  rename_i length_eq
  split at read
  · contradiction
  rename_i flag_le
  split at read
  · rename_i made
    obtain rfl := Except.ok.inj read
    exact ⟨not_not.1 length_eq, not_lt.1 flag_le, Format.fields_of_ofFields made⟩
  · contradiction

theorem encode_decode {data : List UInt8} (read : decode blockType data = .ok f) :
    encode f = .ok data := by
  obtain ⟨length_eq, flag_le, fields_eq⟩ := fields_of_decode read
  simp only [Format.fields, fieldsOf, Format.Fields.mk.injEq, Nat.cast_inj] at fields_eq
  obtain ⟨level_eq, prefixBits_eq, suffixBits_eq, firstTable_eq, rowBits_eq, allowed_eq,
    valueSize_eq, version_eq⟩ := fields_eq
  have stored (start : Nat) {width n : Nat} (inside : start + width ≤ size)
      (n_eq : n = Bytes.ofBigEndian ((data.drop start).take width)) :
      Bytes.bigField width n = .ok ((data.drop start).take width) :=
    Bytes.bigField_of_read start (inside.trans_eq length_eq.symm) n_eq.symm
  have flag_eq : (if f.isAllowedList then 1 else 0) =
      Bytes.ofBigEndian ((data.drop 6).take 1) := by
    rw [allowed_eq]
    split
    · rename_i one
      exact (beq_iff_eq.1 one).symm
    · rename_i other
      rw [beq_iff_eq] at other
      omega
  have flag_stored := stored 6 (by decide) flag_eq
  rw [Nat.cast_ite, Nat.cast_one, Nat.cast_zero] at flag_stored
  rw [encode, stored 0 (by decide) level_eq, stored 1 (by decide) prefixBits_eq,
    stored 2 (by decide) suffixBits_eq, stored 3 (by decide) firstTable_eq,
    stored 5 (by decide) rowBits_eq, flag_stored, stored 7 (by decide) valueSize_eq,
    stored 8 (by decide) version_eq]
  have last : (data.drop 8).take 4 = data.drop 8 := by
    rw [List.take_of_length_le (by rw [List.length_drop, length_eq]; decide)]
  change Except.ok _ = _
  simp only [List.append_assoc]
  rw [last, Bytes.take_append_drop_at data 7, Bytes.take_append_drop_at data 6,
    Bytes.take_append_drop_at data 5, Bytes.take_append_drop_at data 3,
    Bytes.take_append_drop_at data 2, Bytes.take_append_drop_at data 1,
    Bytes.take_append_drop_at data 0, List.drop_zero]

/-- Formats and header blocks. A format has a header block just when its first table and its version
fit their fields, and is refused for a number that does not fit otherwise. The bytes are the header
block of a format just when they are read as this format; bytes that are not read are corrupt. -/
theorem stored_iff_read :
    (∀ f : Format,
      ((∃ bytes, encode f = .ok bytes) ↔ f.firstTable ≤ 65535 ∧ f.version < 2 ^ 32) ∧
      ∀ fault, encode f = .error fault → fault.kind = .overflow) ∧
    (∀ (f : Format) (bytes : List UInt8),
      encode f = .ok bytes ↔ decode blockType bytes = .ok f) ∧
    ∀ (bytes : List UInt8) (fault : Fault),
      decode blockType bytes = .error fault → fault.kind = .corrupt := by
  refine ⟨?_, ?_, ?_⟩
  · intro f
    constructor
    · rw [exists_encode_iff]
      omega
    · intro fault refused
      exact blames_encode f fault refused
  · intro f bytes
    exact ⟨decode_encode, encode_decode⟩
  · intro bytes fault refused
    exact blames_decode blockType bytes fault refused

/-- A format of level 30 whose first table, version and size of values are the greatest that are
stored, with as many bytes in a row as there can be. -/
def greatest : Format :=
  (Format.ofFields {
    level := 30
    prefixBits := 10
    suffixBits := 53
    firstTable := 65535
    rowBits := 64
    isAllowedList := true
    valueSize := 4
    version := 2 ^ 32 - 1 }).toOption.get (by decide)

/-- It has a header block and is read back from it. With its first table one block further on, or
with the next version, there is none. A block with a 2 for the flag is corrupt. -/
theorem stored_iff_read_greatest :
    (∃ bytes, encode greatest = .ok bytes ∧ decode blockType bytes = .ok greatest) ∧
    (∀ fault, encode { greatest with firstTable := 65536, firstTable_pos := by decide } =
      .error fault → fault.kind = .overflow) ∧
    (¬∃ bytes, encode { greatest with firstTable := 65536, firstTable_pos := by decide } =
      .ok bytes) ∧
    (¬∃ bytes, encode { greatest with version := 2 ^ 32 } = .ok bytes) ∧
    ∃ fault, decode blockType [30, 10, 53, 255, 255, 64, 2, 4, 0, 0, 0, 0] = .error fault ∧
      fault.kind = .corrupt := by
  obtain ⟨fits_iff, read_iff, corrupt⟩ := stored_iff_read
  obtain ⟨bytes, stored⟩ := (fits_iff greatest).1.2 (by decide)
  have beyond := fits_iff { greatest with firstTable := 65536, firstTable_pos := by decide }
  have later := fits_iff { greatest with version := 2 ^ 32 }
  have flag : decode blockType [30, 10, 53, 255, 255, 64, 2, 4, 0, 0, 0, 0] =
      .error (.headerFlag 2) := rfl
  refine ⟨⟨bytes, stored, (read_iff _ _).1 stored⟩, beyond.2, ?_, ?_, _, flag, corrupt _ _ flag⟩
  · rw [beyond.1]
    decide
  · rw [later.1]
    decide

end Geofence.Header
