/-
# Geofence.Proofs.Bytes.Field -- what a stored field says

A field is written only for a number that fits it, and then reads back as that
number.  The other way round, a number that is read from a stretch of bytes is
stored in just this stretch (`bigField_of_read`).
-/
import Geofence.Bytes
import Geofence.Proofs.Outcome

namespace Geofence.Bytes

set_option autoImplicit false

variable {size : Nat} {n : Int} {bytes : List UInt8}

theorem fits_iff : fits size n = true ↔ 0 ≤ n ∧ n < 256 ^ size := by
  simp [fits]

theorem ofBigEndian_bigEndian_of_lt {k : Nat} (inside : k < 256 ^ size) :
    ofBigEndian (bigEndian size k) = k := by
  rw [ofBigEndian_bigEndian, Nat.mod_eq_of_lt inside]

theorem ofLittleEndian_littleEndian_of_lt {k : Nat} (inside : k < 256 ^ size) :
    ofLittleEndian (littleEndian size k) = k := by
  rw [ofLittleEndian_littleEndian, Nat.mod_eq_of_lt inside]

/-- A field of `size` bytes holds nothing larger, whatever the bytes are. -/
theorem ofLittleEndian_take_lt (bytes : List UInt8) (size : Nat) :
    ofLittleEndian (bytes.take size) < 256 ^ size :=
  (ofLittleEndian_lt _).trans_le (Nat.pow_le_pow_right (by decide) (List.length_take_le _ _))

/-- What a field of a file holds, most significant byte first. -/
theorem bigField_spec (stored : bigField size n = .ok bytes) :
    bytes.length = size ∧ 0 ≤ n ∧ n < 256 ^ size ∧ (ofBigEndian bytes : Int) = n := by
  unfold bigField at stored
  split at stored
  · rename_i fitting
    obtain ⟨nonneg, below⟩ := fits_iff.1 fitting
    obtain rfl := Except.ok.inj stored
    refine ⟨length_bigEndian _ _, nonneg, below, ?_⟩
    rw [ofBigEndian_bigEndian_of_lt (by zify; rwa [Int.toNat_of_nonneg nonneg]),
      Int.toNat_of_nonneg nonneg]
  · contradiction

/-- What a field of a container holds, least significant byte first. -/
theorem littleField_spec (stored : littleField size n = .ok bytes) :
    bytes.length = size ∧ 0 ≤ n ∧ n < 256 ^ size ∧ (ofLittleEndian bytes : Int) = n := by
  unfold littleField at stored
  split at stored
  · rename_i fitting
    obtain ⟨nonneg, below⟩ := fits_iff.1 fitting
    obtain rfl := Except.ok.inj stored
    refine ⟨length_littleEndian _ _, nonneg, below, ?_⟩
    rw [ofLittleEndian_littleEndian_of_lt (by zify; rwa [Int.toNat_of_nonneg nonneg]),
      Int.toNat_of_nonneg nonneg]
  · contradiction

theorem ofBigEndian_lt (bytes : List UInt8) : ofBigEndian bytes < 256 ^ bytes.length := by
  have below := ofLittleEndian_lt bytes.reverse
  rwa [List.length_reverse] at below

/-- What stored bytes say is stored as these bytes. -/
theorem bigField_ofBigEndian (bytes : List UInt8) :
    bigField bytes.length (ofBigEndian bytes) = .ok bytes := by
  have below := ofBigEndian_lt bytes
  rw [bigField, if_pos (fits_iff.2 ⟨Int.natCast_nonneg _, by exact_mod_cast below⟩),
    Int.toNat_natCast, bigEndian_ofBigEndian]

/-- A number that is read from a stretch of bytes is stored in that stretch. -/
theorem bigField_of_read {data : List UInt8} (start : Nat) {k : Nat}
    (inside : start + size ≤ data.length)
    (read : ofBigEndian ((data.drop start).take size) = k) :
    bigField size k = .ok ((data.drop start).take size) := by
  have width : ((data.drop start).take size).length = size := by
    rw [List.length_take, List.length_drop]
    omega
  have stored := bigField_ofBigEndian ((data.drop start).take size)
  rwa [width, read] at stored

theorem take_append_drop_at (data : List UInt8) (start size : Nat) :
    (data.drop start).take size ++ data.drop (start + size) = data.drop start := by
  rw [← List.drop_drop, List.take_append_drop]

theorem blames_bigField (size : Nat) (n : Int) : Blames {.overflow} (bigField size n) := by
  unfold bigField
  split
  · exact .ok _
  · exact .error rfl

theorem exists_bigField (nonneg : 0 ≤ n) (below : n < 256 ^ size) :
    ∃ bytes, bigField size n = .ok bytes :=
  ⟨_, if_pos (fits_iff.2 ⟨nonneg, below⟩)⟩

theorem exists_littleField (nonneg : 0 ≤ n) (below : n < 256 ^ size) :
    ∃ bytes, littleField size n = .ok bytes :=
  ⟨_, if_pos (fits_iff.2 ⟨nonneg, below⟩)⟩

end Geofence.Bytes
