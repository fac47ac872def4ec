/-
# Geofence.Bytes -- naturals as bytes, and stretches of a file

A field of `n` bytes holds a natural below `256 ^ n`, least or most significant
byte first.  Range files store their tables and headers most significant byte
first, block containers their index least significant byte first.

A stretch of a file is named by its first byte and its length.  What lies past
the end of the file is left out, so a stretch may come out short or empty.
-/
import Geofence.Fault

namespace Geofence.Bytes

set_option autoImplicit false

/-- The `size` bytes of `n`, least significant first; higher bits are dropped. -/
def littleEndian : Nat → Nat → List UInt8
  | 0, _ => []
  | size + 1, n => UInt8.ofNat (n % 256) :: littleEndian size (n / 256)

/-- The natural whose bytes, least significant first, are given. -/
def ofLittleEndian : List UInt8 → Nat
  | [] => 0
  | b :: bs => b.toNat + 256 * ofLittleEndian bs

def bigEndian (size n : Nat) : List UInt8 :=
  (littleEndian size n).reverse

def ofBigEndian (bytes : List UInt8) : Nat :=
  ofLittleEndian bytes.reverse

def fits (size : Nat) (n : Int) : Bool :=
  0 ≤ n && n < 256 ^ size

def littleField (size : Nat) (n : Int) : Except Fault (List UInt8) :=
  if fits size n then .ok (littleEndian size n.toNat) else .error .fieldOverflow

def bigField (size : Nat) (n : Int) : Except Fault (List UInt8) :=
  if fits size n then .ok (bigEndian size n.toNat) else .error .fieldOverflow

@[simp] theorem length_littleEndian (size n : Nat) : (littleEndian size n).length = size := by
  induction size generalizing n with
  | zero => rfl
  | succ size ih => simp [littleEndian, ih]

@[simp] theorem length_bigEndian (size n : Nat) : (bigEndian size n).length = size := by
  simp [bigEndian]

theorem ofLittleEndian_lt (bytes : List UInt8) :
    ofLittleEndian bytes < 256 ^ bytes.length := by
  induction bytes with
  | nil => simp [ofLittleEndian]
  | cons b bs ih =>
    have := b.toNat_lt
    simp only [ofLittleEndian, List.length_cons, Nat.pow_succ]
    omega

theorem ofLittleEndian_littleEndian (size n : Nat) :
    ofLittleEndian (littleEndian size n) = n % 256 ^ size := by
  induction size generalizing n with
  | zero => simp [littleEndian, ofLittleEndian, Nat.mod_one]
  | succ size ih =>
    simp only [littleEndian, ofLittleEndian, ih]
    rw [Nat.pow_succ, Nat.mul_comm (256 ^ size) 256, Nat.mod_mul]
    simp

theorem littleEndian_ofLittleEndian (bytes : List UInt8) :
    littleEndian bytes.length (ofLittleEndian bytes) = bytes := by
  induction bytes with
  | nil => rfl
  | cons b bs ih =>
    have hb : b.toNat < 256 := b.toNat_lt
    simp only [List.length_cons, littleEndian, ofLittleEndian]
    rw [Nat.add_mul_mod_self_left, Nat.mod_eq_of_lt hb, Nat.add_mul_div_left _ _ (by decide),
      Nat.div_eq_of_lt hb, Nat.zero_add, ih]
    simp

theorem ofBigEndian_bigEndian (size n : Nat) :
    ofBigEndian (bigEndian size n) = n % 256 ^ size := by
  simp [ofBigEndian, bigEndian, ofLittleEndian_littleEndian]

theorem bigEndian_ofBigEndian (bytes : List UInt8) :
    bigEndian bytes.length (ofBigEndian bytes) = bytes := by
  have h := littleEndian_ofLittleEndian bytes.reverse
  rw [List.length_reverse] at h
  simp [ofBigEndian, bigEndian, h]

/-! ## Stretches -/

/-- The bytes of `bytes` from `start` on, at most `size` of them. -/
def slice (bytes : ByteArray) (start size : Nat) : List UInt8 :=
  if start < bytes.size then
    (bytes.extract start (min (start + size) bytes.size)).data.toList
  else []

theorem slice_eq_take_drop (bytes : ByteArray) (start size : Nat) :
    slice bytes start size = (bytes.data.toList.drop start).take size := by
  have hs : bytes.size = bytes.data.toList.length := Array.length_toList.symm
  unfold slice
  split
  · rename_i h
    simp only [ByteArray.data_extract, Array.toList_extract, List.extract_eq_take_drop, hs]
    rw [List.take_eq_take_iff]
    simp
    omega
  · rename_i h
    rw [List.drop_eq_nil_of_le (by omega)]
    simp

end Geofence.Bytes
