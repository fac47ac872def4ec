/-
# Geofence.Proofs.Container.Frame -- frames read back

A frame unpacks to the payload it was made of, for every payload whose size its
header can state (`decode_encode`).  The blocks need no such bound: each block is
as long as its own header says (`blocks_plainBlocks`).
-/
import Geofence.Container.Compression
import Geofence.Proofs.Bytes.Field

namespace Geofence.Container.Frame

set_option autoImplicit false

theorem split_append {count : Nat} {front rest : List UInt8} (length_eq : front.length = count) :
    split? count (front ++ rest) = some (front, rest) := by
  rw [split?, if_pos (by rw [List.length_append]; omega), List.take_left' length_eq,
    List.drop_left' length_eq]

theorem length_plainHeader (last : Bool) (size : Nat) : (plainHeader last size).length = 3 :=
  Bytes.length_littleEndian _ _

/-- The number in front of a block of plain bytes: its size, its type and whether it is the last. -/
theorem plainHeader_spec (last : Bool) {size : Nat} (small : size ≤ greatestBlock) :
    Bytes.ofLittleEndian (plainHeader last size) / 8 = size ∧
      Bytes.ofLittleEndian (plainHeader last size) / 2 % 4 = 0 ∧
      (Bytes.ofLittleEndian (plainHeader last size) % 2 = 1 ↔ last = true) := by
  unfold greatestBlock at small
  have stated : Bytes.ofLittleEndian (plainHeader last size) = size * 8 + if last then 1 else 0 := by
    refine Bytes.ofLittleEndian_littleEndian_of_lt ?_
    cases last <;> simp <;> omega
  rw [stated]
  cases last
  · simp
    omega
  · simp
    omega

/-- One block of plain bytes: it is the output if it is the last, and goes before the output of the
others if not. -/
theorem blocks_plain (last : Bool) {greatest room : Nat} {payload : List UInt8} (rest : List UInt8)
    (small : payload.length ≤ greatestBlock) (allowed : payload.length ≤ greatest)
    (fitting : payload.length ≤ room) :
    blocks? greatest room (plainHeader last payload.length ++ payload ++ rest) =
      if last then some payload
      else (blocks? greatest (room - payload.length) rest).map (payload ++ ·) := by
  obtain ⟨size_eq, type_eq, last_iff⟩ := plainHeader_spec last small
  have header_split : split? 3 (plainHeader last payload.length ++ payload ++ rest) =
      some (plainHeader last payload.length, payload ++ rest) := by
    rw [List.append_assoc, split_append (length_plainHeader last _)]
  have payload_split : split? (if Bytes.ofLittleEndian (plainHeader last payload.length) / 2 % 4 = 0
      then Bytes.ofLittleEndian (plainHeader last payload.length) / 8 else 1) (payload ++ rest) =
      some (payload, rest) := by
    rw [type_eq, size_eq, if_pos rfl, split_append rfl]
  rw [blocks?]
  split
  · rename_i none_left
    rw [header_split] at none_left
    cases none_left
  · rename_i header behind found
    rw [header_split] at found
    obtain ⟨rfl, rfl⟩ := Prod.mk.inj (Option.some.inj found)
    simp only [size_eq, type_eq, last_iff]
    rw [if_neg (by omega)]
    split
    · rename_i none_left
      rw [payload_split] at none_left
      cases none_left
    · rename_i stored others found
      rw [payload_split] at found
      obtain ⟨rfl, rfl⟩ := Prod.mk.inj (Option.some.inj found)
      rfl

theorem blocks_plainBlocks {greatest room : Nat} {payload : List UInt8}
    (allowed : payload.length ≤ greatest) (fitting : payload.length ≤ room) :
    blocks? greatest room (plainBlocks payload) = some payload := by
  fun_induction plainBlocks payload generalizing room with
  | case1 payload small =>
      rw [← List.append_nil (_ ++ payload), blocks_plain true [] small allowed fitting]
      rfl
  | case2 payload long ih =>
      have front : (payload.take greatestBlock).length = greatestBlock := by
        rw [List.length_take]
        omega
      have others : blocks? greatest (room - greatestBlock)
          (plainBlocks (payload.drop greatestBlock)) = some (payload.drop greatestBlock) :=
        ih (by rw [List.length_drop]; omega) (by rw [List.length_drop]; omega)
      have first := blocks_plain false (plainBlocks (payload.drop greatestBlock)) front.le
        (front.trans_le (show greatestBlock ≤ greatest by omega))
        (front.trans_le (show greatestBlock ≤ room by omega))
      rw [front, others] at first
      rw [first]
      simp

/-- The header of a frame states the size of its payload. -/
theorem head_encode {size : Nat} (small : size < 2 ^ 64) (blocks : List UInt8) :
    head? ([0xE0] ++ Bytes.littleEndian 8 size ++ blocks) =
      some ({ contentSize := some size, window := size }, blocks) := by
  have stated : Bytes.ofLittleEndian (Bytes.littleEndian 8 size) = size :=
    Bytes.ofLittleEndian_littleEndian_of_lt small
  have flags_split : split? 1 ([0xE0] ++ Bytes.littleEndian 8 size ++ blocks) =
      some ([0xE0], Bytes.littleEndian 8 size ++ blocks) := by
    rw [List.append_assoc, split_append (by decide)]
  have size_split : split? 8 (Bytes.littleEndian 8 size ++ blocks) =
      some (Bytes.littleEndian 8 size, blocks) :=
    split_append (Bytes.length_littleEndian _ _)
  have nothing_split (bytes : List UInt8) : split? 0 bytes = some ([], bytes) := rfl
  rw [head?, flags_split]
  simp [nothing_split, size_split, stated, Bytes.ofLittleEndian]

theorem decode_encode {payload : List UInt8} (nonempty : payload ≠ [])
    (small : payload.length < 2 ^ 64) :
    decode? payload.length (encode payload) = some payload := by
  have front : (encode payload).take 4 = magic := by
    rw [encode, List.append_assoc, List.append_assoc]
    exact List.take_left' (by decide)
  have behind : (encode payload).drop 4 =
      [0xE0] ++ Bytes.littleEndian 8 payload.length ++ plainBlocks payload := by
    rw [encode, List.append_assoc, List.append_assoc, List.drop_left' (by decide),
      ← List.append_assoc]
  -- the frame of no bytes is told apart by its size
  have some_bytes : payload.length ≠ 0 := by simpa using nonempty
  have blocks : blocks? payload.length payload.length (plainBlocks payload) = some payload :=
    blocks_plainBlocks le_rfl le_rfl
  have unskipped : ¬(8 ≤ (encode payload).length ∧ Bytes.ofLittleEndian magic / 16 = 0x184D2A5) :=
    fun both => absurd both.2 (by decide)
  rw [decode?, front, behind, head_encode small]
  simp only [unskipped, if_false, ne_eq, not_true_eq_false, Option.bind_eq_bind, Option.bind_some]
  rw [blocks, Option.bind_some, if_pos rfl]
  rfl

/-- The frames that the program runs with read back. -/
theorem roundTrips : Compression.RoundTrips :=
  fun _ nonempty small => decode_encode nonempty (small.trans (by decide))

end Geofence.Container.Frame
