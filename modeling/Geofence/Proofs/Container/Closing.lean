/-
# Geofence.Proofs.Container.Closing -- closing goes through

Closing a container is refused only for a number that does not fit its field
(`Writer.exists_close`).  How large a packed payload is depends on how payloads
are packed: `Compression.Bounded` is what is known of that, and it keeps the
packed form of all but the largest payloads within its field.
-/
import Geofence.Proofs.Container.Frame
import Geofence.Proofs.Container.Writer

namespace Geofence.Container

set_option autoImplicit false

/-- Packing adds little to a payload that it cannot make smaller. -/
def Compression.Bounded [Compression] : Prop :=
  ∀ payload, (Compression.compress payload).length ≤ payload.length + payload.length / 256 + 64

namespace Frame

theorem length_plainBlocks_le (payload : List UInt8) :
    (plainBlocks payload).length ≤ payload.length + payload.length / 256 + 3 := by
  fun_induction plainBlocks payload with
  | case1 payload small =>
      rw [List.length_append, length_plainHeader]
      omega
  | case2 payload long ih =>
      unfold greatestBlock at long ih ⊢
      simp only [List.length_append, length_plainHeader, List.length_take]
      rw [List.length_drop] at ih
      omega

theorem bounded : Compression.Bounded := by
  intro payload
  have blocks := length_plainBlocks_le payload
  change (encode payload).length ≤ _
  simp only [encode, magic, List.length_append, List.length_cons, List.length_nil,
    Bytes.length_littleEndian]
  omega

end Frame

/-! ## Fields that fit -/

theorem Record.exists_encode {r : Record} (type : 0 ≤ r.type ∧ r.type < 2 ^ 32)
    (offset : r.offset < 2 ^ 64) (stored : r.stored < 2 ^ 32) (raw : r.raw < 2 ^ 32)
    (extra : r.extra < 2 ^ 16) : ∃ bytes, r.encode = .ok bytes := by
  obtain ⟨a, a_stored⟩ : ∃ a, Bytes.littleField 4 r.type = .ok a :=
    Bytes.exists_littleField type.1 (by norm_num; omega)
  obtain ⟨b, b_stored⟩ : ∃ b, Bytes.littleField 8 r.offset = .ok b :=
    Bytes.exists_littleField (by omega) (by norm_num; omega)
  obtain ⟨c, c_stored⟩ : ∃ c, Bytes.littleField 4 r.stored = .ok c :=
    Bytes.exists_littleField (by omega) (by norm_num; omega)
  obtain ⟨d, d_stored⟩ : ∃ d, Bytes.littleField 4 r.raw = .ok d :=
    Bytes.exists_littleField (by omega) (by norm_num; omega)
  obtain ⟨e, e_stored⟩ : ∃ e, Bytes.littleField 2 r.extra = .ok e :=
    Bytes.exists_littleField (by omega) (by norm_num; omega)
  rw [encode, a_stored, b_stored, c_stored, d_stored, e_stored]
  exact ⟨_, rfl⟩

theorem Head.exists_encode {h : Head} (version : 0 ≤ h.version ∧ h.version < 2 ^ 16)
    (flags : h.flags < 2 ^ 16) (blockCount : h.blockCount < 2 ^ 32)
    (indexStart : h.indexStart < 2 ^ 64) : ∃ bytes, h.encode = .ok bytes := by
  obtain ⟨a, a_stored⟩ : ∃ a, Bytes.littleField 2 h.version = .ok a :=
    Bytes.exists_littleField version.1 (by norm_num; omega)
  obtain ⟨b, b_stored⟩ : ∃ b, Bytes.littleField 2 h.flags = .ok b :=
    Bytes.exists_littleField (by omega) (by norm_num; omega)
  obtain ⟨c, c_stored⟩ : ∃ c, Bytes.littleField 4 h.blockCount = .ok c :=
    Bytes.exists_littleField (by omega) (by norm_num; omega)
  obtain ⟨d, d_stored⟩ : ∃ d, Bytes.littleField 8 h.indexStart = .ok d :=
    Bytes.exists_littleField (by omega) (by norm_num; omega)
  rw [encode, a_stored, b_stored, c_stored, d_stored]
  exact ⟨_, rfl⟩

variable [Compression] {w : Writer} {items : List Item} {item : Item}

/-- The fields of the record of an item have room for it. -/
structure Item.Small (w : Writer) (item : Item) : Prop where
  type : 0 ≤ item.type ∧ item.type < 2 ^ 32
  extra : item.extra.length < 2 ^ 16
  payload : item.payload.length < 2 ^ 32
  packed : (w.pack item.payload).length < 2 ^ 32

/-- A payload that leaves room for what packing adds has room, packed or not. -/
theorem Writer.length_pack_lt (bounded : w.compressed = true → Compression.Bounded)
    {payload : List UInt8} (short : payload.length + payload.length / 256 + 64 < 2 ^ 32) :
    (w.pack payload).length < 2 ^ 32 := by
  unfold pack
  split
  · rename_i packs
    have := bounded (Bool.and_eq_true_iff.1 packs).1 payload
    omega
  · omega

namespace Writer

omit [Compression] in
theorem exists_writeIndex {records : List Record} (start : ByteArray)
    (each : ∀ r ∈ records, ∃ bytes, r.encode = .ok bytes) :
    ∃ index, writeIndex start records = (index, .ok ()) := by
  induction records generalizing start with
  | nil => exact ⟨start, rfl⟩
  | cons r records ih =>
      obtain ⟨⟨bytes, encoded⟩, others⟩ := List.forall_mem_cons.1 each
      obtain ⟨index, written⟩ := ih (start ++ bytes.toByteArray) others
      exact ⟨index, by rw [writeIndex, encoded]; exact written⟩

theorem size_body_appendAll {bound : Nat}
    (each : ∀ item ∈ items, item.extra.length + (w.pack item.payload).length ≤ bound) :
    (w.appendAll items).body.size ≤ w.body.size + items.length * bound := by
  induction items generalizing w with
  | nil => simp [appendAll]
  | cons item items ih =>
      obtain ⟨own, others⟩ := List.forall_mem_cons.1 each
      have rest : ((w.appendItem item).appendAll items).body.size ≤
          (w.appendItem item).body.size + items.length * bound := ih others
      have grown : (w.appendItem item).body.size =
          w.body.size + (item.extra.length + (w.pack item.payload).length) := by
        simp [appendItem, append]
      change ((w.appendItem item).appendAll items).body.size ≤ _
      rw [List.length_cons, Nat.succ_mul]
      omega

/-- Closing goes through when every number has room in its field. -/
theorem exists_close (unsealed : w.sealed = none) (holds : w.Holds items)
    (small : ∀ item ∈ items, item.Small w) (few : items.length < 2 ^ 32)
    (short : headerSize + w.body.size < 2 ^ 64) (version : 0 ≤ w.version ∧ w.version < 2 ^ 16) :
    ∃ v, w.close = (.ok (), v) := by
  obtain ⟨index, written⟩ : ∃ index, writeIndex .empty w.records.toList = (index, .ok ()) := by
    refine exists_writeIndex _ fun r member => ?_
    obtain ⟨i, inside, rfl⟩ := List.mem_iff_getElem.1 member
    have below : i < items.length := holds.length_eq ▸ inside
    have tells : Record.Tells w items[i] w.records.toList[i] := holds.get below inside
    have fits := small items[i] (List.getElem_mem below)
    obtain ⟨front, back, body_eq, offset_eq⟩ := tells.found
    have size : w.body.size = w.body.data.toList.length := by
      rw [Array.length_toList, ByteArray.size_data]
    rw [body_eq, List.length_append, List.length_append] at size
    refine Record.exists_encode (tells.type_eq ▸ fits.type) (by omega)
      (tells.stored_eq ▸ fits.packed) (tells.raw_eq ▸ fits.payload) (tells.extra_eq ▸ fits.extra)
  obtain ⟨head, encoded⟩ : ∃ head, w.head.encode = .ok head := by
    refine Head.exists_encode version ?_ ?_ short
    · simp only [Writer.head]
      split <;> omega
    · exact (holds.length_eq.trans w.records.length_toList).symm.trans_lt few
  rw [close, if_neg (by simp [closed, unsealed]), written]
  simp only [encoded]
  exact ⟨_, rfl⟩

end Writer

end Geofence.Container
