/-
# Geofence.Proofs.Container.Truncated -- containers that lost their end

A container holds no checksum and no length of its own.  That it lost its end is
noticed because the index is the last thing in it: the header says where the
index starts and how many records it has, and so how long the file is at least
(`Reader.corrupt_of_short`).  A closed container is just as long as that, so
that no shorter file opens (`opened_iff_of_cut`), be it cut inside the index,
inside a block or inside the header.
-/
import Geofence.Proofs.Container.Session

namespace Geofence.Container

set_option autoImplicit false

namespace Reader

/-- A file that is shorter than its own header says is corrupt, if it is of the kind and version
expected. -/
theorem corrupt_of_short {bytes : ByteArray} {head : Head}
    (front : headerSize ≤ bytes.size → Head.decode (Bytes.slice bytes 0 headerSize) = head)
    (short : bytes.size < head.indexStart + head.blockCount * recordSize) (path : String) :
    ∃ fault, ofBytes path bytes head.magic head.version = .error fault ∧ fault.kind = .corrupt := by
  by_cases headless : bytes.size < headerSize
  · exact ⟨.tooShort path, by rw [ofBytes, if_pos headless], rfl⟩
  · refine ⟨.indexOutside path, ?_, rfl⟩
    rw [ofBytes, if_neg headless]
    simp only [front (not_lt.1 headless)]
    rw [if_neg (not_not.2 rfl), if_neg (not_not.2 rfl), if_pos (Or.inl short)]

/-- The header of a file is still there when only what comes behind it is cut. -/
theorem slice_header_of_cut {bytes : ByteArray} {n : Nat} (kept : headerSize ≤ n) :
    Bytes.slice (bytes.extract 0 n) 0 headerSize = Bytes.slice bytes 0 headerSize := by
  rw [Bytes.slice_eq_take_drop, Bytes.slice_eq_take_drop, ByteArray.data_extract,
    Array.toList_extract, List.extract_eq_take_drop, Nat.sub_zero, List.drop_zero, List.drop_zero,
    List.take_take, Nat.min_eq_left kept]

/-- What is left of a closed container that lost bytes at its end is corrupt. -/
theorem corrupt_of_cut {w v : Writer} (unsealed : w.sealed = none) (four : w.magic.length = 4)
    (closed : w.close = (.ok (), v)) {n : Nat} (less : n < v.contents.size) (path : String) :
    ∃ fault, ofBytes path (v.contents.extract 0 n) w.magic w.version = .error fault ∧
      fault.kind = .corrupt := by
  obtain ⟨head, parts, encoded, related, contents_eq⟩ := Writer.close_ok unsealed closed
  obtain ⟨head_length, decoded⟩ := Head.decode_encode four encoded
  have cut_size : (v.contents.extract 0 n).size = n := by
    rw [ByteArray.size_extract, Nat.min_eq_left less.le, Nat.sub_zero]
  rw [size_of_parts four encoded related contents_eq] at less
  have front (kept : headerSize ≤ (v.contents.extract 0 n).size) :
      Head.decode (Bytes.slice (v.contents.extract 0 n) 0 headerSize) = w.head := by
    rw [slice_header_of_cut (cut_size ▸ kept), Bytes.slice_eq_take_drop, contents_eq,
      List.drop_zero, List.append_assoc, List.take_left' head_length, decoded]
  exact corrupt_of_short front (cut_size.trans_lt less) path

end Reader

section

variable [Compression]

/-- A container that was closed opens as a whole, and none of its beginnings does: what is left of
a container that lost bytes at its end is corrupt. -/
theorem opened_iff_of_cut {magic : List UInt8} (four : magic.length = 4) (version : Int)
    (compressed : Bool) : ∃ w, Writer.create magic version compressed = .ok w ∧
      ∀ (items : List Item) (v : Writer), (w.after (items.map Call.add)).close = (.ok (), v) →
        ∀ (n : Nat) (path : String),
          ((∃ r, Reader.ofBytes path (v.contents.extract 0 n) magic version = .ok r) ↔
            v.contents.size ≤ n) ∧
          (n < v.contents.size → ∃ fault,
            Reader.ofBytes path (v.contents.extract 0 n) magic version = .error fault ∧
              fault.kind = .corrupt) := by
  obtain ⟨w, created, rfl, rfl, rfl, unsealed, none_yet⟩ :=
    Writer.exists_create four version compressed
  refine ⟨w, created, ?_⟩
  intro items v closed n path
  rw [Writer.after_map_add unsealed] at closed
  obtain ⟨magic_eq, version_eq, -, sealed_eq⟩ := w.appendAll_frame items
  have holds : (w.appendAll items).Holds items := none_yet.appendAll items
  rw [← magic_eq] at four ⊢
  rw [← version_eq]
  have unsealed := sealed_eq.trans unsealed
  refine ⟨⟨?_, ?_⟩, fun less => Reader.corrupt_of_cut unsealed four closed less path⟩
  · rintro ⟨r, opened⟩
    by_contra less
    obtain ⟨fault, refused, -⟩ :=
      Reader.corrupt_of_cut unsealed four closed (not_le.1 less) path
    cases opened.symm.trans refused
  · intro whole
    obtain ⟨head, parts, encoded, related, contents_eq⟩ := Writer.close_ok unsealed closed
    have whole_eq : v.contents.extract 0 n = v.contents := by
      rw [ByteArray.ext_iff, ByteArray.data_extract]
      exact Array.extract_eq_self_of_le (by rwa [ByteArray.size_data])
    rw [whole_eq]
    exact ⟨_, Reader.ofBytes_eq four holds encoded related contents_eq path⟩

end

/-- Of a container with two blocks all 87 bytes are needed. -/
theorem opened_iff_of_cut_small : ∃ w v, Writer.create rangeMagic 1 true = .ok w ∧
    (w.after [.add { type := 7, extra := [1], payload := [2, 3] },
      .add { type := 8, extra := [], payload := [] }]).close = (.ok (), v) ∧
    v.contents.size = 87 ∧ ∀ n < 87, ∃ fault,
      Reader.ofBytes "small" (v.contents.extract 0 n) rangeMagic 1 = .error fault ∧
        fault.kind = .corrupt := by
  obtain ⟨w, created, cut⟩ := @opened_iff_of_cut _ rangeMagic (by decide) 1 true
  have stored : (do
      let w ← Writer.create rangeMagic 1 true
      let (result, v) := (w.after [.add { type := 7, extra := [1], payload := [2, 3] },
        .add { type := 8, extra := [], payload := [] }]).close
      return (result, v.contents.size)) = .ok (.ok (), 87) := by decide +kernel
  rw [created] at stored
  obtain ⟨closed, size⟩ := Prod.mk.inj (Except.ok.inj stored)
  refine ⟨w, _, created, Prod.ext closed rfl, size, ?_⟩
  intro n less
  exact (cut [{ type := 7, extra := [1], payload := [2, 3] },
    { type := 8, extra := [], payload := [] }] _ (Prod.ext closed rfl) n "small").2
    (less.trans_eq size.symm)

end Geofence.Container
