/-
# Geofence.Proofs.Container.Opened -- containers of any bytes

Nothing is known of bytes that no writer vouches for.  Opening them as a
container blames them or their version (`blames_ofBytes`), and what is known of
bytes that are opened is what was checked (`ofBytes_eq_ok_iff`).  Reading a block
of a container that was opened blames the bytes, as long as there is such a
block (`blames_read`).
-/
import Geofence.Container.Basic
import Geofence.Proofs.Outcome

namespace Geofence.Container.Reader

set_option autoImplicit false

theorem blames_ofBytes (path : String) (bytes : ByteArray) (magic : List UInt8) (version : Int) :
    Blames {.corrupt, .mismatch} (ofBytes path bytes magic version) := by
  unfold ofBytes
  dsimp only
  split
  · exact .error (Or.inl rfl)
  split
  · exact .error (Or.inl rfl)
  split
  · exact .error (Or.inr rfl)
  split
  · exact .error (Or.inl rfl)
  split
  · exact .error (Or.inl rfl)
  · exact .ok _

def headOf (bytes : ByteArray) : Head :=
  Head.decode (Bytes.slice bytes 0 headerSize)

/-- What is checked before a file is opened. -/
structure Checked (bytes : ByteArray) (magic : List UInt8) (version : Int) : Prop where
  sized : headerSize ≤ bytes.size
  magic_eq : (headOf bytes).magic = magic
  version_eq : (headOf bytes).version = version
  inside : (headOf bytes).indexStart + (headOf bytes).blockCount * recordSize ≤ bytes.size
  behind_header : headerSize ≤ (headOf bytes).indexStart
  stop_le : ∀ record ∈ records bytes (headOf bytes).indexStart (headOf bytes).blockCount,
    record.stop ≤ (headOf bytes).indexStart

def ofChecked (bytes : ByteArray) : Reader where
  bytes
  version := (headOf bytes).version.toNat
  flags := (headOf bytes).flags
  index := (records bytes (headOf bytes).indexStart (headOf bytes).blockCount).toArray
  closed := false

variable {path : String} {bytes : ByteArray} {magic : List UInt8} {version : Int} {r : Reader}

theorem ofBytes_eq_ok_iff : ofBytes path bytes magic version = .ok r ↔
    Checked bytes magic version ∧ ofChecked bytes = r := by
  constructor
  · intro opened
    unfold ofBytes at opened
    dsimp only at opened
    split_ifs at opened with short other_magic other_version outside overlapped
    obtain ⟨sized, behind⟩ := not_or.1 outside
    refine ⟨⟨not_lt.1 short, not_not.1 other_magic, not_not.1 other_version, not_lt.1 sized,
      not_lt.1 behind, ?_⟩, Except.ok.inj opened⟩
    intro record member
    by_contra beyond
    exact overlapped (List.any_eq_true.2 ⟨record, member, decide_eq_true (not_le.1 beyond)⟩)
  · rintro ⟨checked, rfl⟩
    unfold ofBytes
    dsimp only
    split_ifs with short other_magic other_version outside overlapped
    · exact absurd checked.sized (not_le.2 short)
    · exact absurd checked.magic_eq other_magic
    · exact absurd checked.version_eq other_version
    · exact absurd outside (not_or.2 ⟨not_lt.2 checked.inside, not_lt.2 checked.behind_header⟩)
    · obtain ⟨record, member, beyond⟩ := List.any_eq_true.1 overlapped
      exact absurd (checked.stop_le record member) (not_le.2 (of_decide_eq_true beyond))
    · rfl

theorem open_of_ofBytes (opened : ofBytes path bytes magic version = .ok r) :
    r.closed = false := by
  obtain ⟨-, rfl⟩ := ofBytes_eq_ok_iff.1 opened
  rfl

/-- The path is only named in faults. -/
theorem ofBytes_elsewhere (opened : ofBytes path bytes magic version = .ok r) (other : String) :
    ofBytes other bytes magic version = .ok r :=
  ofBytes_eq_ok_iff.2 (ofBytes_eq_ok_iff.1 opened)

variable [Compression] {id : Int}

theorem blames_unpack (r : Reader) (id : Int) (raw : Nat) (stored : List UInt8) :
    Blames {.corrupt} (r.unpack id raw stored) := by
  unfold unpack
  split
  · split
    · exact .ok _
    · split
      · exact .ok _
      · exact .error rfl
  · exact .ok _

/-- A block that is there is read, or its bytes are corrupt. -/
theorem blames_read (open_eq : r.closed = false) (inside : 0 ≤ id ∧ id < r.blockCount) :
    Blames {.corrupt} (r.read id) := by
  unfold blockCount at inside
  rw [read, if_neg (by simp [open_eq]), dif_pos inside]
  dsimp only
  split
  · rename_i fault undecodable
    exact .error (blames_unpack _ _ _ _ fault undecodable)
  · split
    · exact .error rfl
    · exact .ok _

theorem read_of_outside (open_eq : r.closed = false) (outside : ¬(0 ≤ id ∧ id < r.blockCount)) :
    r.read id = .error (.blockOutside id r.blockCount) := by
  unfold blockCount at outside ⊢
  rw [read, if_neg (by simp [open_eq]), dif_neg outside]

end Geofence.Container.Reader
