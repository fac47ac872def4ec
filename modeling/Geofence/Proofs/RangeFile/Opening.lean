/-
# Geofence.Proofs.RangeFile.Opening -- opening any bytes as a range file

Opening trusts nothing: the container, its first block and the format stored
there are checked, and what is found wrong is blamed on the bytes
(`Reader.blames_ofContainer`).  One kind of container slips through.  Where it
has no blocks at all, the first block is asked for before blocks are counted, and
the refusal blames the id 0 (`Reader.ofContainer_of_no_blocks`).  Apart from
these containers, bytes that are refused are corrupt or not the ones expected
(`blames_bytes_iff`).
-/
import Geofence.Proofs.Container.Opened
import Geofence.Proofs.Format.Header
import Geofence.RangeFile.Reader

namespace Geofence

set_option autoImplicit false

namespace RangeFile

namespace Expected

theorem blames_checkNumber (field : String) (found : Nat) (wanted : Option Int) :
    Blames {.mismatch} (checkNumber field found wanted) := by
  unfold checkNumber
  split
  · split
    · exact .ok _
    · exact .error rfl
  · exact .ok _

theorem blames_checkFlag (field : String) (found : Bool) (wanted : Option Bool) :
    Blames {.mismatch} (checkFlag field found wanted) := by
  unfold checkFlag
  split
  · split
    · exact .ok _
    · exact .error rfl
  · exact .ok _

theorem blames_check (e : Expected) (f : Format) : Blames {.mismatch} (e.check f) := by
  refine .bind (blames_checkNumber _ _ _) fun _ _ => ?_
  refine .bind (blames_checkFlag _ _ _) fun _ _ => ?_
  exact .bind (blames_checkNumber _ _ _) fun _ _ => blames_checkNumber _ _ _

end Expected

/-- The bytes are sound as a container, which has no blocks. -/
def OfNoBlocks (path : String) (bytes : ByteArray) : Prop :=
  ∃ container, Container.Reader.ofBytes path bytes Container.rangeMagic Container.rangeVersion =
    .ok container ∧ container.blockCount = 0

section

variable [Container.Compression]

namespace Reader

variable {container : Container.Reader} {path : String} {bytes : ByteArray} {expected : Expected}

theorem blames_ofContainer (open_eq : container.closed = false)
    (some_blocks : 0 < container.blockCount) : Blames {.corrupt} (ofContainer container) := by
  refine .bind (Container.Reader.blames_read open_eq (by omega)) fun header _ => ?_
  refine .bind (Header.blames_decode _ _) fun format _ => ?_
  dsimp only
  split
  · exact .error rfl
  · exact .ok _

theorem ofContainer_of_no_blocks (open_eq : container.closed = false)
    (no_blocks : container.blockCount = 0) :
    ofContainer container = .error (.blockOutside 0 0) := by
  rw [ofContainer, Container.Reader.read_of_outside open_eq (by omega), no_blocks]
  rfl

theorem ofBytes_of_no_blocks (no_blocks : OfNoBlocks path bytes) :
    ofBytes path bytes expected = .error (.blockOutside 0 0) := by
  obtain ⟨container, opened, none_held⟩ := no_blocks
  have open_eq := Container.Reader.open_of_ofBytes opened
  rw [ofBytes, opened, Outcome.ok_bind, ofContainer_of_no_blocks open_eq none_held,
    Outcome.error_bind]

theorem blames_ofBytes (some_blocks : ¬OfNoBlocks path bytes) :
    Blames {.corrupt, .mismatch} (ofBytes path bytes expected) := by
  refine .bind (Container.Reader.blames_ofBytes _ _ _ _) fun container opened => ?_
  have open_eq := Container.Reader.open_of_ofBytes opened
  have first : 0 < container.blockCount :=
    Nat.pos_of_ne_zero fun no_blocks => some_blocks ⟨container, opened, no_blocks⟩
  refine .bind ((blames_ofContainer open_eq first).mono (by simp)) fun reader _ => ?_
  exact .bind ((Expected.blames_check _ _).mono (by simp)) fun _ _ => .ok _

variable {r : Reader}

/-- A file that opens also opens for callers who expect what it says. -/
theorem ofBytes_expected (opened : ofBytes path bytes Expected.nothing = .ok r)
    (met : expected.check r.format = .ok ()) : ofBytes path bytes expected = .ok r := by
  obtain ⟨container, container_opened, opened⟩ := Outcome.bind_eq_ok.1 opened
  obtain ⟨reader, made, opened⟩ := Outcome.bind_eq_ok.1 opened
  obtain ⟨-, -, opened⟩ := Outcome.bind_eq_ok.1 opened
  obtain rfl := Except.ok.inj opened
  rw [ofBytes, container_opened, Outcome.ok_bind, made, Outcome.ok_bind, met]
  rfl

/-- However a file is opened, the reader is the same. -/
theorem ofBytes_unique {s : Reader} {other : String} {others : Expected}
    (opened : ofBytes path bytes expected = .ok r) (again : ofBytes other bytes others = .ok s) :
    r = s := by
  obtain ⟨container, container_opened, opened⟩ := Outcome.bind_eq_ok.1 opened
  obtain ⟨reader, made, opened⟩ := Outcome.bind_eq_ok.1 opened
  obtain ⟨-, -, opened⟩ := Outcome.bind_eq_ok.1 opened
  rw [ofBytes, Container.Reader.ofBytes_elsewhere container_opened other, Outcome.ok_bind, made,
    Outcome.ok_bind] at again
  obtain ⟨-, -, again⟩ := Outcome.bind_eq_ok.1 again
  exact (Except.ok.inj opened).symm.trans (Except.ok.inj again)

/-- A reader that was opened has a table for every prefix, and has read none. -/
theorem ofBytes_ok (opened : ofBytes path bytes expected = .ok r) : r.closed = false ∧
    r.last = none ∧ r.container.blockCount = r.format.firstTable + r.format.tableCount := by
  obtain ⟨container, container_opened, opened⟩ := Outcome.bind_eq_ok.1 opened
  obtain ⟨reader, made, opened⟩ := Outcome.bind_eq_ok.1 opened
  obtain ⟨-, -, opened⟩ := Outcome.bind_eq_ok.1 opened
  obtain rfl := Except.ok.inj opened
  obtain ⟨header, -, made⟩ := Outcome.bind_eq_ok.1 made
  obtain ⟨format, -, made⟩ := Outcome.bind_eq_ok.1 made
  dsimp only at made
  split at made
  · contradiction
  · rename_i counted
    obtain rfl := Except.ok.inj made
    exact ⟨Container.Reader.open_of_ofBytes container_opened, rfl, not_not.1 counted⟩

end Reader

/-- Bytes that are not opened as a range file are corrupt or not the ones expected, unless they are
a container of no blocks: just then it is the id of the first block that is refused. -/
theorem blames_bytes_iff (path : String) (bytes : ByteArray) (expected : Expected) :
    ((∀ fault, Reader.ofBytes path bytes expected = .error fault →
        fault.kind = .corrupt ∨ fault.kind = .mismatch) ↔ ¬OfNoBlocks path bytes) ∧
    (Reader.ofBytes path bytes expected = .error (.blockOutside 0 0) ↔ OfNoBlocks path bytes) := by
  have other_kind : ¬((Fault.blockOutside 0 0).kind = .corrupt ∨
      (Fault.blockOutside 0 0).kind = .mismatch) := by decide
  refine ⟨⟨?_, Reader.blames_ofBytes⟩, ?_, Reader.ofBytes_of_no_blocks⟩
  · intro blamed no_blocks
    exact other_kind (blamed _ (Reader.ofBytes_of_no_blocks no_blocks))
  · intro refused
    by_contra some_blocks
    exact other_kind (Reader.blames_ofBytes some_blocks _ refused)

end

/-- A container of no blocks: a header, which says that the index starts behind it. -/
def emptyContainer : ByteArray :=
  ⟨#[0x53, 0x32, 0x52, 0x46, 1, 0, 0, 0, 0, 0, 0, 0, 24, 0, 0, 0, 0, 0, 0, 0, 0, 0, 0, 0]⟩

/-- It is refused, and neither as corrupt nor as another file than the one expected. -/
theorem emptyContainer_blames_index : ∃ fault,
    Reader.ofBytes "empty" emptyContainer Expected.nothing = .error fault ∧
      ¬(fault.kind = .corrupt ∨ fault.kind = .mismatch) := by
  have counted : (do
      let container ← Container.Reader.ofBytes "empty" emptyContainer Container.rangeMagic
        Container.rangeVersion
      return container.blockCount) = .ok 0 := by decide +kernel
  obtain ⟨container, opened, count_eq⟩ := Outcome.bind_eq_ok.1 counted
  exact ⟨_, Reader.ofBytes_of_no_blocks ⟨container, opened, Except.ok.inj count_eq⟩, by decide⟩

end RangeFile

end Geofence
