/-
# Geofence.Proofs.Disk -- files that were put on a disk

A file reads back from the path at which it was put, files at other paths do not
notice, and a range file can be started wherever there is a folder for it.
-/
import Geofence.Proofs.RangeFile.Writer
import Geofence.Storage

namespace Geofence.Disk

set_option autoImplicit false

variable {d : Disk} {path : String} {bytes : ByteArray}

theorem read_put (d : Disk) (path : String) (bytes : ByteArray) :
    (d.put path bytes).read path = .ok bytes := by
  simp [read, get?, put]

theorem get?_put_of_ne {other : String} (elsewhere : Path.clean other ≠ Path.clean path)
    (d : Disk) (bytes : ByteArray) : (d.put path bytes).get? other = d.get? other := by
  have kept : ∀ files : List (String × ByteArray),
      (files.filter fun file => file.1 != Path.clean path).lookup (Path.clean other) =
        files.lookup (Path.clean other) := by
    intro files
    induction files with
    | nil => rfl
    | cons file files ih =>
        by_cases replaced : file.1 = Path.clean path
        · have missed : (Path.clean other == file.1) = false := by simp [replaced, elsewhere]
          rw [List.filter_cons_of_neg (by simp [replaced]), ih]
          simp [List.lookup, missed]
        · rw [List.filter_cons_of_pos (by simp [replaced]), List.lookup_cons, List.lookup_cons, ih]
  have missed : (Path.clean other == Path.clean path) = false := by simp [elsewhere]
  rw [get?, get?, put]
  simp only [List.lookup_cons, missed, kept]

variable {f : Format} {compressed : Bool} {w : RangeFile.Writer}

theorem startRangeFile_eq (folder : d.hasFolder (Path.folder path) = true)
    (created : RangeFile.Writer.create f compressed = .ok w) :
    d.startRangeFile path f compressed = (.ok w, d.put path .empty) := by
  unfold startRangeFile write
  rw [if_pos folder]
  simp only [created]

/-- A range file that was started is empty as yet. -/
theorem eq_of_startRangeFile {e : Disk}
    (started : d.startRangeFile path f compressed = (.ok w, e)) : e = d.put path .empty := by
  unfold startRangeFile write at started
  by_cases folder : d.hasFolder (Path.folder path) = true
  · rw [if_pos folder] at started
    dsimp only at started
    split at started
    · cases (Prod.mk.inj started).1
    · exact (Prod.mk.inj started).2.symm
  · rw [if_neg folder] at started
    cases (Prod.mk.inj started).1

/-- A range file that cannot be started is not touched, or is left with a header of zeros. -/
theorem eq_of_startRangeFile_refused {e : Disk} {fault : Fault}
    (refused : d.startRangeFile path f compressed = (.error fault, e)) :
    e = d ∨ e = (d.put path .empty).put path RangeFile.Writer.stillborn := by
  unfold startRangeFile write at refused
  by_cases folder : d.hasFolder (Path.folder path) = true
  · rw [if_pos folder] at refused
    dsimp only at refused
    split at refused
    · exact Or.inr (Prod.mk.inj refused).2.symm
    · cases (Prod.mk.inj refused).1
  · rw [if_neg folder] at refused
    exact Or.inl (Prod.mk.inj refused).2.symm

theorem create_of_startRangeFile {e : Disk}
    (started : d.startRangeFile path f compressed = (.ok w, e)) :
    RangeFile.Writer.create f compressed = .ok w := by
  unfold startRangeFile at started
  split at started
  · cases (Prod.mk.inj started).1
  · split at started
    · cases (Prod.mk.inj started).1
    · rename_i created
      rw [created]
      exact (Prod.mk.inj started).1

end Geofence.Disk
