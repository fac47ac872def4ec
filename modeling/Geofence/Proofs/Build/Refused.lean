/-
# Geofence.Proofs.Build.Refused -- builds that are refused

A build can be refused before the output is touched, while its writer is made,
while ranges are made and put, and when the file is closed.  Until closing goes
through, the file has zeros for a header (`RangeFile.Headless`), and such a file
is never opened.  What was closed passes its check, so a build that is refused
leaves the output as it was or as a file that is not opened
(`output_of_refused`).
-/
import Geofence.Proofs.Build.Create

namespace Geofence

set_option autoImplicit false

namespace RangeFile

theorem headless_stillborn : Headless Writer.stillborn :=
  ⟨[], by simp [Writer.stillborn, Container.Writer.placeholder]⟩

variable {f : Format} {compressed : Bool} {w u : Writer} {fault : Fault}

theorem Writer.Ready.headless_abort (ready : w.Ready f compressed) : Headless w.abort.contents := by
  have unsealed : w.container.sealed = none := by rw [ready.container_eq]
  exact ⟨_, Container.Writer.contents_abort unsealed⟩

variable [Container.Compression]

theorem Writer.Ready.headless_close (ready : w.Ready f compressed) (some_tables : w.tables ≠ #[])
    (refused : w.close = (.error fault, u)) : Headless u.contents := by
  rw [ready.close_eq some_tables] at refused
  obtain ⟨result_eq, rfl⟩ := Prod.mk.inj refused
  obtain ⟨-, -, -, unsealed⟩ := ready.blocks_frame
  exact Container.Writer.exists_of_close_refused unsealed (Prod.ext result_eq rfl)

end RangeFile

namespace Build

open RangeFile (Expected Headless Reader)

section

variable [Container.Compression] {d e : Disk} {q : Request} {path : String} {bytes : ByteArray}
  {f : Format} {compressed : Bool} {w u : RangeFile.Writer} {fault : Fault}
  {made : Except Fault (List CellRange)}

/-- A writer that does not finish leaves a file without a header. -/
theorem headless_finish (created : RangeFile.Writer.create f compressed = .ok w)
    (refused : finish w made = (.error fault, u)) : Headless u.contents := by
  obtain ⟨ready, no_tables⟩ := RangeFile.Writer.create_ok created
  cases made with
  | error cause =>
      obtain rfl := (Prod.mk.inj refused).2
      exact ready.headless_abort
  | ok ranges =>
      rw [finish] at refused
      rcases put : w.put ranges with ⟨cause | _, v⟩
      · rw [put] at refused
        obtain rfl := (Prod.mk.inj refused).2
        exact (RangeFile.Writer.put_refused ready no_tables put).1.headless_abort
      · rw [put] at refused
        obtain ⟨v_ready, tables, held, tables_eq⟩ := RangeFile.Writer.put_ok ready no_tables put
        exact v_ready.headless_close (RangeFile.Writer.tables_ne_of_all held tables_eq) refused

/-! ## What is left on the disk -/

/-- All files are as they were, but for one, which is there and is not opened. -/
structure Spoiled (d : Disk) (path : String) (e : Disk) : Prop where
  exists_bytes : ∃ bytes, e.read path = .ok bytes
  refused : ∀ expected, ∃ cause, e.openRangeFile path expected = .error cause
  elsewhere : ∀ other, Path.clean other ≠ Path.clean path → e.get? other = d.get? other

/-- A file without a header, put where an empty file was put before. -/
theorem spoiled_of_headless (d : Disk) (path : String) (headless : Headless bytes) :
    Spoiled d path ((d.put path .empty).put path bytes) where
  exists_bytes := ⟨bytes, Disk.read_put _ _ _⟩
  refused := fun expected => by
    obtain ⟨cause, unopened⟩ := headless.not_opened (Path.clean path) expected
    rw [Disk.openRangeFile, Disk.read_put, Outcome.ok_bind, unopened]
    exact ⟨cause, rfl⟩
  elsewhere := fun other apart => by
    rw [Disk.get?_put_of_ne apart, Disk.get?_put_of_ne apart]

/-! ## The stages of a build -/

variable {listed : List Listed}

theorem create_eq_of_unstarted (planned : plan d q = .ok (listed, f))
    (unstarted : d.startRangeFile q.output f q.compressed = (.error fault, e)) :
    create d q = (.error fault, e) := by
  rw [create, planned]
  simp only [unstarted]

theorem create_eq_of_unfinished (planned : plan d q = .ok (listed, f))
    (started : d.startRangeFile q.output f q.compressed = (.ok w, e))
    (unfinished : finish w (CellList.toRanges q.level listed) = (.error fault, u)) :
    create d q = (.error fault, e.put q.output u.contents) := by
  rw [create, planned]
  simp only [started, unfinished]

/-- A build that is refused leaves all files as they were, or all but its output, which is not opened
then, whatever is expected of it. -/
theorem output_of_refused (roundTrips : q.compressed = true → Container.Compression.RoundTrips)
    (refused : (create d q).1 = .error fault) :
    (create d q).2 = d ∨ Spoiled d q.output (create d q).2 := by
  cases planned : plan d q with
  | error cause =>
      left
      rw [create, planned]
  | ok settled =>
      obtain ⟨listed, f⟩ := settled
      rcases started : d.startRangeFile q.output f q.compressed with ⟨cause | w, e⟩
      · rw [create_eq_of_unstarted planned started]
        rcases Disk.eq_of_startRangeFile_refused started with untouched | headless
        · exact Or.inl untouched
        · rw [headless]
          exact Or.inr (spoiled_of_headless d q.output RangeFile.headless_stillborn)
      right
      rcases written : finish w (CellList.toRanges q.level listed) with ⟨cause | _, u⟩
      · have headless := headless_finish (Disk.create_of_startRangeFile started) written
        rw [create_eq_of_unfinished planned started written, Disk.eq_of_startRangeFile started]
        exact spoiled_of_headless d q.output headless
      · -- a finished file passes its check
        have finished : Finished d q listed f e u := ⟨planned, w, started, written⟩
        rw [finished.create_eq roundTrips] at refused
        contradiction

end

/-- A request for a version that does not fit a header. -/
def lateRequest : Request :=
  { sampleRequest with version := 2 ^ 32 }

def laterDisk : Disk :=
  (diskOf "68719476736,7\n").put "out" ⟨#[0x53, 0x32]⟩

theorem read_laterDisk : laterDisk.read "in" = .ok "68719476736,7\n".toUTF8 := by
  have apart : Path.clean "in" ≠ Path.clean "out" := by decide +kernel
  rw [laterDisk, Disk.read, Disk.get?_put_of_ne apart]
  exact Disk.read_put _ _ _

/-- The request is refused, and the older output is there or makes way for a file that is not
opened. -/
theorem output_of_refused_late : ∃ fault, (create laterDisk lateRequest).1 = .error fault ∧
    ((create laterDisk lateRequest).2 = laterDisk ∨
      Spoiled laterDisk "out" (create laterDisk lateRequest).2) := by
  have not_built : (create laterDisk lateRequest).1 ≠ .ok () := by
    intro built
    obtain ⟨entries, listed, wellformed, -⟩ :=
      (exists_finished_iff (q := lateRequest) read_laterDisk (by decide +kernel)
        fun _ => Container.Frame.bounded).1 (exists_finished_of_create built)
    exact absurd wellformed.version_range.2 (by decide)
  cases result : (create laterDisk lateRequest).1 with
  | ok _ => exact absurd result not_built
  | error fault =>
      exact ⟨fault, rfl, output_of_refused (fun _ => Container.Frame.roundTrips) result⟩

end Build

end Geofence
