/-
# Geofence.Proofs.Build.Create -- from a cell list to a file

A build goes through its stages, each with what it needs: the plan needs a cell
list and a settled layout (`plan_eq_ok_iff`), and the file needs a header that
fits, ranges that can be made and values that have room (`exists_finished_iff`).
A finished file always passes its check, so these needs decide whether a build
succeeds, and what is built answers from the list (`built_as_listed`).

One need should not be there.  A run of cells with one value that reaches the end
of face 5 is made into a range only when it starts on face 5, so some cell lists
are refused for what they list (`twoFaces_refused`).
-/
import Geofence.Proofs.Build.Verify
import Geofence.Proofs.CellList.Text
import Geofence.Proofs.Disk
import Geofence.Proofs.RangeFile.Accepted

namespace Geofence.Build

set_option autoImplicit false

open CellList (Merged Normal Overruns Spelled)
open RangeFile (Expected Reader)

variable {d e : Disk} {q : Request} {bytes : ByteArray} {entries listed : List Listed} {f : Format}

/-! ## The plan -/

/-- The bytes are a cell list that can be brought to the level, and there is a format for it. -/
structure Planned (q : Request) (bytes : ByteArray) (entries listed : List Listed) (f : Format) :
    Prop where
  spelled : Spelled bytes entries
  normalized : CellList.normalize q.level entries = .ok listed
  format_made : Format.ofPreset q.level q.isAllowedList q.valueSize q.version = .ok f

theorem plan_eq_ok_iff : plan d q = .ok (listed, f) ↔
    ∃ bytes entries, d.read q.input = .ok bytes ∧ Planned q bytes entries listed f := by
  unfold plan
  constructor
  · intro planned
    obtain ⟨bytes, input, planned⟩ := Outcome.bind_eq_ok.1 planned
    obtain ⟨entries, read, planned⟩ := Outcome.bind_eq_ok.1 planned
    obtain ⟨_, normalized, planned⟩ := Outcome.bind_eq_ok.1 planned
    obtain ⟨_, made, planned⟩ := Outcome.bind_eq_ok.1 planned
    obtain ⟨rfl, rfl⟩ := Prod.mk.inj (Except.ok.inj planned)
    exact ⟨bytes, entries, input, CellList.ofBytes_eq_ok_iff.1 read, normalized, made⟩
  · rintro ⟨bytes, entries, input, spelled, normalized, made⟩
    rw [input, Outcome.ok_bind, CellList.ofBytes_eq_ok_iff.2 spelled, Outcome.ok_bind, normalized,
      Outcome.ok_bind, made]
    rfl

namespace Planned

theorem level_eq (planned : Planned q bytes entries listed f) : q.level = (f.level : Int) :=
  (Format.ofPreset_spec planned.format_made).2.1.symm

theorem normal (planned : Planned q bytes entries listed f) : Normal f.level listed := by
  have normalized := planned.normalized
  rw [planned.level_eq] at normalized
  exact CellList.normal_of_normalize f.level_le normalized planned.spelled.value_nonneg

end Planned

/-! ## What is needed -/

/-- The input is a list of cells, and the numbers of the request and the values of the list at the
level of the request are in range. -/
structure Wellformed (q : Request) (bytes : ByteArray) (entries listed : List Listed) : Prop where
  spelled : Spelled bytes entries
  valid : ∀ x ∈ entries, Cell.isValid x.cell = true
  preset : ∃ p ∈ Preset.all, (p.level : Int) = q.level
  valueSize_range : 0 ≤ q.valueSize ∧ q.valueSize ≤ 4
  version_range : 0 ≤ q.version ∧ q.version < 2 ^ 32
  normalized : CellList.normalize q.level entries = .ok listed
  fitting : 0 < q.valueSize → ∀ x ∈ listed, x.value < 256 ^ q.valueSize.toNat

theorem wellformed_iff : Wellformed q bytes entries listed ↔
    ∃ f, Planned q bytes entries listed f ∧
      (∃ w, RangeFile.Writer.create f q.compressed = .ok w) ∧
      (0 < f.valueSize → ∀ x ∈ listed, x.value ≤ f.greatestValue) := by
  simp only [RangeFile.Writer.exists_create_iff, Format.le_greatestValue_iff]
  constructor
  · rintro ⟨spelled, -, preset, valueSize_range, version_range, normalized, fitting⟩
    obtain ⟨f, made⟩ := Format.exists_ofPreset preset valueSize_range version_range.1
    obtain ⟨-, -, -, valueSize_eq, version_eq, firstTable_eq, -⟩ := Format.ofPreset_spec made
    rw [← valueSize_eq, Int.toNat_natCast] at fitting
    exact ⟨f, ⟨spelled, normalized, made⟩, ⟨by omega, by omega⟩, fun room => fitting (by omega)⟩
  · rintro ⟨f, ⟨spelled, normalized, made⟩, ⟨-, version_lt⟩, fitting⟩
    obtain ⟨preset, -, -, valueSize_eq, version_eq, -⟩ := Format.ofPreset_spec made
    have valueSize_le := f.valueSize_le
    refine ⟨spelled, CellList.isValid_of_normalize normalized, preset, by omega, by omega,
      normalized, fun room => ?_⟩
    rw [← valueSize_eq, Int.toNat_natCast]
    exact fitting (by omega)

/-! ## The file -/

section

variable [Container.Compression] {w u : RangeFile.Writer}

/-- The ranges of the list were written through a writer that was started for the request, and
closed. -/
structure Finished (d : Disk) (q : Request) (listed : List Listed) (f : Format) (e : Disk)
    (u : RangeFile.Writer) : Prop where
  planned : plan d q = .ok (listed, f)
  written : ∃ w, d.startRangeFile q.output f q.compressed = (.ok w, e) ∧
    finish w (CellList.toRanges q.level listed) = (.ok (), u)

theorem finish_eq_ok_iff {made : Except Fault (List CellRange)} : finish w made = (.ok (), u) ↔
    ∃ ranges v, made = .ok ranges ∧ w.put ranges = (.ok (), v) ∧ v.close = (.ok (), u) := by
  cases made with
  | error fault => simp [finish]
  | ok ranges =>
      rw [finish]
      cases put : w.put ranges with
      | mk result v =>
          cases result with
          | error fault => simp [put]
          | ok _ => simp [put]

/-- A list is written and closed when its ranges can be made and its values have room. -/
theorem exists_finish_iff (planned : Planned q bytes entries listed f)
    (created : RangeFile.Writer.create f q.compressed = .ok w)
    (bounded : q.compressed = true → Container.Compression.Bounded) :
    (∃ u, finish w (CellList.toRanges q.level listed) = (.ok (), u)) ↔
      ¬Overruns f.level listed ∧ (0 < f.valueSize → ∀ x ∈ listed, x.value ≤ f.greatestValue) := by
  obtain ⟨-, -, -, -, -, -, prefixBits_le, suffixBits_le⟩ :=
    Format.ofPreset_spec planned.format_made
  have written {ranges : List CellRange} (merged : Merged f.level listed ranges) :=
    RangeFile.written_iff created (prefixBits_le.trans (by decide))
      (suffixBits_le.trans (by decide)) bounded merged.atLevel merged.sorted
  rw [planned.level_eq]
  simp only [finish_eq_ok_iff]
  constructor
  · rintro ⟨u, ranges, v, made, accepted, closed⟩
    obtain ⟨within, merged⟩ := CellList.merged_of_toRanges f.level_le planned.normal made
    refine ⟨within, fun room => ?_⟩
    exact (merged.forall_value planned.normal (· ≤ (f.greatestValue : Int))).1
      ((written merged).1 ⟨v, u, accepted, closed⟩ room)
  · rintro ⟨within, fitting⟩
    obtain ⟨ranges, made, merged⟩ := CellList.toRanges_ok f.level_le planned.normal within
    obtain ⟨v, u, accepted, closed⟩ := (written merged).2 fun room =>
      (merged.forall_value planned.normal (· ≤ (f.greatestValue : Int))).2 (fitting room)
    exact ⟨u, ranges, v, made, accepted, closed⟩

/-- A file is finished for a request that is well formed and can be made into ranges. -/
theorem exists_finished_iff (input : d.read q.input = .ok bytes)
    (folder : d.hasFolder (Path.folder q.output) = true)
    (bounded : q.compressed = true → Container.Compression.Bounded) :
    (∃ listed f e u, Finished d q listed f e u) ↔
      ∃ entries listed, Wellformed q bytes entries listed ∧ ¬Overruns q.level.toNat listed := by
  simp only [wellformed_iff]
  constructor
  · rintro ⟨listed, f, e, u, plan_eq, w, started, finished⟩
    obtain ⟨own, entries, own_input, planned⟩ := plan_eq_ok_iff.1 plan_eq
    rw [input] at own_input
    obtain rfl := Except.ok.inj own_input
    have created := Disk.create_of_startRangeFile started
    obtain ⟨within, fitting⟩ := (exists_finish_iff planned created bounded).1 ⟨u, finished⟩
    refine ⟨entries, listed, ⟨f, planned, ⟨w, created⟩, fitting⟩, ?_⟩
    rwa [planned.level_eq, Int.toNat_natCast]
  · rintro ⟨entries, listed, ⟨f, planned, ⟨w, created⟩, fitting⟩, within⟩
    rw [planned.level_eq, Int.toNat_natCast] at within
    obtain ⟨u, finished⟩ := (exists_finish_iff planned created bounded).2 ⟨within, fitting⟩
    exact ⟨listed, f, _, u, plan_eq_ok_iff.2 ⟨bytes, entries, input, planned⟩, w,
      Disk.startRangeFile_eq folder created, finished⟩

/-! ## What is built -/

theorem Finished.opens (finished : Finished d q listed f e u)
    (roundTrips : q.compressed = true → Container.Compression.RoundTrips) :
    ∃ r ranges, (e.put q.output u.contents).openRangeFile q.output Expected.nothing = .ok r ∧
      r.Serves f ranges ∧ Merged f.level listed ranges := by
  obtain ⟨plan_eq, w, started, written⟩ := finished
  obtain ⟨bytes, entries, -, planned⟩ := plan_eq_ok_iff.1 plan_eq
  obtain ⟨ranges, v, made, accepted, closed⟩ := finish_eq_ok_iff.1 written
  rw [planned.level_eq] at made
  obtain ⟨-, merged⟩ := CellList.merged_of_toRanges f.level_le planned.normal made
  obtain ⟨tables, container, held, ready, tables_eq, holds, opened⟩ :=
    Reader.opens_written roundTrips (Disk.create_of_startRangeFile started) accepted closed
      (Path.clean q.output)
  refine ⟨_, ranges, ?_, Reader.serves_of_holds ready held tables_eq holds, merged⟩
  rw [Disk.openRangeFile, Disk.read_put, Outcome.ok_bind, opened]

theorem Finished.verify_eq (finished : Finished d q listed f e u)
    (roundTrips : q.compressed = true → Container.Compression.RoundTrips) :
    verify (e.put q.output u.contents) q.output listed q.isAllowedList q.valueSize = .ok () := by
  obtain ⟨r, ranges, opened, serves, merged⟩ := finished.opens roundTrips
  obtain ⟨bytes, entries, -, planned⟩ := plan_eq_ok_iff.1 finished.planned
  obtain ⟨-, -, flag_eq, valueSize_eq, -⟩ := Format.ofPreset_spec planned.format_made
  rw [← flag_eq, ← valueSize_eq]
  exact verify_ok opened serves merged planned.normal

theorem Finished.create_eq (finished : Finished d q listed f e u)
    (roundTrips : q.compressed = true → Container.Compression.RoundTrips) :
    create d q = (.ok (), e.put q.output u.contents) := by
  have checked := finished.verify_eq roundTrips
  obtain ⟨plan_eq, w, started, written⟩ := finished
  rw [create, plan_eq]
  simp only [started, written, checked]

theorem exists_finished_of_create (built : (create d q).1 = .ok ()) :
    ∃ listed f e u, Finished d q listed f e u := by
  unfold create at built
  split at built
  case h_1 => contradiction
  rename_i listed f plan_eq
  split at built
  case h_1 => contradiction
  rename_i w e started
  cases written : finish w (CellList.toRanges q.level listed) with
  | mk result u =>
      rw [written] at built
      cases result with
      | error fault => contradiction
      | ok _ => exact ⟨listed, f, e, u, plan_eq, w, started, written⟩

/-- A list that cannot be made into ranges is refused, although nothing is wrong with it. -/
theorem create_refused (input : d.read q.input = .ok bytes)
    (folder : d.hasFolder (Path.folder q.output) = true)
    (wellformed : Wellformed q bytes entries listed) (overruns : Overruns q.level.toNat listed) :
    ∃ span, (create d q).1 = .error (.startNotBelowStop span) := by
  obtain ⟨f, planned, ⟨w, created⟩, -⟩ := wellformed_iff.1 wellformed
  rw [planned.level_eq, Int.toNat_natCast] at overruns
  obtain ⟨span, refused⟩ := CellList.toRanges_refused f.level_le planned.normal overruns
  refine ⟨span, ?_⟩
  rw [create, plan_eq_ok_iff.2 ⟨bytes, entries, input, planned⟩]
  simp only [Disk.startRangeFile_eq folder created, planned.level_eq, refused, finish]

/-- A build succeeds just when the request is well formed and its list can be made into ranges,
and then a cell of the level is found in the file just when it is listed, with its value.  What the
writer finishes passes the check. -/
theorem built_as_listed (roundTrips : q.compressed = true → Container.Compression.RoundTrips)
    (bounded : q.compressed = true → Container.Compression.Bounded)
    (input : d.read q.input = .ok bytes) (folder : d.hasFolder (Path.folder q.output) = true) :
    ((create d q).1 = .ok () ↔
      ∃ entries listed, Wellformed q bytes entries listed ∧ ¬Overruns q.level.toNat listed) ∧
    (∀ entries listed, Wellformed q bytes entries listed → Overruns q.level.toNat listed →
      ∃ span, (create d q).1 = .error (.startNotBelowStop span)) ∧
    ((create d q).1 = .ok () → ∀ entries listed, Wellformed q bytes entries listed →
      ∃ r, (create d q).2.openRangeFile q.output Expected.nothing = .ok r ∧
        ∀ (earlier : List Cell) (c : Cell), Cell.isValid c = true → Cell.depth c = q.level →
          ∃ found, ((r.lookups earlier).find c).1 = .ok found ∧
            Answers q.valueSize listed c found) ∧
    (∀ listed f e u, Finished d q listed f e u →
      verify (e.put q.output u.contents) q.output listed q.isAllowedList q.valueSize = .ok ()) := by
  refine ⟨?_, fun entries listed => create_refused input folder, ?_,
    fun listed f e u finished => finished.verify_eq roundTrips⟩
  · rw [← exists_finished_iff input folder bounded]
    refine ⟨exists_finished_of_create, ?_⟩
    rintro ⟨listed, f, e, u, finished⟩
    rw [finished.create_eq roundTrips]
  · intro built entries listed wellformed
    obtain ⟨own, f, e, u, finished⟩ := exists_finished_of_create built
    obtain ⟨own_f, planned, -⟩ := wellformed_iff.1 wellformed
    have same := finished.planned.symm.trans (plan_eq_ok_iff.2 ⟨bytes, entries, input, planned⟩)
    obtain ⟨rfl, rfl⟩ := Prod.mk.inj (Except.ok.inj same)
    obtain ⟨r, ranges, opened, serves, merged⟩ := finished.opens roundTrips
    obtain ⟨-, -, -, valueSize_eq, -⟩ := Format.ofPreset_spec planned.format_made
    refine ⟨r, by rwa [finished.create_eq roundTrips], fun earlier c valid depth_eq => ?_⟩
    rw [← valueSize_eq]
    exact (serves.lookups earlier).answers merged valid (depth_eq.trans planned.level_eq)

end

/-! ## Requests at level 12 -/

def sampleRequest : Request where
  input := "in"
  output := "out"
  level := 12
  isAllowedList := true
  valueSize := 1
  version := 1
  compressed := true

def diskOf (text : String) : Disk :=
  Disk.empty.put sampleRequest.input text.toUTF8

theorem wellformed_sample (text : String) (entries : List Listed)
    (read : CellList.ofBytes text.toUTF8 = .ok entries)
    (valid : ∀ x ∈ entries, Cell.isValid x.cell = true) (small : ∀ x ∈ entries, x.value < 256) :
    Wellformed sampleRequest text.toUTF8 entries
      (CellList.normalForm (CellList.expansion 12 entries)) where
  spelled := CellList.ofBytes_eq_ok_iff.1 read
  valid := valid
  preset := by decide
  valueSize_range := by decide
  version_range := by decide
  normalized := CellList.normalize_eq (by decide) valid
  fitting := fun _ y member => by
    obtain ⟨x, x_member, k, -, rfl⟩ := CellList.exists_of_mem_normalForm member
    exact small x x_member

/-- The first cell of the level, with the value 7. -/
def oneCell : Listed where
  cell := Cell.nth 12 0
  value := 7

theorem normalForm_oneCell :
    CellList.normalForm (CellList.expansion 12 [oneCell]) = [oneCell] := by
  have expanded : CellList.expansion 12 [oneCell] = [oneCell] := by decide +kernel
  rw [expanded, CellList.normalForm, List.mergeSort_singleton]
  rfl

/-- A list of one cell becomes a file in which this cell is found, and no other. -/
theorem built_as_listed_oneCell :
    (create (diskOf "68719476736,7\n") sampleRequest).1 = .ok () ∧
    ∃ r, (create (diskOf "68719476736,7\n") sampleRequest).2.openRangeFile "out"
        Expected.nothing = .ok r ∧
      (∃ q, (r.find (Cell.nth 12 0)).1 = .ok (some q) ∧ q.value = 7) ∧
      ((r.lookups [Cell.nth 12 0]).find (Cell.nth 12 1)).1 = .ok none := by
  have wellformed := wellformed_sample "68719476736,7\n" [oneCell] (by decide +kernel)
    (by decide) (by decide)
  rw [normalForm_oneCell] at wellformed
  have within : ¬Overruns 12 [oneCell] := by
    rintro ⟨v, all⟩
    have last := List.mem_singleton.1 (all (Cell.count 12 - 1) (by decide) (by decide))
    exact absurd (Cell.nth_inj.1 (congrArg Listed.cell last)) (by decide)
  obtain ⟨built_iff, -, answers, -⟩ := built_as_listed (d := diskOf "68719476736,7\n")
    (q := sampleRequest) (fun _ => Container.Frame.roundTrips) (fun _ => Container.Frame.bounded)
    (Disk.read_put _ _ _) (by decide +kernel)
  have built := built_iff.2 ⟨_, _, wellformed, within⟩
  obtain ⟨r, opened, found⟩ := answers built _ _ wellformed
  refine ⟨built, r, opened, ?_, ?_⟩
  · obtain ⟨result, answer, own⟩ := found [] (Cell.nth 12 0) (by decide) (by decide)
    obtain ⟨q, rfl⟩ := Option.isSome_iff_exists.1 (own.found_iff.2 ⟨oneCell, by simp, rfl⟩)
    exact ⟨q, answer, own.value_eq oneCell (by simp) rfl q rfl⟩
  · obtain ⟨result, answer, own⟩ :=
      found [Cell.nth 12 0] (Cell.nth 12 1) (by decide) (by decide)
    have missed : result = none := by
      rw [← Option.not_isSome_iff_eq_none, own.found_iff]
      decide
    rw [answer, missed]

/-- The last cell of face 4, and face 5. -/
def twoFacesText : String :=
  "11529214977348993024,1\n12682136550675316736,1\n"

def twoFaces : List Listed :=
  [{ cell := Cell.nth 12 (5 * 4 ^ 12 - 1), value := 1 }, { cell := Cell.nth 0 5, value := 1 }]

theorem overruns_twoFaces :
    Overruns 12 (CellList.normalForm (CellList.expansion 12 twoFaces)) := by
  refine ⟨1, fun k lower upper => ?_⟩
  have named : ∃ x ∈ twoFaces, k ∈ CellList.numbers 12 x.cell := by
    rcases lower.eq_or_lt with rfl | behind
    · refine ⟨_, List.mem_cons_self, ?_⟩
      rw [CellList.numbers_nth (by decide)]
      decide
    · refine ⟨_, List.mem_cons_of_mem _ List.mem_cons_self, ?_⟩
      rw [CellList.numbers_nth (by decide), if_pos (by decide), List.mem_map]
      exact ⟨k - 5 * 4 ^ 12, List.mem_range.2 (by unfold Cell.count at upper; omega), by omega⟩
  obtain ⟨x, member, stands⟩ := named
  obtain ⟨y, y_member, cell_eq⟩ := CellList.exists_mem_normalForm member stands
  have value_eq : y.value = 1 := by
    obtain ⟨x, x_member, -, -, rfl⟩ := CellList.exists_of_mem_normalForm y_member
    simp only [twoFaces, List.mem_cons, List.not_mem_nil, or_false] at x_member
    rcases x_member with rfl | rfl <;> rfl
  rw [← cell_eq, ← value_eq]
  exact y_member

/-- The last cell of face 4 and face 5, with one value, are refused: not for anything that the
request lacks, but because their run of cells does not start on face 5. -/
theorem twoFaces_refused : ∃ bytes entries listed span,
    (diskOf twoFacesText).read sampleRequest.input = .ok bytes ∧
    (diskOf twoFacesText).hasFolder (Path.folder sampleRequest.output) = true ∧
    Wellformed sampleRequest bytes entries listed ∧
    (create (diskOf twoFacesText) sampleRequest).1 = .error (.startNotBelowStop span) := by
  have wellformed := wellformed_sample twoFacesText twoFaces (by decide +kernel) (by decide)
    (by decide)
  have input : (diskOf twoFacesText).read sampleRequest.input = .ok twoFacesText.toUTF8 :=
    Disk.read_put _ _ _
  have folder : (diskOf twoFacesText).hasFolder (Path.folder sampleRequest.output) = true := by
    decide +kernel
  obtain ⟨span, refused⟩ := create_refused input folder wellformed overruns_twoFaces
  exact ⟨_, _, _, span, input, folder, wellformed, refused⟩

end Geofence.Build
