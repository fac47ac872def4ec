/-
# Geofence.Proofs.RangeFile.Access -- decisions from lists that were written

How a list was cut into tables and rows does not show in the decisions that its
file leads to: a cell is decided by whether a range of the list holds it
(`Serves.isAllowed_eq`), and its value is that of the range
(`Serves.answersValue`).  So an allowed list and a disallowed list of all other
cells decide alike, and two files of one list decide the opposite of each other
(`decisions_of_written`).  The two formats share their level and nothing else.
-/
import Geofence.Proofs.RangeFile.Calls
import Geofence.Proofs.RangeFile.Lookup
import Geofence.Proofs.RangeFile.Opening
import Geofence.RangeFile.Access

namespace Geofence.RangeFile

set_option autoImplicit false

def anyHolds (ranges : List CellRange) (c : Cell) : Bool :=
  ranges.any fun q => q.contains c

/-- Every cell of a level is held by a range of just one of the lists. -/
def Complementary (level : Nat) (ranges others : List CellRange) : Prop :=
  ∀ c, Cell.isValid c = true → Cell.depth c = level → anyHolds ranges c = !anyHolds others c

theorem anyHolds_eq_false_iff {ranges : List CellRange} {c : Cell} :
    anyHolds ranges c = false ↔ ∀ q ∈ ranges, q.contains c = false := by
  rw [anyHolds, List.any_eq_false]
  simp

section

variable [Container.Compression]

/-- The bytes are the file that a writer left that was closed behind the ranges. -/
def Written (f : Format) (compressed : Bool) (ranges : List CellRange) (bytes : ByteArray) : Prop :=
  ∃ w v u : Writer, Writer.create f compressed = .ok w ∧ w.put ranges = (.ok (), v) ∧
    v.close = (.ok (), u) ∧ u.contents = bytes

namespace Reader

/-- The value given for a cell is that of the range that holds it; there is none where no range
does, and none in files without values. -/
structure AnswersValue (r : Reader) (f : Format) (ranges : List CellRange) (c : Cell) : Prop where
  none_iff : (r.valueAt c).1 = .ok none ↔
    f.valueSize = 0 ∨ ∀ q ∈ ranges, q.contains c = false
  value_eq : f.valueSize ≠ 0 → ∀ q ∈ ranges, q.contains c = true →
    (r.valueAt c).1 = .ok (some q.value)

/-! ## One reader -/

variable {r s : Reader} {f : Format} {ranges : List CellRange} {c : Cell}

theorem isAllowed_eq (r : Reader) (c : Cell) :
    (r.isAllowed c).1 = (r.find c).1.map fun found => decision r.format found.isSome := by
  unfold isAllowed
  split
  · rename_i answer
    rw [answer]
    rfl
  · rename_i answer
    rw [answer]
    rfl

theorem valueAt_eq (r : Reader) (c : Cell) (some_values : r.format.valueSize ≠ 0) :
    (r.valueAt c).1 = (r.find c).1.map fun found => found.map (·.value) := by
  rw [valueAt, if_neg some_values]
  split
  · rename_i answer
    rw [answer]
    rfl
  · rename_i answer
    rw [answer]
    rfl

theorem Agrees.isAllowed (agrees : Agrees r s) (c : Cell) :
    (r.isAllowed c).1 = (s.isAllowed c).1 := by
  rw [isAllowed_eq, isAllowed_eq, (agrees.find c).1, agrees.format_eq]

theorem Agrees.valueAt (agrees : Agrees r s) (c : Cell) : (r.valueAt c).1 = (s.valueAt c).1 := by
  by_cases no_values : r.format.valueSize = 0
  · rw [Reader.valueAt, if_pos no_values, Reader.valueAt, if_pos (agrees.format_eq ▸ no_values)]
  · rw [valueAt_eq r c no_values, valueAt_eq s c (agrees.format_eq ▸ no_values),
      (agrees.find c).1]

theorem AnswersValue.of_agrees (answers : s.AnswersValue f ranges c) (agrees : Agrees r s) :
    r.AnswersValue f ranges c where
  none_iff := by rw [agrees.valueAt]; exact answers.none_iff
  value_eq := by rw [agrees.valueAt]; exact answers.value_eq

/-- A reader decides a cell by whether a range holds it. -/
theorem Serves.isAllowed_eq (serves : r.Serves f ranges) (valid : Cell.isValid c = true)
    (depth_eq : Cell.depth c = f.level) :
    (r.isAllowed c).1 = .ok (decision f (anyHolds ranges c)) := by
  obtain ⟨found, answer, none_iff, -⟩ := serves.find_answers valid depth_eq
  have some_eq : found.isSome = anyHolds ranges c := by
    rw [← anyHolds_eq_false_iff] at none_iff
    cases found with
    | none => exact (none_iff.1 rfl).symm
    | some q =>
        by_contra other
        exact absurd (none_iff.2 (Bool.eq_false_iff.2 (Ne.symm other))) nofun
  rw [Reader.isAllowed_eq, answer, serves.format_eq, ← some_eq]
  rfl

theorem Serves.answersValue (serves : r.Serves f ranges) (valid : Cell.isValid c = true)
    (depth_eq : Cell.depth c = f.level) : r.AnswersValue f ranges c := by
  obtain ⟨found, answer, none_iff, around⟩ := serves.find_answers valid depth_eq
  by_cases no_values : f.valueSize = 0
  · have value_none : (r.valueAt c).1 = .ok none := by
      rw [valueAt, if_pos (serves.format_eq ▸ no_values)]
    constructor
    · exact iff_of_true value_none (Or.inl no_values)
    · intro some_values
      contradiction
  · have value_eq := valueAt_eq r c (serves.format_eq ▸ no_values)
    rw [answer] at value_eq
    constructor
    · rw [value_eq, ← none_iff]
      cases found <;> simp [Except.map, no_values]
    · intro _ q member holds
      -- what is found is the piece around the cell, which has the value of its range
      obtain ⟨piece, rfl, part⟩ := around q member holds
      rw [value_eq, ← (part.value_eq.trans (if_neg no_values))]
      rfl

/-- The file of a list that was written opens with its format, and its reader serves the list. -/
theorem exists_serves_of_written {compressed : Bool} {bytes : ByteArray}
    (roundTrips : compressed = true → Container.Compression.RoundTrips)
    (written : Written f compressed ranges bytes) (path : String) :
    ∃ r, ofBytes path bytes Expected.nothing = .ok r ∧ r.Faithful ∧ r.Serves f ranges := by
  obtain ⟨w, v, u, created, accepted, closed, rfl⟩ := written
  obtain ⟨tables, container, held, ready, tables_eq, holds, opened⟩ :=
    opens_written roundTrips created accepted closed path
  exact ⟨_, opened, nofun, serves_of_holds ready held tables_eq holds⟩

end Reader

/-! ## Two lists -/

/-- An allowed list and a disallowed list of the cells of one level, each in a file of its own:
every cell is decided alike when just one of the lists holds it, and oppositely when the lists are
the same, and its values are those of the ranges that hold it, whatever the readers were asked
before. -/
theorem decisions_of_written {f g : Format} {compressed packed : Bool}
    {ranges others : List CellRange} {bytes othersBytes : ByteArray}
    (roundTrips : compressed = true ∨ packed = true → Container.Compression.RoundTrips)
    (allowed : f.isAllowedList = true) (disallowed : g.isAllowedList = false)
    (level_eq : f.level = g.level) (written : Written f compressed ranges bytes)
    (others_written : Written g packed others othersBytes) (path othersPath : String) :
    ∃ r s, Reader.ofBytes path bytes Expected.nothing = .ok r ∧
      Reader.ofBytes othersPath othersBytes Expected.nothing = .ok s ∧
      ∀ calls othersCalls, (r.after calls).closed = false → (s.after othersCalls).closed = false →
        ∀ c, Cell.isValid c = true → Cell.depth c = f.level →
          (Complementary f.level ranges others → ∃ d,
            ((r.after calls).isAllowed c).1 = .ok d ∧ ((s.after othersCalls).isAllowed c).1 = .ok d) ∧
          (others = ranges → ∃ d,
            ((r.after calls).isAllowed c).1 = .ok d ∧ ((s.after othersCalls).isAllowed c).1 = .ok !d) ∧
          (r.after calls).AnswersValue f ranges c ∧ (s.after othersCalls).AnswersValue g others c := by
  obtain ⟨r, opened, faithful, serves⟩ :=
    Reader.exists_serves_of_written (fun on => roundTrips (Or.inl on)) written path
  obtain ⟨s, others_opened, others_faithful, others_serve⟩ :=
    Reader.exists_serves_of_written (fun on => roundTrips (Or.inr on)) others_written othersPath
  refine ⟨r, s, opened, others_opened, ?_⟩
  intro calls othersCalls open_still others_open c valid depth_eq
  have agrees := (Reader.Agrees.refl faithful).after calls open_still
  have others_agree := (Reader.Agrees.refl others_faithful).after othersCalls others_open
  have others_depth : Cell.depth c = g.level := level_eq ▸ depth_eq
  have decided : (r.isAllowed c).1 = .ok (anyHolds ranges c) := by
    rw [serves.isAllowed_eq valid depth_eq, Reader.decision, allowed, if_pos rfl]
  have others_decided : (s.isAllowed c).1 = .ok !anyHolds others c := by
    rw [others_serve.isAllowed_eq valid others_depth, Reader.decision, disallowed,
      if_neg Bool.false_ne_true]
  rw [agrees.isAllowed, others_agree.isAllowed, decided, others_decided]
  refine ⟨?_, ?_, ?_, ?_⟩
  · intro complementary
    exact ⟨_, rfl, by rw [complementary c valid depth_eq]⟩
  · rintro rfl
    exact ⟨_, rfl, rfl⟩
  · exact (serves.answersValue valid depth_eq).of_agrees agrees
  · exact (others_serve.answersValue valid others_depth).of_agrees others_agree

end

theorem complementary_gaps :
    Complementary 2 [spanningRange, wrappingRange] [leadingGap, middleGap] := by
  intro c valid depth_eq
  obtain ⟨-, inside, c_eq⟩ := Cell.nth_index valid depth_eq
  have each : ∀ k < Cell.count 2, anyHolds [spanningRange, wrappingRange] (Cell.nth 2 k) =
      !anyHolds [leadingGap, middleGap] (Cell.nth 2 k) := by decide +kernel
  exact c_eq ▸ each _ inside

theorem exists_written_gaps :
    (∃ bytes, Written allowedFormat true [spanningRange, wrappingRange] bytes) ∧
      ∃ bytes, Written smallFormat true [leadingGap, middleGap] bytes := by
  have session : (do
      let w ← Writer.create allowedFormat true
      (w.put [spanningRange, wrappingRange]).1
      (w.put [spanningRange, wrappingRange]).2.close.1) = .ok () := by decide +kernel
  have others_session : (do
      let w ← Writer.create smallFormat true
      (w.put [leadingGap, middleGap]).1
      (w.put [leadingGap, middleGap]).2.close.1) = .ok () := by decide +kernel
  constructor
  · obtain ⟨w, created, session⟩ := Outcome.bind_eq_ok.1 session
    obtain ⟨_, accepted, closed⟩ := Outcome.bind_eq_ok.1 session
    exact ⟨_, w, _, _, created, Prod.ext accepted rfl, Prod.ext closed rfl, rfl⟩
  · obtain ⟨w, created, others_session⟩ := Outcome.bind_eq_ok.1 others_session
    obtain ⟨_, accepted, closed⟩ := Outcome.bind_eq_ok.1 others_session
    exact ⟨_, w, _, _, created, Prod.ext accepted rfl, Prod.ext closed rfl, rfl⟩

/-- The ranges as an allowed list and the gaps as a disallowed list: cell 20 is decided alike, and
cell 40 has the value of its gap. -/
theorem decisions_of_written_small : ∃ (bytes othersBytes : ByteArray) (r s : Reader),
    Written allowedFormat true [spanningRange, wrappingRange] bytes ∧
    Written smallFormat true [leadingGap, middleGap] othersBytes ∧
    Reader.ofBytes "allowed" bytes Expected.nothing = .ok r ∧
    Reader.ofBytes "disallowed" othersBytes Expected.nothing = .ok s ∧
    (∃ d, ((r.after []).isAllowed (Cell.nth 2 20)).1 = .ok d ∧
      ((s.after []).isAllowed (Cell.nth 2 20)).1 = .ok d) ∧
    ((s.after []).valueAt (Cell.nth 2 40)).1 = .ok (some 4) := by
  obtain ⟨⟨bytes, written⟩, othersBytes, others_written⟩ := exists_written_gaps
  obtain ⟨r, s, opened, others_opened, answers⟩ := decisions_of_written
    (fun _ => Container.Frame.roundTrips) (by decide) (by decide) (by decide) written
    others_written "allowed" "disallowed"
  have open_eq := (Reader.ofBytes_ok opened).1
  have others_open := (Reader.ofBytes_ok others_opened).1
  refine ⟨bytes, othersBytes, r, s, written, others_written, opened, others_opened, ?_, ?_⟩
  · exact (answers [] [] open_eq others_open (Cell.nth 2 20) (by decide) (by decide)).1
      complementary_gaps
  · obtain ⟨-, -, -, valued⟩ :=
      answers [] [] open_eq others_open (Cell.nth 2 40) (by decide) (by decide)
    exact valued.value_eq (by decide) middleGap (by simp) (by decide)

end Geofence.RangeFile
