/-
# Geofence.Proofs.RangeFile.Drained -- nothing is left over

When the tables of all prefixes have been made, the partition looks whether a
range is still pending, and would refuse it then.  It never comes to that: there
are prefixes behind the last face, no range starts in them, and a step at such a
prefix finds nothing pending or is refused (`Partition.toList_eq_nil_of_collect`).

So what a writer refuses, it refuses at a step, before all tables have been made
(`Writer.refused_at_step`).  A step is refused for the level of a range, for the
order, for a value without room or for a number that does not fit its field
(`Partition.StepRefused.ne_leftOver`).
-/
import Geofence.Proofs.RangeFile.Refused

namespace Geofence

set_option autoImplicit false

theorem Partition.StepRefused.ne_leftOver {f : Format} {current : Nat} {pending : Pending CellRange}
    {fault : Fault} (refused : StepRefused f current pending fault) (span : Span) :
    fault ≠ .leftOver span := by
  rcases refused with uncollected | ⟨batch, next, collected, unencoded⟩
  · rcases collect_refused uncollected with ⟨r, -, -, rfl⟩ | ⟨⟨found, other, rfl⟩, -⟩
    · nofun
    · nofun
  · have inside := (collect_spec collected).inPrefix
    rcases encodeTable_refused_cases inside unencoded with ⟨later, earlier, rfl | rfl⟩ | other_kind
    · nofun
    · nofun
    · rintro rfl
      simp [Fault.kind] at other_kind

namespace RangeFile

open Geofence.Partition (StepRefused fill)

variable {w v : Writer} {ranges : List CellRange} {fault : Fault}

/-- A writer with tables refuses all ranges and stays as it is. Without tables, it refuses ranges at
the first prefix whose table it has not made. -/
theorem Writer.refused_at_step (refused : w.put ranges = (.error fault, v)) :
    (w.tables ≠ #[] ∧ fault = .alreadyCreated ∧ v = w) ∨
      v.tables.size < w.format.tableCount ∧
        ∃ left, StepRefused w.format v.tables.size left fault := by
  by_cases no_tables : w.tables = #[]
  · obtain ⟨-, tables, left, shorter, made_eq, -, why⟩ :=
      Writer.exists_filled_of_put_refused no_tables refused
    have size_eq : v.tables.size = tables.length := by
      rw [made_eq, List.size_toArray, List.length_map]
    rw [← size_eq] at shorter why
    exact Or.inr ⟨shorter, left, why⟩
  · rw [Writer.put, if_pos (by simpa using no_tables)] at refused
    obtain ⟨fault_eq, rfl⟩ := Prod.mk.inj refused
    exact Or.inl ⟨no_tables, (Except.error.inj fault_eq).symm, rfl⟩

/-- Whatever the ranges are, once the tables of all prefixes are made nothing is pending. So the
fault for ranges left over never arises, and no ranges are refused after all tables have been made
of them. -/
theorem nothing_left_over (w : Writer) (ranges : List CellRange) :
    (∀ made rest,
      fill w.format w.format.tableCount 0 (.ofList ranges) #[] = (made, .ok rest) →
        made.size = 2 ^ w.format.prefixBits ∧ rest.toList = [] ∧ rest.hasNext = (false, rest)) ∧
    (∀ span, (w.put ranges).1 ≠ .error (.leftOver span)) ∧
    ∀ fault v, w.put ranges = (.error fault, v) →
      (w.tables ≠ #[] ∧ fault = .alreadyCreated ∧ v = w) ∨
        v.tables.size < 2 ^ w.format.prefixBits := by
  refine ⟨?_, ?_, ?_⟩
  · intro made rest filled
    obtain ⟨size_eq, empty⟩ := Partition.toList_eq_nil_of_fill filled
    exact ⟨size_eq, empty, Pending.hasNext_of_toList_eq_nil empty⟩
  · intro span refused
    rcases Writer.refused_at_step (Prod.ext refused rfl) with
      ⟨-, other, -⟩ | ⟨-, left, why⟩
    · contradiction
    · exact why.ne_leftOver span rfl
  · intro fault v refused
    rcases Writer.refused_at_step refused with with_tables | ⟨shorter, -⟩
    · exact Or.inl with_tables
    · exact Or.inr shorter

/-- A range over three prefixes and one up to the end of the last face: behind them come two more
prefixes, and nothing is left. The first of the two, twice in a row, is refused before all eight
tables are made. -/
theorem nothing_left_over_small :
    (∃ made rest, fill smallFormat smallFormat.tableCount 0
        (.ofList [spanningRange, wrappingRange]) #[] = (made, .ok rest) ∧
      made.size = 2 ^ smallFormat.prefixBits ∧ rest.toList = []) ∧
    ∃ (w v : Writer) (fault : Fault), Writer.create smallFormat true = .ok w ∧
      w.put [spanningRange, spanningRange] = (.error fault, v) ∧
      v.tables.size < 2 ^ smallFormat.prefixBits := by
  obtain ⟨w, v, fault, created, refused, -⟩ := exists_refused_later_small
  obtain ⟨ready, no_tables⟩ := Writer.create_ok created
  have nothing_left := nothing_left_over w
  rw [ready.format_eq] at nothing_left
  constructor
  · cases filled : fill smallFormat smallFormat.tableCount 0
        (.ofList [spanningRange, wrappingRange]) #[] with
    | mk made result =>
        cases result with
        | error cause =>
            have goes_through : (fill smallFormat smallFormat.tableCount 0
              (.ofList [spanningRange, wrappingRange]) #[]).2.isOk = true := by decide +kernel
            rw [filled] at goes_through
            contradiction
        | ok rest =>
            obtain ⟨size_eq, empty, -⟩ := (nothing_left _).1 made rest filled
            exact ⟨made, rest, rfl, size_eq, empty⟩
  · refine ⟨w, v, fault, created, refused, ?_⟩
    rcases (nothing_left _).2.2 fault v refused with ⟨with_tables, -⟩ | shorter
    · exact absurd no_tables with_tables
    · exact shorter

end RangeFile

end Geofence
