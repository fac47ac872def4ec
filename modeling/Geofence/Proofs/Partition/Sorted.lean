/-
# Geofence.Proofs.Partition.Sorted -- which ranges are accepted

In formats whose numbers fit four bytes, ranges at the level of the format whose
values have room are refused only for their order: the partition goes through
for exactly those of which each ends before the next starts
(`tables_ok_iff_sorted`).  The partition itself never compares ranges of
different prefixes; that nothing out of order slips through is `Filled.passed`
and `Filled.pairwise`.
-/
import Geofence.Proofs.Partition.Stored
import Geofence.Proofs.Partition.Tables

namespace Geofence.Partition

set_option autoImplicit false

variable {f : Format} {ranges : List CellRange} {made : Array (List UInt8)} {fault : Fault}

/-- Each range ends before the next starts, or where it starts. -/
def Sorted (ranges : List CellRange) : Prop :=
  ranges.IsChain fun r s => r.stopKey ≤ s.start

instance (ranges : List CellRange) : Decidable (Sorted ranges) :=
  inferInstanceAs (Decidable (List.IsChain _ _))

theorem sorted_iff_arcs (atLevel : ∀ r ∈ ranges, AtLevel f r) :
    Sorted ranges ↔ (ranges.map CellRange.arc).Pairwise Arc.Before := by
  rw [← Arc.isChain_iff_pairwise (nonempty_of_atLevel atLevel), List.isChain_map, Sorted]
  constructor
  · intro chain
    exact chain.imp_of_mem_imp fun r s r_member s_member before =>
      (CellRange.stopKey_le_start_iff (atLevel r r_member) (atLevel s s_member)).1 before
  · intro chain
    exact chain.imp_of_mem_imp fun r s r_member s_member before =>
      (CellRange.stopKey_le_start_iff (atLevel r r_member) (atLevel s s_member)).2 before

theorem sorted_iff_segments (atLevel : ∀ r ∈ ranges, AtLevel f r) :
    Sorted ranges ↔ (segmentsOf f ranges).Pairwise Arc.Before := by
  have same : segmentsOf f ranges =
      (ranges.map CellRange.arc).flatMap (Arc.cut f.prefixEnd) := by
    rw [List.flatMap_map]
    rfl
  rw [same, Arc.pairwise_flatMap_cut (nonempty_of_atLevel atLevel), sorted_iff_arcs atLevel]

theorem value_of_mem_segmentsOf {a : Arc} (member : a ∈ segmentsOf f ranges) :
    ∃ r ∈ ranges, a.value = r.value := by
  obtain ⟨r, r_member, part⟩ := List.mem_flatMap.1 member
  exact ⟨r, r_member, Arc.value_of_mem_cut part⟩

theorem contract_of_refused (prefixBits_le : f.prefixBits ≤ 32) (suffixBits_le : f.suffixBits ≤ 28)
    (atLevel : ∀ r ∈ ranges, AtLevel f r)
    (fitting : 0 < f.valueSize → ∀ r ∈ ranges, r.value ≤ f.greatestValue)
    (refused : Partition.tables f ranges = (made, .error fault)) :
    fault.kind = .contract ∧ ¬Sorted ranges := by
  obtain ⟨tables, left, shorter, -, filled, why⟩ := tables_refused refused
  have left_atLevel := filled.atLevel_iff.2 atLevel
  have all := filled.segments_eq
  rw [Pending.toList_ofList] at all
  rw [sorted_iff_segments atLevel]
  rcases why with uncollected | ⟨batch, next, collected, unencoded⟩
  · rcases collect_refused uncollected with ⟨r, member, other, -⟩ | ⟨⟨p, span, rfl⟩, a, member, low⟩
    · exact absurd (left_atLevel r member) other
    · refine ⟨rfl, ?_⟩
      intro sorted
      have beyond := filled.passed sorted (fun _ _ => Nat.zero_le _) a member
      omega
  · have step := collect_spec collected
    rw [step.segments_eq] at all
    rcases encodeTable_refused step.inPrefix unencoded with
      ⟨⟨later, earlier, misplaced⟩, unsorted⟩ | ⟨batch_sorted, -⟩
    · refine ⟨by rcases misplaced with rfl | rfl <;> rfl, fun sorted => unsorted ?_⟩
      rw [all] at sorted
      exact (List.pairwise_append.1 (List.pairwise_append.1 sorted).2.1).1
    · -- in order and with room for all values, the batch would have become a table
      have prefix_lt : tables.length < 2 ^ 32 :=
        shorter.trans_le (Nat.pow_le_pow_right (by omega) prefixBits_le)
      have batch_fitting : 0 < f.valueSize → ∀ r ∈ batch, r.value ≤ f.greatestValue := by
        intro room r member
        have among : r.arc ∈ segmentsOf f ranges := by
          rw [all]
          exact List.mem_append_right _ (List.mem_append_left _ (List.mem_map_of_mem member))
        obtain ⟨s, s_member, value_eq⟩ := value_of_mem_segmentsOf among
        rw [CellRange.arc_value] at value_eq
        rw [value_eq]
        exact fitting room s s_member
      obtain ⟨payload, encoded⟩ :=
        exists_encodeTable step.inPrefix batch_sorted prefix_lt suffixBits_le batch_fitting
      rw [encoded] at unencoded
      contradiction

theorem sorted_of_tables_ok (done : Partition.tables f ranges = (made, .ok ())) :
    Sorted ranges := by
  obtain ⟨tables, -, held⟩ := tables_ok done
  exact (sorted_iff_segments held.atLevel).2 held.sorted

/-- The partition goes through for sorted ranges, and refuses all others for their order. -/
theorem tables_ok_iff_sorted (prefixBits_le : f.prefixBits ≤ 32) (suffixBits_le : f.suffixBits ≤ 28)
    (atLevel : ∀ r ∈ ranges, AtLevel f r)
    (fitting : 0 < f.valueSize → ∀ r ∈ ranges, r.value ≤ f.greatestValue) :
    ((Partition.tables f ranges).2 = .ok () ↔ Sorted ranges) ∧
      (¬Sorted ranges → ∃ fault, (Partition.tables f ranges).2 = .error fault ∧
        fault.kind = .contract) := by
  cases partition : Partition.tables f ranges with
  | mk made result =>
      cases result with
      | ok u =>
          have sorted := sorted_of_tables_ok partition
          exact ⟨iff_of_true rfl sorted, fun unsorted => absurd sorted unsorted⟩
      | error fault =>
          obtain ⟨kind_eq, unsorted⟩ :=
            contract_of_refused prefixBits_le suffixBits_le atLevel fitting partition
          exact ⟨iff_of_false (by simp) unsorted, fun _ => ⟨fault, rfl, kind_eq⟩⟩

end Geofence.Partition
