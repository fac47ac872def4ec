/-
# Geofence.Proofs.Partition.Tables -- all prefixes in a row

`Filled` is a run of the partition over consecutive prefixes: one step collects
the ranges of a prefix and encodes its table.  A run loses no segment
(`Filled.segments_eq`), puts each into the table of its prefix
(`Filled.inPrefix`) and keeps them in order (`Filled.pairwise`).  A run that
comes to a prefix behind the last face has nothing left
(`Filled.toList_eq_nil`), so a partition that makes all tables leaves nothing
over (`tables_ok`), and one that is refused has not made all of them
(`tables_refused`).
-/
import Geofence.Proofs.Partition.Order

namespace Geofence.Partition

set_option autoImplicit false

/-- The tables of consecutive prefixes from `current` on, each with its ranges: what was pending
before, and what is pending after. -/
inductive Filled (f : Format) : Nat → Pending CellRange → List (List CellRange × List UInt8) →
    Pending CellRange → Prop where
  | nil (current : Nat) (pending : Pending CellRange) : Filled f current pending [] pending
  | cons {current : Nat} {pending next rest : Pending CellRange} {batch : List CellRange}
      {payload : List UInt8} {tables : List (List CellRange × List UInt8)}
      (collected : collect f current pending = .ok (batch, next))
      (encoded : encodeTable f current batch = .ok payload)
      (others : Filled f (current + 1) next tables rest) :
      Filled f current pending ((batch, payload) :: tables) rest

/-- Why a step of the partition is refused. -/
def StepRefused (f : Format) (current : Nat) (pending : Pending CellRange) (fault : Fault) : Prop :=
  collect f current pending = .error fault ∨
    ∃ batch next, collect f current pending = .ok (batch, next) ∧
      encodeTable f current batch = .error fault

variable {f : Format} {current : Nat} {pending rest : Pending CellRange}
  {tables : List (List CellRange × List UInt8)}

namespace Filled

theorem segments_eq (filled : Filled f current pending tables rest) :
    segmentsOf f pending.toList =
      (tables.flatMap Prod.fst).map CellRange.arc ++ segmentsOf f rest.toList := by
  induction filled with
  | nil => rfl
  | cons collected _ _ ih =>
      rw [(collect_spec collected).segments_eq, ih, List.flatMap_cons, List.map_append,
        List.append_assoc]

theorem atLevel_iff (filled : Filled f current pending tables rest) :
    (∀ r ∈ rest.toList, AtLevel f r) ↔ ∀ r ∈ pending.toList, AtLevel f r := by
  induction filled with
  | nil => rfl
  | cons collected _ _ ih => rw [ih, (collect_spec collected).atLevel_iff]

theorem inPrefix (filled : Filled f current pending tables rest) {i : Nat}
    (bound : i < tables.length) : ∀ r ∈ tables[i].1, InPrefix f (current + i) r := by
  induction filled generalizing i with
  | nil => simp at bound
  | cons collected _ _ ih =>
      cases i with
      | zero => exact (collect_spec collected).inPrefix
      | succ i =>
          rw [show ∀ n, n + (i + 1) = n + 1 + i by omega]
          exact ih (Nat.lt_of_succ_lt_succ bound)

theorem encoded (filled : Filled f current pending tables rest) {i : Nat}
    (bound : i < tables.length) :
    encodeTable f ((current + i : Nat) : Int) tables[i].1 = .ok tables[i].2 := by
  induction filled generalizing i with
  | nil => simp at bound
  | cons _ encoded _ ih =>
      cases i with
      | zero => exact encoded
      | succ i =>
          rw [show ∀ n, n + (i + 1) = n + 1 + i by omega]
          exact ih (Nat.lt_of_succ_lt_succ bound)

/-- Ranges in a table do not start before its prefix. -/
theorem le_first (filled : Filled f current pending tables rest) :
    ∀ r ∈ tables.flatMap Prod.fst, current * f.prefixCells ≤ r.arc.first := by
  induction filled with
  | nil => simp
  | @cons current _ _ _ batch _ _ collected _ _ ih =>
      intro r member
      rw [List.flatMap_cons, List.mem_append] at member
      rcases member with here | later
      · rw [← ((collect_spec collected).inPrefix r here).prefix_eq]
        exact Nat.div_mul_le_self _ _
      · exact (Nat.mul_le_mul_right _ (Nat.le_succ current)).trans (ih r later)

theorem pairwise (filled : Filled f current pending tables rest) :
    ((tables.flatMap Prod.fst).map CellRange.arc).Pairwise Arc.Before := by
  induction filled with
  | nil => exact List.Pairwise.nil
  | @cons current _ _ _ batch _ _ collected encoded others ih =>
      have inside := (collect_spec collected).inPrefix
      rw [List.flatMap_cons, List.map_append, List.pairwise_append]
      refine ⟨sorted_of_encodeTable inside encoded, ih, ?_⟩
      intro a here b later
      obtain ⟨r, r_here, rfl⟩ := List.mem_map.1 here
      obtain ⟨s, s_later, rfl⟩ := List.mem_map.1 later
      have past_le := (inside r r_here).past_le
      rw [Format.prefixEnd, (inside r r_here).prefix_eq] at past_le
      exact past_le.trans (others.le_first s s_later)

theorem toList_eq_nil_of_nil (filled : Filled f current pending tables rest)
    (empty : pending.toList = []) : rest.toList = [] := by
  induction filled with
  | nil => exact empty
  | cons collected _ _ ih => exact ih ((collect_spec collected).eq_nil_of_nil empty).2

/-- A run that comes to a prefix behind the last face has nothing left. -/
theorem toList_eq_nil (filled : Filled f current pending tables rest)
    (live : current ≤ livePrefixes f) (dead : livePrefixes f < current + tables.length) :
    rest.toList = [] := by
  induction filled with
  | nil current pending =>
      rw [List.length_nil] at dead
      omega
  | @cons current _ _ _ _ _ _ collected _ others ih =>
      rw [List.length_cons] at dead
      by_cases last : current = livePrefixes f
      · exact others.toList_eq_nil_of_nil (toList_eq_nil_of_collect last.ge collected).2.2
      · exact ih (by omega) (by omega)

/-- If all is in order, what is left starts behind the prefixes passed. -/
theorem passed (filled : Filled f current pending tables rest)
    (sorted : (segmentsOf f pending.toList).Pairwise Arc.Before)
    (ahead : ∀ a ∈ segmentsOf f pending.toList, current ≤ a.first / f.prefixCells) :
    ∀ a ∈ segmentsOf f rest.toList, current + tables.length ≤ a.first / f.prefixCells := by
  induction filled with
  | nil => exact ahead
  | @cons current _ _ _ _ _ tables collected _ _ ih =>
      have step := collect_spec collected
      have beyond := step.passed sorted
      rw [step.segments_eq] at sorted
      rw [List.length_cons, show current + (tables.length + 1) = current + 1 + tables.length by omega]
      exact ih (List.pairwise_append.1 sorted).2.1 beyond

end Filled

/-- Nothing can be refused where nothing is left. -/
theorem not_stepRefused_of_nil {fault : Fault} (empty : pending.toList = []) :
    ¬StepRefused f current pending fault := by
  rintro (uncollected | ⟨batch, next, collected, unencoded⟩)
  · rcases collect_refused uncollected with ⟨r, member, -⟩ | ⟨-, a, member, -⟩
    · simp [empty] at member
    · simp [empty, segmentsOf_nil] at member
  · rw [((collect_spec collected).eq_nil_of_nil empty).1] at unencoded
    cases unencoded

/-- A run that ends with a refusal made no table just when the first step was refused. -/
theorem Filled.eq_nil_iff {fault : Fault} (filled : Filled f current pending tables rest)
    (refused : StepRefused f (current + tables.length) rest fault) :
    tables = [] ↔ StepRefused f current pending fault := by
  cases filled with
  | nil => exact iff_of_true rfl refused
  | cons collected encoded _ =>
      refine iff_of_false (List.cons_ne_nil _ _) ?_
      rintro (uncollected | ⟨batch, next, again, unencoded⟩)
      · rw [collected] at uncollected
        cases uncollected
      · rw [collected] at again
        obtain ⟨rfl, rfl⟩ := Prod.mk.inj (Except.ok.inj again)
        rw [encoded] at unencoded
        cases unencoded

/-! ## Filling -/

variable {count : Nat} {before made : Array (List UInt8)}

theorem fill_ok (filled : fill f count current pending before = (made, .ok rest)) :
    ∃ tables : List (List CellRange × List UInt8), tables.length = count ∧
      made = before ++ (tables.map Prod.snd).toArray ∧ Filled f current pending tables rest := by
  induction count generalizing current pending before with
  | zero =>
      obtain ⟨rfl, same⟩ := Prod.mk.inj filled
      obtain rfl := Except.ok.inj same
      exact ⟨[], rfl, by simp, .nil current pending⟩
  | succ count ih =>
      simp only [fill] at filled
      split at filled
      · cases filled
      · rename_i payload next step
        obtain ⟨⟨batch, left⟩, collected, encoding⟩ := Outcome.bind_eq_ok.1 step
        obtain ⟨bytes, encoded, last⟩ := Outcome.bind_eq_ok.1 encoding
        obtain ⟨rfl, rfl⟩ := Prod.mk.inj (Except.ok.inj last)
        obtain ⟨tables, length_eq, made_eq, others⟩ := ih filled
        refine ⟨(batch, bytes) :: tables, by rw [List.length_cons, length_eq], ?_,
          .cons collected encoded others⟩
        rw [made_eq]
        simp

/-- Filling follows a run. -/
theorem Filled.fill_eq (filled : Filled f current pending tables rest)
    (before : Array (List UInt8)) : fill f tables.length current pending before =
      (before ++ (tables.map Prod.snd).toArray, .ok rest) := by
  induction filled generalizing before with
  | nil => simp [fill]
  | @cons current _ _ _ _ payload tables collected encoded _ ih =>
      rw [List.length_cons, fill, collected, Outcome.ok_bind]
      simp only [encoded, Outcome.ok_bind, Outcome.pure_eq_ok]
      rw [ih, List.map_cons]
      simp

theorem fill_refused {fault : Fault}
    (refused : fill f count current pending before = (made, .error fault)) :
    ∃ (tables : List (List CellRange × List UInt8)) (left : Pending CellRange),
      tables.length < count ∧ made = before ++ (tables.map Prod.snd).toArray ∧
      Filled f current pending tables left ∧ StepRefused f (current + tables.length) left fault := by
  induction count generalizing current pending before with
  | zero => cases (Prod.mk.inj refused).2
  | succ count ih =>
      simp only [fill] at refused
      split at refused
      · rename_i cause step
        obtain ⟨rfl, same⟩ := Prod.mk.inj refused
        obtain rfl := Except.error.inj same
        refine ⟨[], pending, by simp, by simp, .nil current pending, ?_⟩
        rcases Outcome.bind_eq_error.1 step with uncollected | ⟨⟨batch, next⟩, collected, encoding⟩
        · exact Or.inl uncollected
        · rcases Outcome.bind_eq_error.1 encoding with unencoded | ⟨_, _, impossible⟩
          · exact Or.inr ⟨batch, next, collected, unencoded⟩
          · cases impossible
      · rename_i payload next step
        obtain ⟨⟨batch, _⟩, collected, encoding⟩ := Outcome.bind_eq_ok.1 step
        obtain ⟨bytes, encoded, last⟩ := Outcome.bind_eq_ok.1 encoding
        obtain ⟨rfl, rfl⟩ := Prod.mk.inj (Except.ok.inj last)
        obtain ⟨tables, left, shorter, made_eq, filled, why⟩ := ih refused
        refine ⟨(batch, bytes) :: tables, left, by simpa using shorter, ?_,
          .cons collected encoded filled, ?_⟩
        · rw [made_eq]
          simp
        · rwa [List.length_cons, show current + (tables.length + 1) = current + 1 + tables.length by
            omega]

/-- Tables for all prefixes, each with the ranges it was made of. -/
structure TablesOf (f : Format) (ranges : List CellRange)
    (tables : List (List CellRange × List UInt8)) : Prop where
  length_eq : tables.length = f.tableCount
  atLevel : ∀ r ∈ ranges, AtLevel f r
  segments_eq : segmentsOf f ranges = (tables.flatMap Prod.fst).map CellRange.arc
  sorted : (segmentsOf f ranges).Pairwise Arc.Before
  inPrefix : ∀ (p : Nat) (bound : p < tables.length), ∀ r ∈ tables[p].1, InPrefix f p r
  encoded : ∀ (p : Nat) (bound : p < tables.length), encodeTable f p tables[p].1 = .ok tables[p].2

variable {ranges : List CellRange}

theorem Filled.tablesOf (filled : Filled f 0 (.ofList ranges) tables rest)
    (all : tables.length = f.tableCount) : rest.toList = [] ∧ TablesOf f ranges tables := by
  have dead := f.livePrefixes_lt_tableCount
  have empty := filled.toList_eq_nil (Nat.zero_le _) (by omega)
  have segments_eq := filled.segments_eq
  rw [empty, segmentsOf_nil, List.append_nil, Pending.toList_ofList] at segments_eq
  refine ⟨empty, all, ?_, segments_eq, ?_, ?_, ?_⟩
  · refine filled.atLevel_iff.1 ?_
    rw [empty]
    simp
  · rw [segments_eq]
    exact filled.pairwise
  · intro p bound
    have placed := filled.inPrefix bound
    rwa [Nat.zero_add] at placed
  · intro p bound
    have encoded := filled.encoded bound
    rwa [Nat.zero_add] at encoded

/-- Filling the tables of all prefixes leaves nothing. -/
theorem toList_eq_nil_of_fill
    (filled : fill f f.tableCount 0 (.ofList ranges) #[] = (made, .ok rest)) :
    made.size = f.tableCount ∧ rest.toList = [] := by
  obtain ⟨tables, length_eq, made_eq, run⟩ := fill_ok filled
  refine ⟨?_, (run.tablesOf length_eq).1⟩
  rw [made_eq, Array.empty_append, List.size_toArray, List.length_map, length_eq]

theorem tables_eq_fill : Partition.tables f ranges =
    ((fill f f.tableCount 0 (.ofList ranges) #[]).1,
      (fill f f.tableCount 0 (.ofList ranges) #[]).2.map fun _ => ()) := by
  unfold Partition.tables
  split
  · rename_i made fault filled
    rw [filled]
    rfl
  · rename_i made pending filled
    rw [Pending.hasNext_of_toList_eq_nil (toList_eq_nil_of_fill filled).2, filled]
    rfl

/-- A partition that goes through is a run over all prefixes. -/
theorem exists_filled_of_tables_ok (done : Partition.tables f ranges = (made, .ok ())) :
    ∃ (tables : List (List CellRange × List UInt8)) (rest : Pending CellRange),
      tables.length = f.tableCount ∧ made = (tables.map Prod.snd).toArray ∧
      Filled f 0 (.ofList ranges) tables rest := by
  rw [tables_eq_fill] at done
  obtain ⟨made_eq, went_through⟩ := Prod.mk.inj done
  cases filled : (fill f f.tableCount 0 (.ofList ranges) #[]).2 with
  | error fault =>
      rw [filled] at went_through
      cases went_through
  | ok rest =>
      obtain ⟨tables, length_eq, tables_eq, run⟩ := fill_ok (Prod.ext made_eq filled)
      exact ⟨tables, rest, length_eq, by simpa using tables_eq, run⟩

/-- A run over all prefixes is a partition that goes through. -/
theorem tables_eq_of_filled (filled : Filled f 0 (.ofList ranges) tables rest)
    (all : tables.length = f.tableCount) :
    Partition.tables f ranges = ((tables.map Prod.snd).toArray, .ok ()) := by
  have made := filled.fill_eq #[]
  rw [all, Array.empty_append] at made
  rw [tables_eq_fill, made]
  rfl

theorem tables_ok (done : Partition.tables f ranges = (made, .ok ())) :
    ∃ tables : List (List CellRange × List UInt8),
      made = (tables.map Prod.snd).toArray ∧ TablesOf f ranges tables := by
  obtain ⟨tables, rest, length_eq, made_eq, run⟩ := exists_filled_of_tables_ok done
  exact ⟨tables, made_eq, (run.tablesOf length_eq).2⟩

/-- A partition that is refused has made the tables of the prefixes before the fault. -/
theorem tables_refused {fault : Fault} (refused : Partition.tables f ranges = (made, .error fault)) :
    ∃ (tables : List (List CellRange × List UInt8)) (left : Pending CellRange),
      tables.length < f.tableCount ∧ made = (tables.map Prod.snd).toArray ∧
      Filled f 0 (.ofList ranges) tables left ∧ StepRefused f tables.length left fault := by
  rw [tables_eq_fill] at refused
  obtain ⟨made_eq, went_wrong⟩ := Prod.mk.inj refused
  cases filled : (fill f f.tableCount 0 (.ofList ranges) #[]).2 with
  | ok rest =>
      rw [filled] at went_wrong
      cases went_wrong
  | error cause =>
      rw [filled] at went_wrong
      obtain rfl := Except.error.inj went_wrong
      obtain ⟨tables, left, shorter, tables_eq, run, why⟩ := fill_refused (Prod.ext made_eq filled)
      rw [Nat.zero_add] at why
      exact ⟨tables, left, shorter, by simpa using tables_eq, run, why⟩

theorem tables_nil (f : Format) : ∃ made, Partition.tables f [] = (made, .ok ()) := by
  cases partition : Partition.tables f [] with
  | mk made result =>
      cases result with
      | ok u => exact ⟨made, rfl⟩
      | error fault =>
          obtain ⟨_, left, -, -, filled, why⟩ := tables_refused partition
          have empty : left.toList = [] :=
            filled.toList_eq_nil_of_nil (Pending.toList_ofList [])
          exact absurd why (not_stepRefused_of_nil empty)

end Geofence.Partition
