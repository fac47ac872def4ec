/-
# Geofence.Proofs.Partition.Collect -- one prefix at a time

Collecting the ranges of a prefix takes parts off the front of what is pending
and loses nothing: the segments of what was pending are the ranges collected,
followed by the segments of what is pending afterwards (`Collected`,
`collect_spec`).  So what is put back, and in which order, need not be looked at
again.

Collecting is refused for a range of another level, and for one that starts in a
prefix that has been passed (`collect_refused`), and for nothing else: cutting a
range never fails.
-/
import Geofence.Proofs.Partition.Cut

namespace Geofence.Partition

set_option autoImplicit false

variable (f : Format)

def segmentsOf (ranges : List CellRange) : List Arc :=
  ranges.flatMap fun r => segments f r.arc

structure InPrefix (current : Nat) (r : CellRange) : Prop where
  atLevel : AtLevel f r
  prefix_eq : r.arc.first / f.prefixCells = current
  past_le : r.arc.past ≤ f.prefixEnd r.arc.first

variable {f} {current : Nat} {pending rest : Pending CellRange} {batch : List CellRange}

theorem segmentsOf_nil : segmentsOf f [] = [] :=
  rfl

theorem segmentsOf_eq_nil_iff {ranges : List CellRange} : segmentsOf f ranges = [] ↔ ranges = [] := by
  rw [segmentsOf, List.flatMap_eq_nil_iff]
  constructor
  · intro none_left
    cases ranges with
    | nil => rfl
    | cons r rs => exact absurd (none_left r List.mem_cons_self) Arc.cut_ne_nil
  · rintro rfl
    simp

theorem segmentsOf_cons (r : CellRange) (ranges : List CellRange) :
    segmentsOf f (r :: ranges) = segments f r.arc ++ segmentsOf f ranges :=
  List.flatMap_cons

theorem segmentsOf_append (ranges others : List CellRange) :
    segmentsOf f (ranges ++ others) = segmentsOf f ranges ++ segmentsOf f others :=
  List.flatMap_append

theorem nonempty_of_mem_segmentsOf {ranges : List CellRange} (atLevel : ∀ r ∈ ranges, AtLevel f r) :
    ∀ a ∈ segmentsOf f ranges, a.first < a.past := by
  intro a member
  obtain ⟨r, r_member, part⟩ := List.mem_flatMap.1 member
  exact ((tiles_segments (r.fits_arc (atLevel r r_member)).first_lt_past).bounds part).2.1

theorem InPrefix.segments_eq {r : CellRange} (placed : InPrefix f current r) :
    segments f r.arc = [r.arc] :=
  Arc.cut_eq_self placed.past_le

theorem segments_of_mem {a b : Arc} (member : b ∈ segments f a) : segments f b = [b] :=
  Arc.cut_eq_self (Arc.past_le_next_of_mem_cut f.lt_prefixEnd member)

theorem segmentsOf_cutAtPrefixes {a : Arc} {ranges : List CellRange}
    (arcs : ranges.map CellRange.arc = segments f a) : segmentsOf f ranges = segments f a := by
  have single : ∀ r ∈ ranges, segments f r.arc = [r.arc] := fun r member =>
    segments_of_mem (arcs ▸ List.mem_map.2 ⟨r, member, rfl⟩)
  rw [segmentsOf, List.flatMap_congr single, ← arcs, List.map_eq_flatMap]

theorem prefixOf_start {r : CellRange} (placed : AtLevel f r) :
    f.prefixOf r.start = ((r.arc.first / f.prefixCells : Nat) : Int) := by
  rw [r.start_eq_nth placed, f.prefixOf_nth]

theorem prefixOf_stop_eq_iff {r : CellRange} (placed : AtLevel f r) :
    f.prefixOf r.stop = f.prefixOf r.start ↔ r.arc.past < f.prefixEnd r.arc.first := by
  rw [← f.prefixOf_stopAt_eq_iff (r.fits_arc placed), ← r.start_eq_nth placed,
    ← r.stop_eq_stopAt placed]

/-- A range that does not stop in its first prefix reaches the end of it. -/
theorem prefixEnd_le_past {r : CellRange} (placed : AtLevel f r)
    (outside : ¬f.prefixOf r.stop = f.prefixOf r.start) : f.prefixEnd r.arc.first ≤ r.arc.past :=
  not_lt.1 (mt (prefixOf_stop_eq_iff placed).2 outside)

/-- A range inside a prefix stops in the prefix of its cells, or on the first cell of the next. -/
theorem stop_near_of_past_le {r : CellRange} {k : Nat} (placed : AtLevel f r)
    (past_le : r.arc.past ≤ f.prefixEnd r.arc.first)
    (prefix_eq : k / f.prefixCells = r.arc.first / f.prefixCells) :
    f.prefixOf r.stop = f.prefixOf (Cell.nth f.level k) ∨
      f.cellPastPrefix (f.prefixOf (Cell.nth f.level k)) = .ok r.stop := by
  have fits := r.fits_arc placed
  have live := f.prefix_lt_livePrefixes (fits.first_lt_past.trans_le fits.past_le_count)
  rw [f.prefixOf_nth, prefix_eq, ← prefixOf_start placed]
  rcases past_le.lt_or_eq with below | last
  · exact Or.inl ((prefixOf_stop_eq_iff placed).2 below)
  · right
    rw [prefixOf_start placed, f.cellPastPrefix_eq live, r.stop_eq_stopAt placed, last]
    rfl

/-- The first segment of a range starts where the range starts. -/
theorem exists_segments_eq_cons {a : Arc} (nonempty : a.first < a.past) :
    ∃ b rest, segments f a = b :: rest ∧ b.first = a.first ∧ b.first < b.past := by
  have tiles := tiles_segments (f := f) nonempty
  cases parts : segments f a with
  | nil => exact absurd parts Arc.cut_ne_nil
  | cons b rest =>
      rw [parts] at tiles
      generalize a.first = first at tiles
      cases tiles with
      | cons _ inside _ => exact ⟨b, rest, rfl, rfl, inside⟩

theorem first_le_of_mem {a b : Arc} {arcs : List Arc} (nonempty : a.first < a.past)
    (sorted : (a :: arcs).Pairwise Arc.Before) (member : b ∈ a :: arcs) : a.first ≤ b.first := by
  rcases List.mem_cons.1 member with rfl | later
  · exact le_rfl
  · have before : a.past ≤ b.first := (List.pairwise_cons.1 sorted).1 b later
    exact nonempty.le.trans before

/-- What collecting the ranges of a prefix has done. -/
structure Collected (f : Format) (current : Nat) (pending : Pending CellRange)
    (batch : List CellRange) (rest : Pending CellRange) : Prop where
  inPrefix : ∀ r ∈ batch, InPrefix f current r
  segments_eq : segmentsOf f pending.toList = batch.map CellRange.arc ++ segmentsOf f rest.toList
  atLevel_iff : (∀ r ∈ rest.toList, AtLevel f r) ↔ ∀ r ∈ pending.toList, AtLevel f r
  reached : ∀ r rs, pending.toList = r :: rs → AtLevel f r ∧ current ≤ r.arc.first / f.prefixCells
  /-- If all is in order, what is left starts in later prefixes. -/
  passed : (segmentsOf f pending.toList).Pairwise Arc.Before →
    ∀ a ∈ segmentsOf f rest.toList, current < a.first / f.prefixCells

namespace Collected

variable {r : CellRange} {later : Pending CellRange}

theorem nothing (empty : pending.toList = []) : Collected f current pending [] pending :=
  ⟨by simp, by simp, Iff.rfl, by simp [empty], by simp [empty, segmentsOf]⟩

/-- The first range starts in a later prefix and is put back. -/
theorem wait (same : pending.toList = r :: later.toList) (atLevel : AtLevel f r)
    (beyond : current < r.arc.first / f.prefixCells) :
    Collected f current pending [] (later.putBack r) := by
  rw [← Pending.toList_putBack] at same
  refine ⟨by simp, by simp [same], by rw [same], ?_, ?_⟩
  · intro s rs head
    rw [same, Pending.toList_putBack, List.cons.injEq] at head
    exact head.1 ▸ ⟨atLevel, beyond.le⟩
  · intro sorted a member
    rw [same, Pending.toList_putBack, segmentsOf_cons] at sorted
    rw [Pending.toList_putBack, segmentsOf_cons] at member
    obtain ⟨b, others, parts, first_eq, nonempty⟩ :=
      exists_segments_eq_cons (f := f) (r.fits_arc atLevel).first_lt_past
    rw [parts, List.cons_append] at sorted member
    have lower := first_le_of_mem nonempty sorted member
    rw [first_eq] at lower
    exact beyond.trans_le (Nat.div_le_div_right lower)

/-- The first range lies inside the prefix and is taken. -/
theorem take (same : pending.toList = r :: later.toList) (inPrefix : InPrefix f current r)
    (step : Collected f current later batch rest) :
    Collected f current pending (r :: batch) rest := by
  refine ⟨List.forall_mem_cons.2 ⟨inPrefix, step.inPrefix⟩, ?_, ?_, ?_, ?_⟩
  · rw [same, segmentsOf_cons, inPrefix.segments_eq, step.segments_eq]
    rfl
  · rw [step.atLevel_iff, same, List.forall_mem_cons]
    exact ⟨fun all => ⟨inPrefix.atLevel, all⟩, fun all => all.2⟩
  · intro s rs head
    rw [same, List.cons.injEq] at head
    exact head.1 ▸ ⟨inPrefix.atLevel, inPrefix.prefix_eq.ge⟩
  · intro sorted
    rw [same, segmentsOf_cons, inPrefix.segments_eq] at sorted
    exact step.passed (List.pairwise_cons.1 sorted).2

/-- The first range runs into later prefixes: its first part is taken, the others are put back. -/
theorem cut {head : CellRange} {others : List CellRange} (same : pending.toList = r :: later.toList)
    (atLevel : AtLevel f r) (prefix_eq : r.arc.first / f.prefixCells = current)
    (long : f.prefixEnd r.arc.first ≤ r.arc.past) (parts : cutAtPrefixes f r = .ok (head, others)) :
    Collected f current pending [head] (others.foldr (fun piece q => q.putBack piece) later) := by
  obtain ⟨_, _, again, cut_atLevel, cut_arcs⟩ := cutAtPrefixes_eq atLevel long
  obtain ⟨rfl, rfl⟩ := Prod.mk.inj (Except.ok.inj (parts.symm.trans again))
  have head_arc : head.arc = { r.arc with past := f.prefixEnd r.arc.first } := by
    rw [segments_of_long long, List.map_cons] at cut_arcs
    exact (List.cons.inj cut_arcs).1
  have inPrefix : InPrefix f current head := by
    refine ⟨cut_atLevel head List.mem_cons_self, ?_, ?_⟩
    · rwa [head_arc]
    · rw [head_arc]
  have pending_eq : segmentsOf f pending.toList =
      head.arc :: segmentsOf f (others.foldr (fun piece q => q.putBack piece) later).toList := by
    rw [same, segmentsOf_cons, ← segmentsOf_cutAtPrefixes cut_arcs, segmentsOf_cons,
      inPrefix.segments_eq, Pending.toList_foldr_putBack, segmentsOf_append]
    rfl
  refine ⟨by simpa using inPrefix, pending_eq, ?_, ?_, ?_⟩
  · rw [Pending.toList_foldr_putBack, same, List.forall_mem_append, List.forall_mem_cons]
    exact ⟨fun all => ⟨atLevel, all.2⟩,
      fun all => ⟨fun s member => cut_atLevel s (List.mem_cons_of_mem _ member), all.2⟩⟩
  · intro s rs first
    rw [same, List.cons.injEq] at first
    exact first.1 ▸ ⟨atLevel, prefix_eq.ge⟩
  · intro sorted a member
    rw [pending_eq] at sorted
    have before : head.arc.past ≤ a.first := (List.pairwise_cons.1 sorted).1 a member
    rw [head_arc] at before
    have passed := (Nat.le_div_iff_mul_le f.prefixCells_pos).2 before
    omega

theorem eq_nil_of_nil (step : Collected f current pending batch rest)
    (empty : pending.toList = []) : batch = [] ∧ rest.toList = [] := by
  have segments_eq := step.segments_eq
  rw [empty, segmentsOf_nil, List.nil_eq, List.append_eq_nil_iff, List.map_eq_nil_iff,
    segmentsOf_eq_nil_iff] at segments_eq
  exact segments_eq

end Collected

theorem collect_spec (collected : collect f current pending = .ok (batch, rest)) :
    Collected f current pending batch rest := by
  fun_induction collect f current pending generalizing batch rest with
  | case1 pending none_left =>
      obtain ⟨rfl, rfl⟩ := Prod.mk.inj (Except.ok.inj collected)
      exact .nothing (Pending.toList_of_next?_eq_none none_left)
  | case2 => contradiction
  | case3 => contradiction
  | case4 pending r later taken placed p not_before =>
      rename_i different
      obtain ⟨rfl, rfl⟩ := Prod.mk.inj (Except.ok.inj collected)
      have atLevel : AtLevel f r := not_not.1 placed
      have prefix_eq := prefixOf_start atLevel
      exact .wait (Pending.toList_of_next?_eq_some taken) atLevel (by omega)
  | case5 pending r later taken placed p not_before here inside =>
      rename_i ih
      obtain ⟨⟨more, last⟩, others, made⟩ := Outcome.bind_eq_ok.1 collected
      obtain ⟨rfl, rfl⟩ := Prod.mk.inj (Except.ok.inj made)
      have atLevel : AtLevel f r := not_not.1 placed
      have prefix_eq := prefixOf_start atLevel
      have past_lt := (prefixOf_stop_eq_iff atLevel).1 inside
      exact .take (Pending.toList_of_next?_eq_some taken) ⟨atLevel, by omega, past_lt.le⟩ (ih others)
  | case6 pending r later taken placed p not_before here =>
      rename_i outside
      obtain ⟨⟨head, others⟩, parts, made⟩ := Outcome.bind_eq_ok.1 collected
      obtain ⟨rfl, rfl⟩ := Prod.mk.inj (Except.ok.inj made)
      have atLevel : AtLevel f r := not_not.1 placed
      have prefix_eq := prefixOf_start atLevel
      have long := prefixEnd_le_past atLevel outside
      exact .cut (Pending.toList_of_next?_eq_some taken) atLevel (by omega) long parts

/-- Why collecting is refused: a range of another level, or a prefix that has been passed. -/
theorem collect_refused {fault : Fault} (refused : collect f current pending = .error fault) :
    (∃ r ∈ pending.toList, ¬AtLevel f r ∧ fault = .rangeOfOtherLevel r.toSpan f.level) ∨
      (∃ found span, fault = .prefixOutOfOrder current found span) ∧
        ∃ a ∈ segmentsOf f pending.toList, a.first / f.prefixCells < current := by
  fun_induction collect f current pending with
  | case1 => contradiction
  | case2 pending r later taken placed =>
      refine Or.inl ⟨r, ?_, placed, (Except.error.inj refused).symm⟩
      rw [Pending.toList_of_next?_eq_some taken]
      exact List.mem_cons_self
  | case3 pending r later taken placed p =>
      rename_i before
      have atLevel : AtLevel f r := not_not.1 placed
      have prefix_eq := prefixOf_start atLevel
      obtain ⟨b, others, parts, first_eq, -⟩ :=
        exists_segments_eq_cons (f := f) (r.fits_arc atLevel).first_lt_past
      refine Or.inr ⟨⟨p, r.toSpan, (Except.error.inj refused).symm⟩, b, ?_, ?_⟩
      · rw [Pending.toList_of_next?_eq_some taken, segmentsOf_cons, parts]
        exact List.mem_append_left _ List.mem_cons_self
      · rw [first_eq]
        omega
  | case4 => contradiction
  | case5 pending r later taken placed p not_before here inside =>
      rename_i ih
      have same := Pending.toList_of_next?_eq_some taken
      rcases Outcome.bind_eq_error.1 refused with fault_eq | ⟨x, -, impossible⟩
      · rcases ih fault_eq with ⟨s, member, other⟩ | ⟨out_of_order, a, member, low⟩
        · exact Or.inl ⟨s, same ▸ List.mem_cons_of_mem _ member, other⟩
        · refine Or.inr ⟨out_of_order, a, ?_, low⟩
          rw [same, segmentsOf_cons]
          exact List.mem_append_right _ member
      · contradiction
  | case6 pending r later taken placed p not_before here =>
      rename_i outside
      have atLevel : AtLevel f r := not_not.1 placed
      obtain ⟨head, others, cut, -⟩ :=
        cutAtPrefixes_eq atLevel (prefixEnd_le_past atLevel outside)
      rw [cut] at refused
      contradiction

/-- Prefixes behind the last face: there is nothing to collect, or collecting is refused. -/
theorem toList_eq_nil_of_collect (dead : livePrefixes f ≤ current)
    (collected : collect f current pending = .ok (batch, rest)) :
    pending.toList = [] ∧ batch = [] ∧ rest.toList = [] := by
  have spec := collect_spec collected
  have empty : pending.toList = [] := by
    cases items : pending.toList with
    | nil => rfl
    | cons r rs =>
        obtain ⟨atLevel, reached⟩ := spec.reached r rs items
        have fits := r.fits_arc atLevel
        have live := f.prefix_lt_livePrefixes (fits.first_lt_past.trans_le fits.past_le_count)
        omega
  exact ⟨empty, spec.eq_nil_of_nil empty⟩

end Geofence.Partition
