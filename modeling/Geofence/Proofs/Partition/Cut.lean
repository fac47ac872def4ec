/-
# Geofence.Proofs.Partition.Cut -- what becomes of one range

`pieces` says how a range has to be cut: where a prefix ends, and then, from the
start of each part, after every `longest` cells.  The two steps of the partition
do just that: `cutAtPrefixes` makes the `segments` of a range
(`cutAtPrefixes_eq`) and `cutToRows` cuts a segment into rows (`cutToRows_eq`).
Neither is ever refused.
-/
import Geofence.Proofs.Cell.Walk
import Geofence.Proofs.Format.Grid
import Geofence.Proofs.Outcome

namespace Geofence.Partition

set_option autoImplicit false

variable (f : Format)

def AtLevel (r : CellRange) : Prop :=
  Cell.depth r.start = f.level

instance (r : CellRange) : Decidable (AtLevel f r) :=
  inferInstanceAs (Decidable (_ = _))

def segments (a : Arc) : List Arc :=
  a.cut f.prefixEnd

/-- The parts of a range that fit a row each: as many cells as a row can count, and the rest. -/
def rowsOf (a : Arc) : List Arc :=
  a.cut (· + f.longest)

/-- The parts of a range as a file stores them: by prefix, and by row inside a prefix. -/
def pieces (a : Arc) : List Arc :=
  (segments f a).flatMap (rowsOf f)

variable {f}

theorem tiles_segments {a : Arc} (nonempty : a.first < a.past) :
    Arc.Tiles a.first a.past (segments f a) :=
  Arc.tiles_cut nonempty

theorem tiles_rowsOf {a : Arc} (nonempty : a.first < a.past) :
    Arc.Tiles a.first a.past (rowsOf f a) :=
  Arc.tiles_cut nonempty

/-! ## By prefix -/

theorem fits_prefixArc {p : Nat} (live : p < livePrefixes f) {value : Int} (nonneg : 0 ≤ value) :
    Arc.Fits f.level ⟨p * f.prefixCells, (p + 1) * f.prefixCells, value⟩ :=
  f.fits_of_prefix live le_rfl
    (Nat.mul_lt_mul_of_pos_right (Nat.lt_succ_self p) f.prefixCells_pos) le_rfl nonneg

theorem wholePrefix_eq {p : Nat} (live : p < livePrefixes f) {value : Int} (nonneg : 0 ≤ value) :
    ∃ r, wholePrefix f value p = .ok r ∧ AtLevel f r ∧
      r.arc = ⟨p * f.prefixCells, (p + 1) * f.prefixCells, value⟩ := by
  obtain ⟨r, made, placed, arc_eq⟩ :=
    CellRange.exists_of_arc f.level_le (fits_prefixArc live nonneg)
  refine ⟨r, ?_, placed, arc_eq⟩
  have start_eq := f.cellOf_eq (f.livePrefix_le_greatestPrefix live) f.prefixCells_pos
  rw [wholePrefix, show (0 : Int) = ((0 : Nat) : Int) by rfl, start_eq, f.cellPastPrefix_eq live]
  exact made

/-- From the start of a prefix on, the parts of a range are whole prefixes, and what is left
behind the last of them. -/
theorem segments_of_mark {m past : Nat} (value : Int) (nonempty : m * f.prefixCells < past) :
    segments f ⟨m * f.prefixCells, past, value⟩ =
      ((List.range (past / f.prefixCells - m)).map fun i =>
        (⟨(m + i) * f.prefixCells, (m + i + 1) * f.prefixCells, value⟩ : Arc)) ++
      if past / f.prefixCells * f.prefixCells < past then
        [⟨past / f.prefixCells * f.prefixCells, past, value⟩] else [] := by
  have positive := f.prefixCells_pos
  have mark (i : Nat) : f.prefixEnd (i * f.prefixCells) = (i + 1) * f.prefixCells := by
    rw [Format.prefixEnd, Nat.mul_div_cancel _ positive]
  have lower : m ≤ past / f.prefixCells := (Nat.le_div_iff_mul_le positive).2 nonempty.le
  induction left : past / f.prefixCells - m generalizing m with
  | zero =>
      have last : past / f.prefixCells = m := by omega
      have short : past < (m + 1) * f.prefixCells := Nat.lt_mul_of_div_lt (by omega) positive
      rw [segments, Arc.cut_eq_self (by rw [mark]; exact short.le), last, if_pos nonempty]
      rfl
  | succ n ih =>
      have step : m * f.prefixCells < (m + 1) * f.prefixCells :=
        Nat.mul_lt_mul_of_pos_right (Nat.lt_succ_self m) positive
      have reached : (m + 1) * f.prefixCells ≤ past := (Nat.le_div_iff_mul_le positive).1 (by omega)
      rw [List.range_succ_eq_map, List.map_cons, List.map_map, Nat.add_zero, List.cons_append]
      rcases reached.lt_or_eq with before | at_end
      · have rest := ih before (by omega) (by omega)
        rw [segments] at rest ⊢
        rw [Arc.cut_eq_cons ⟨by rw [mark]; exact step, by rw [mark]; exact before⟩, mark, rest]
        congr 2
        apply List.map_congr_left
        intro i _
        simp only [Function.comp, Nat.succ_eq_add_one]
        rw [show m + 1 + i = m + (i + 1) by omega]
      · have whole : past / f.prefixCells = m + 1 := by
          rw [← at_end, Nat.mul_div_cancel _ positive]
        rw [segments, Arc.cut_eq_self (by rw [mark]; exact at_end.ge), whole,
          show n = 0 by omega, if_neg (by omega), ← at_end]
        rfl

/-- A range that runs past its prefix: the part in it, and the parts in later prefixes. -/
theorem segments_of_long {a : Arc} (long : f.prefixEnd a.first ≤ a.past) :
    segments f a =
      { a with past := f.prefixEnd a.first } ::
        (((List.range (a.past / f.prefixCells - a.first / f.prefixCells - 1)).map fun i =>
          (⟨(a.first / f.prefixCells + 1 + i) * f.prefixCells,
            (a.first / f.prefixCells + 1 + i + 1) * f.prefixCells, a.value⟩ : Arc)) ++
        if a.past / f.prefixCells * f.prefixCells < a.past then
          [⟨a.past / f.prefixCells * f.prefixCells, a.past, a.value⟩] else []) := by
  have positive := f.prefixCells_pos
  have mark : f.prefixEnd a.first = (a.first / f.prefixCells + 1) * f.prefixCells := rfl
  rcases long.lt_or_eq with beyond | at_end
  · have rest := segments_of_mark a.value (mark ▸ beyond)
    rw [segments] at rest ⊢
    rw [Arc.cut_eq_cons ⟨f.lt_prefixEnd _, beyond⟩, mark, rest, Nat.sub_sub]
  · have whole : a.past / f.prefixCells = a.first / f.prefixCells + 1 := by
      rw [← at_end, mark, Nat.mul_div_cancel _ positive]
    rw [segments, Arc.cut_eq_self at_end.ge, whole, Nat.add_sub_cancel_left, Nat.sub_self,
      if_neg (by rw [← at_end, mark]; exact lt_irrefl _), at_end]
    rfl

theorem past_div_le {a : Arc} (fits : a.Fits f.level) :
    a.past / f.prefixCells ≤ livePrefixes f := by
  apply Nat.div_le_of_le_mul
  rw [Nat.mul_comm, ← f.count_level]
  exact fits.past_le_count

theorem prefixesBetween_eq {a : Arc} (fits : a.Fits f.level)
    (long : f.prefixEnd a.first ≤ a.past) :
    prefixesBetween f (f.prefixOf (Cell.nth f.level a.first))
        (f.prefixOf (Cell.stopAt f.level a.past)) =
      (List.range (a.past / f.prefixCells - a.first / f.prefixCells - 1)).map fun i =>
        ((a.first / f.prefixCells + 1 + i : Nat) : Int) := by
  have positive := f.prefixCells_pos
  have upper := past_div_le fits
  have lower : a.first / f.prefixCells + 1 ≤ a.past / f.prefixCells :=
    (Nat.le_div_iff_mul_le positive).2 long
  -- a range to the end of face 5 stops in prefix 0, which here stands behind the last prefix
  have stop_eq : (if f.prefixOf (Cell.stopAt f.level a.past) = 0 then (livePrefixes f : Int)
      else f.prefixOf (Cell.stopAt f.level a.past)) = ((a.past / f.prefixCells : Nat) : Int) := by
    rw [f.prefixOf_stopAt]
    rcases upper.lt_or_eq with below | last
    · have started : a.past / f.prefixCells ≠ 0 := ((Nat.succ_pos _).trans_le lower).ne'
      rw [Nat.mod_eq_of_lt below, if_neg (by exact_mod_cast started)]
    · rw [last, Nat.mod_self]
      simp
  rw [prefixesBetween, stop_eq, f.prefixOf_nth]
  simp only [Nat.sub_sub]
  rw [show ((a.past / f.prefixCells : Nat) - ((a.first / f.prefixCells : Nat) : Int) - 1).toNat =
    a.past / f.prefixCells - (a.first / f.prefixCells + 1) by omega]
  apply List.map_congr_left
  intro i _
  push_cast
  ring

/-- The prefix of the end of a range starts where the last whole prefix of the range ends. -/
theorem tailStart_eq (f : Format) (past : Nat) :
    f.cellOf (f.prefixOf (Cell.stopAt f.level past)) 0 =
      .ok (Cell.stopAt f.level (past / f.prefixCells * f.prefixCells)) := by
  have some_live : 0 < livePrefixes f := by
    unfold livePrefixes
    positivity
  have live := f.livePrefix_le_greatestPrefix (Nat.mod_lt (past / f.prefixCells) some_live)
  rw [f.prefixOf_stopAt, show (0 : Int) = ((0 : Nat) : Int) by rfl,
    f.cellOf_eq live f.prefixCells_pos, Nat.add_zero, Cell.stopAt, f.count_level,
    Nat.mul_mod_mul_right]

theorem tail_eq {r : CellRange} (placed : AtLevel f r)
    (long : f.prefixEnd r.arc.first ≤ r.arc.past) :
    if r.arc.past / f.prefixCells * f.prefixCells < r.arc.past then
      ∃ s, Cell.stopAt f.level (r.arc.past / f.prefixCells * f.prefixCells) ≠ r.stop ∧
        CellRange.of (Cell.stopAt f.level (r.arc.past / f.prefixCells * f.prefixCells)) r.stop
          r.value = .ok s ∧ AtLevel f s ∧
        s.arc = ⟨r.arc.past / f.prefixCells * f.prefixCells, r.arc.past, r.value⟩
    else Cell.stopAt f.level (r.arc.past / f.prefixCells * f.prefixCells) = r.stop := by
  have fits := r.fits_arc placed
  have lower : f.prefixEnd r.arc.first ≤ r.arc.past / f.prefixCells * f.prefixCells :=
    Nat.mul_le_mul_right _ ((Nat.le_div_iff_mul_le f.prefixCells_pos).2 long)
  rw [r.stop_eq_stopAt placed]
  split
  · rename_i left
    have inside := left.trans_le fits.past_le_count
    have below : r.arc.past < Cell.count f.level := by
      rcases fits.past_le_count.lt_or_eq with below | all
      · exact below
      · rw [all, f.count_level, Nat.mul_div_cancel _ f.prefixCells_pos] at left
        exact absurd left (lt_irrefl _)
    obtain ⟨s, made, s_placed, s_arc⟩ := CellRange.exists_of_arc f.level_le
      (fits.of_bounds (b := ⟨r.arc.past / f.prefixCells * f.prefixCells, r.arc.past, r.value⟩)
        ((f.lt_prefixEnd _).le.trans lower) left le_rfl rfl)
    refine ⟨s, ?_, ?_, s_placed, s_arc⟩
    · rw [Cell.stopAt_of_lt inside, Cell.stopAt_of_lt below, Ne, Cell.nth_inj]
      exact left.ne
    · rw [Cell.stopAt_of_lt inside]
      exact made
  · rename_i whole
    rw [Nat.le_antisymm (Nat.div_mul_le_self _ _) (not_lt.1 whole)]

theorem head_eq {r : CellRange} (placed : AtLevel f r)
    (long : f.prefixEnd r.arc.first ≤ r.arc.past) :
    ∃ s, CellRange.of r.start (Cell.stopAt f.level (f.prefixEnd r.arc.first)) r.value = .ok s ∧
      AtLevel f s ∧ s.arc = { r.arc with past := f.prefixEnd r.arc.first } := by
  rw [r.start_eq_nth placed]
  exact CellRange.exists_of_arc f.level_le ((r.fits_arc placed).of_bounds
    (b := { r.arc with past := f.prefixEnd r.arc.first }) le_rfl (f.lt_prefixEnd _) long rfl)

theorem middle_eq {r : CellRange} (placed : AtLevel f r)
    (long : f.prefixEnd r.arc.first ≤ r.arc.past) :
    ∃ parts, (prefixesBetween f (f.prefixOf r.start) (f.prefixOf r.stop)).mapM
        (wholePrefix f r.value) = .ok parts ∧ (∀ s ∈ parts, AtLevel f s) ∧
      parts.map CellRange.arc =
        (List.range (r.arc.past / f.prefixCells - r.arc.first / f.prefixCells - 1)).map fun i =>
          (⟨(r.arc.first / f.prefixCells + 1 + i) * f.prefixCells,
            (r.arc.first / f.prefixCells + 1 + i + 1) * f.prefixCells, r.value⟩ : Arc) := by
  have fits := r.fits_arc placed
  have upper := past_div_le fits
  rw [r.start_eq_nth placed, r.stop_eq_stopAt placed, prefixesBetween_eq fits long, List.mapM_map]
  apply Outcome.exists_mapM_eq_ok
  intro i between
  rw [List.mem_range] at between
  exact wholePrefix_eq (by omega) r.value_nonneg

/-- Cutting a range that runs to the end of its prefix or further gives its segments. -/
theorem cutAtPrefixes_eq {r : CellRange} (placed : AtLevel f r)
    (long : f.prefixEnd r.arc.first ≤ r.arc.past) :
    ∃ head others, cutAtPrefixes f r = .ok (head, others) ∧
      (∀ s ∈ head :: others, AtLevel f s) ∧
      (head :: others).map CellRange.arc = segments f r.arc := by
  have fits := r.fits_arc placed
  have inside := fits.first_lt_past.trans_le fits.past_le_count
  have past_made : f.cellPastPrefix (f.prefixOf r.start) =
      .ok (Cell.stopAt f.level (f.prefixEnd r.arc.first)) := by
    rw [r.start_eq_nth placed, f.prefixOf_nth]
    exact f.cellPastPrefix_eq (f.prefix_lt_livePrefixes inside)
  obtain ⟨head, head_made, head_placed, head_arc⟩ := head_eq placed long
  obtain ⟨middle, middle_made, middle_placed, middle_arcs⟩ := middle_eq placed long
  have start_made : f.cellOf (f.prefixOf r.stop) 0 =
      .ok (Cell.stopAt f.level (r.arc.past / f.prefixCells * f.prefixCells)) := by
    rw [r.stop_eq_stopAt placed, tailStart_eq]
  have tail := tail_eq placed long
  rw [segments_of_long long]
  simp only [cutAtPrefixes, past_made, head_made, middle_made, start_made, Outcome.ok_bind]
  split at tail
  · rename_i left
    obtain ⟨last, different, tail_made, tail_placed, tail_arc⟩ := tail
    rw [if_pos different, tail_made, Outcome.ok_bind, if_pos left]
    refine ⟨head, middle ++ [last], rfl, ?_, ?_⟩
    · simp only [List.mem_cons, List.mem_append, List.not_mem_nil, or_false]
      rintro s (rfl | member | rfl)
      exacts [head_placed, middle_placed s member, tail_placed]
    · rw [List.map_cons, List.map_append, middle_arcs, head_arc, List.map_singleton, tail_arc]
      rfl
  · rename_i whole
    rw [if_neg (not_not.2 tail), if_neg whole]
    refine ⟨head, middle, rfl, ?_, ?_⟩
    · simp only [List.mem_cons]
      rintro s (rfl | member)
      exacts [head_placed, middle_placed s member]
    · rw [List.map_cons, middle_arcs, head_arc, List.append_nil]
      rfl

/-! ## By length -/

/-- The numbers of the first cells of the rows of a range. -/
def rowStarts (f : Format) (a : Arc) : List Nat :=
  (List.range ((a.length + f.longest - 1) / f.longest)).map fun i => a.first + i * f.longest

theorem rowStarts_eq_singleton {a : Arc} (nonempty : a.first < a.past)
    (short : a.past ≤ a.first + f.longest) : rowStarts f a = [a.first] := by
  have one : (a.length + f.longest - 1) / f.longest = 1 := by
    unfold Arc.length
    exact Nat.div_eq_of_lt_le (by omega) (by omega)
  simp [rowStarts, one]

theorem rowStarts_eq_cons {a : Arc} (long : a.first + f.longest < a.past) :
    rowStarts f a = a.first :: rowStarts f { a with first := a.first + f.longest } := by
  have positive := f.longest_pos
  have step : (a.length + f.longest - 1) / f.longest =
      (Arc.length { a with first := a.first + f.longest } + f.longest - 1) / f.longest + 1 := by
    unfold Arc.length
    dsimp only
    rw [← Nat.add_div_right _ positive]
    congr 1
    omega
  rw [rowStarts, step, List.range_succ_eq_map, List.map_cons, List.map_map, Nat.zero_mul,
    Nat.add_zero, rowStarts]
  congr 1
  apply List.map_congr_left
  intro i _
  simp only [Function.comp, Nat.succ_eq_add_one]
  ring

/-- The rows of a range run from start to start, and the last one to the end. -/
theorem rowsOf_eq_zip {a : Arc} (nonempty : a.first < a.past) :
    rowsOf f a = ((rowStarts f a).zip ((rowStarts f a).tail ++ [a.past])).map fun bounds =>
      (⟨bounds.1, bounds.2, a.value⟩ : Arc) := by
  have positive := f.longest_pos
  rw [rowsOf]
  fun_induction Arc.cut (· + f.longest) a with
  | case1 a marked ih =>
      have rest := ih marked.2
      rw [rowStarts_eq_cons marked.2, List.tail_cons, rest]
      cases starts : rowStarts f { a with first := a.first + f.longest } with
      | nil =>
          rw [starts] at rest
          exact absurd rest Arc.cut_ne_nil
      | cons k later =>
          have head_eq : k = a.first + f.longest := by
            by_cases short : a.past ≤ a.first + f.longest + f.longest
            · rw [rowStarts_eq_singleton marked.2 short] at starts
              exact (List.cons.inj starts).1.symm
            · rw [rowStarts_eq_cons (not_le.1 short)] at starts
              exact (List.cons.inj starts).1.symm
          subst head_eq
          rfl
  | case2 a whole =>
      rw [rowStarts_eq_singleton nonempty (by omega)]
      rfl

theorem mem_rowStarts_lt {a : Arc} {k : Nat} (nonempty : a.first < a.past)
    (member : k ∈ rowStarts f a) : k < a.past := by
  simp only [rowStarts, List.mem_map, List.mem_range] at member
  obtain ⟨i, below, rfl⟩ := member
  have reached := (Nat.le_div_iff_mul_le f.longest_pos).1 (Nat.succ_le_of_lt below)
  rw [Nat.succ_mul] at reached
  unfold Arc.length at reached
  omega

theorem advance_rowStarts {r : CellRange} (placed : AtLevel f r) :
    ((List.range ((r.arc.length + f.longest - 1) / f.longest)).map
      fun (i : Nat) => Cell.advance r.start (i * f.longest)) =
        (rowStarts f r.arc).map (Cell.nth f.level) := by
  have fits := r.fits_arc placed
  rw [rowStarts, List.map_map]
  apply List.map_congr_left
  intro i below
  have started := mem_rowStarts_lt fits.first_lt_past
    (List.mem_map.2 ⟨i, below, rfl⟩ : r.arc.first + i * f.longest ∈ rowStarts f r.arc)
  rw [Function.comp, ← Cell.advance_nth f.level_le (started.trans_le fits.past_le_count),
    r.start_eq_nth placed]
  push_cast
  rfl

theorem stopAt_rowStarts {r : CellRange} (placed : AtLevel f r) :
    ((rowStarts f r.arc).map (Cell.nth f.level)).tail ++ [r.stop] =
      ((rowStarts f r.arc).tail ++ [r.arc.past]).map (Cell.stopAt f.level) := by
  have fits := r.fits_arc placed
  rw [List.map_append, List.map_singleton, ← r.stop_eq_stopAt placed, ← List.map_tail]
  congr 1
  apply List.map_congr_left
  intro k member
  have started := mem_rowStarts_lt fits.first_lt_past (List.mem_of_mem_tail member)
  rw [Cell.stopAt_of_lt (started.trans_le fits.past_le_count)]

/-- Cutting a range inside a prefix gives rows that fit. -/
theorem cutToRows_eq {r : CellRange} (placed : AtLevel f r)
    (short : r.arc.past ≤ f.prefixEnd r.arc.first) :
    ∃ rows, cutToRows f r = .ok rows ∧ (∀ s ∈ rows, AtLevel f s) ∧
      rows.map CellRange.arc = rowsOf f r.arc := by
  have fits := r.fits_arc placed
  have zipped := rowsOf_eq_zip (f := f) fits.first_lt_past
  have length_eq : f.rangeLength r.start r.stop = .ok ((r.arc.length : Nat) : Int) := by
    rw [r.start_eq_nth placed, r.stop_eq_stopAt placed]
    exact f.rangeLength_eq fits short
  simp only [cutToRows, length_eq, Outcome.ok_bind, Int.toNat_natCast]
  rw [advance_rowStarts placed, stopAt_rowStarts placed, List.zip_map, List.mapM_map, zipped]
  apply Outcome.exists_mapM_eq_ok
  rintro ⟨first, past⟩ member
  have part : (⟨first, past, r.value⟩ : Arc) ∈ rowsOf f r.arc := by
    rw [zipped]
    exact List.mem_map.2 ⟨(first, past), member, rfl⟩
  obtain ⟨s, made, s_placed, s_arc⟩ :=
    CellRange.exists_of_arc f.level_le (fits.of_mem_cut part)
  exact ⟨s, made, s_placed, s_arc⟩

end Geofence.Partition
