/-
# Geofence.Proofs.CellList.Normal -- what a cell list says at one level

At a level a cell stands for the cells inside it or for the one around it, by
number (`numbers`).  A list whose cells are valid is never refused
(`normalize_eq`), and what comes out is in strict order, with a cell just when
some entry stands for it, and with the value of the first entry that does
(`mem_normalForm`).
-/
import Geofence.CellList.Normal
import Geofence.Proofs.Cell.Walk
import Geofence.Proofs.Outcome

namespace Geofence.CellList

set_option autoImplicit false

/-! ## One entry -/

/-- The numbers, at a level, of the cells that a cell stands for. -/
def numbers (l : Nat) (c : Cell) : List Nat :=
  let m := (Cell.depth c).toNat
  if m ≤ l then (List.range (4 ^ (l - m))).map fun i => Cell.index c * 4 ^ (l - m) + i
  else [Cell.index c / 4 ^ (m - l)]

def expansion (l : Nat) (entries : List Listed) : List Listed :=
  entries.flatMap fun x => (numbers l x.cell).map fun k => { x with cell := Cell.nth l k }

variable {l : Nat} {c : Cell} {x y : Listed} {xs entries listed : List Listed}

theorem numbers_nth {m j : Nat} (deep : m ≤ 30) : numbers l (Cell.nth m j) =
    if m ≤ l then (List.range (4 ^ (l - m))).map fun i => j * 4 ^ (l - m) + i
    else [j / 4 ^ (m - l)] := by
  unfold numbers
  rw [Cell.depth_nth deep, Cell.index_nth deep, Int.toNat_natCast]

theorem lt_count_of_mem_numbers (valid : Cell.isValid c = true) {k : Nat}
    (member : k ∈ numbers l c) : k < Cell.count l := by
  obtain ⟨m, j, deep, inside, rfl⟩ := Cell.exists_nth_of_isValid valid
  rw [numbers_nth deep] at member
  split at member
  · rename_i shallower
    exact Cell.lt_count_of_mem_childNumbers shallower inside member
  · rename_i deeper
    rw [List.mem_singleton.1 member, Nat.div_lt_iff_lt_mul (by positivity),
      ← Cell.count_eq_mul (not_le.1 deeper).le]
    exact inside

theorem atLevel_eq (deep : l ≤ 30) (valid : Cell.isValid c = true) :
    atLevel c l = .ok ((numbers l c).map (Cell.nth l)) := by
  obtain ⟨m, j, m_deep, inside, rfl⟩ := Cell.exists_nth_of_isValid valid
  rw [atLevel, Cell.validate, if_pos valid, Outcome.ok_bind, Cell.depth_nth m_deep,
    numbers_nth m_deep]
  rcases lt_trichotomy m l with shallower | rfl | deeper
  · rw [if_neg (by omega), if_pos (by omega), if_pos shallower.le, children,
      Cell.firstChild_nth deep shallower.le, Outcome.ok_bind, Cell.depth_nth m_deep,
      show ((l : Int) - m).toNat = l - m by omega, List.map_map]
    have each (i : Nat) : Cell.nth l (j * 4 ^ (l - m)) + i * (2 * Cell.unit l) =
        Cell.nth l (j * 4 ^ (l - m) + i) := by
      unfold Cell.nth
      push_cast
      ring
    simp only [each]
    rfl
  · rw [if_pos rfl, if_pos le_rfl]
    simp
    rfl
  · rw [if_neg (by omega), if_neg (by omega), if_neg (by omega),
      Cell.ancestor_nth m_deep deeper.le]
    rfl

theorem isValid_of_atLevel {level : Int} {cells : List Cell} (made : atLevel c level = .ok cells) :
    Cell.isValid c = true := by
  obtain ⟨_, valid, -⟩ := Outcome.bind_eq_ok.1 made
  unfold Cell.validate at valid
  split at valid
  · assumption
  · contradiction

theorem mapM_expand_eq (deep : l ≤ 30) (valid : ∀ x ∈ entries, Cell.isValid x.cell = true) :
    ∃ parts, entries.mapM (expand l) = .ok parts ∧ parts.flatten = expansion l entries := by
  induction entries with
  | nil => exact ⟨[], rfl, rfl⟩
  | cons x entries ih =>
      obtain ⟨own, others⟩ := List.forall_mem_cons.1 valid
      obtain ⟨parts, made, parts_eq⟩ := ih others
      refine ⟨(numbers l x.cell).map (fun k => { x with cell := Cell.nth l k }) :: parts, ?_, ?_⟩
      · rw [List.mapM_cons, made, expand, atLevel_eq deep own, Outcome.ok_bind, List.map_map]
        rfl
      · rw [List.flatten_cons, parts_eq]
        rfl

/-! ## Order -/

/-- A list in order with the first entry for every cell. -/
def normalForm (xs : List Listed) : List Listed :=
  firstOfEach (xs.mergeSort fun x y => x.cell ≤ y.cell)

theorem cell_le_trans (x y z : Listed) (first : decide (x.cell ≤ y.cell) = true)
    (second : decide (y.cell ≤ z.cell) = true) : decide (x.cell ≤ z.cell) = true :=
  decide_eq_true ((of_decide_eq_true first).trans (of_decide_eq_true second))

theorem cell_le_total (x y : Listed) :
    (decide (x.cell ≤ y.cell) || decide (y.cell ≤ x.cell)) = true := by
  rw [Bool.or_eq_true, decide_eq_true_eq, decide_eq_true_eq]
  exact le_total _ _

/-- In a list in strict order, entries for the least cell stand in front. -/
theorem dropWhile_eq_filter (ascending : xs.Pairwise fun x y => x.cell < y.cell)
    (least : ∀ y ∈ xs, c ≤ y.cell) :
    xs.dropWhile (fun y => y.cell == c) = xs.filter fun y => y.cell != c := by
  induction xs with
  | nil => rfl
  | cons z xs ih =>
      obtain ⟨before, later⟩ := List.pairwise_cons.1 ascending
      obtain ⟨own, others⟩ := List.forall_mem_cons.1 least
      by_cases same : z.cell = c
      · rw [List.dropWhile_cons_of_pos (by simpa using same),
          List.filter_cons_of_neg (by simpa using same), ih later others]
      · have beyond : ∀ y ∈ xs, y.cell ≠ c := fun y member => (own.trans_lt (before y member)).ne'
        rw [List.dropWhile_cons_of_neg (by simpa using same),
          List.filter_cons_of_pos (by simpa using same),
          List.filter_eq_self.2 fun y member => by simpa using beyond y member]

/-- Of a list in order the first entry for every cell remains, in strict order. -/
theorem firstOfEach_spec (sorted : xs.Pairwise fun x y => x.cell ≤ y.cell) :
    ((firstOfEach xs).Pairwise fun x y => x.cell < y.cell) ∧
      ∀ y, y ∈ firstOfEach xs ↔ xs.find? (fun x => x.cell == y.cell) = some y := by
  induction xs with
  | nil => exact ⟨.nil, by simp [firstOfEach]⟩
  | cons x xs ih =>
      obtain ⟨least, later⟩ := List.pairwise_cons.1 sorted
      obtain ⟨ascending, mem_iff⟩ := ih later
      have among : ∀ y ∈ firstOfEach xs, x.cell ≤ y.cell := fun y member =>
        least y (List.mem_of_find?_eq_some ((mem_iff y).1 member))
      have step : firstOfEach (x :: xs) =
          x :: (firstOfEach xs).filter fun y => y.cell != x.cell := by
        rw [← dropWhile_eq_filter ascending among]
        rfl
      rw [step]
      constructor
      · refine List.pairwise_cons.2 ⟨?_, ascending.filter _⟩
        intro y member
        obtain ⟨held, other⟩ := List.mem_filter.1 member
        exact lt_of_le_of_ne (among y held) (bne_iff_ne.1 other).symm
      · intro y
        rw [List.mem_cons, List.mem_filter, mem_iff, List.find?_cons]
        by_cases same : x.cell = y.cell
        · rw [beq_iff_eq.2 same]
          constructor
          · rintro (rfl | ⟨-, other⟩)
            · rfl
            · exact absurd same.symm (bne_iff_ne.1 other)
          · intro found
            exact Or.inl (Option.some.inj found).symm
        · have distinct : y ≠ x := fun eq => same (by rw [eq])
          rw [beq_eq_false_iff_ne.2 same, bne_iff_ne.2 (Ne.symm same)]
          simp only [distinct, and_true, false_or]

/-- Sorting keeps the order of the entries for one cell. -/
theorem filter_mergeSort (xs : List Listed) (c : Cell) :
    (xs.mergeSort fun x y => x.cell ≤ y.cell).filter (fun x => x.cell == c) =
      xs.filter fun x => x.cell == c := by
  have alike : (xs.filter fun x => x.cell == c).Pairwise
      fun x y => decide (x.cell ≤ y.cell) = true := by
    refine List.pairwise_of_forall_mem_list ?_
    intro x x_member y y_member
    have x_eq := (List.mem_filter.1 x_member).2
    have y_eq := (List.mem_filter.1 y_member).2
    simp only [beq_iff_eq] at x_eq y_eq
    simp [x_eq, y_eq]
  have sorted : (xs.filter fun x => x.cell == c).Sublist
      (xs.mergeSort fun x y => x.cell ≤ y.cell) :=
    List.sublist_mergeSort cell_le_trans cell_le_total alike List.filter_sublist
  have part := sorted.filter fun x => x.cell == c
  rw [List.filter_filter] at part
  simp only [Bool.and_self] at part
  have count_eq := ((List.mergeSort_perm xs fun x y => x.cell ≤ y.cell).filter
    fun x => x.cell == c).length_eq
  exact (part.eq_of_length count_eq.symm).symm

theorem sorted_mergeSort (xs : List Listed) :
    (xs.mergeSort fun x y => x.cell ≤ y.cell).Pairwise fun x y => x.cell ≤ y.cell := by
  have sorted := List.pairwise_mergeSort cell_le_trans cell_le_total xs
  simpa using sorted

theorem ascending_normalForm (xs : List Listed) :
    (normalForm xs).Pairwise fun x y => x.cell < y.cell :=
  (firstOfEach_spec (sorted_mergeSort xs)).1

/-- The first entry for a cell decides its value. -/
theorem mem_normalForm : y ∈ normalForm xs ↔ xs.find? (fun x => x.cell == y.cell) = some y := by
  rw [normalForm, (firstOfEach_spec (sorted_mergeSort xs)).2, ← List.head?_filter,
    filter_mergeSort, List.head?_filter]

/-! ## The list -/

/-- A list of valid cells is never refused. -/
theorem normalize_eq (deep : l ≤ 30) (valid : ∀ x ∈ entries, Cell.isValid x.cell = true) :
    normalize l entries = .ok (normalForm (expansion l entries)) := by
  obtain ⟨parts, made, parts_eq⟩ := mapM_expand_eq deep valid
  rw [normalize, made, Outcome.ok_bind, parts_eq]
  rfl

theorem isValid_of_normalize {level : Int} (made : normalize level entries = .ok listed) :
    ∀ x ∈ entries, Cell.isValid x.cell = true := by
  obtain ⟨parts, expanded, -⟩ := Outcome.bind_eq_ok.1 made
  intro x member
  obtain ⟨_, own⟩ := Outcome.exists_of_mapM_ok expanded member
  obtain ⟨_, cells_made, -⟩ := Outcome.bind_eq_ok.1 own
  exact isValid_of_atLevel cells_made

/-- A list at a level: its cells are those of the level, in strict order. -/
structure Normal (l : Nat) (listed : List Listed) : Prop where
  placed : ∀ y ∈ listed, ∃ k < Cell.count l, y.cell = Cell.nth l k
  ascending : listed.Pairwise fun x y => x.cell < y.cell
  value_nonneg : ∀ y ∈ listed, 0 ≤ y.value

theorem mem_expansion : y ∈ expansion l entries ↔
    ∃ x ∈ entries, ∃ k ∈ numbers l x.cell, { x with cell := Cell.nth l k } = y := by
  simp [expansion]

/-- What an entry stands for is in the list, with a value from the list. -/
theorem exists_mem_normalForm (member : x ∈ entries) {k : Nat} (stands : k ∈ numbers l x.cell) :
    ∃ y ∈ normalForm (expansion l entries), y.cell = Cell.nth l k := by
  have named : { x with cell := Cell.nth l k } ∈ expansion l entries :=
    mem_expansion.2 ⟨x, member, k, stands, rfl⟩
  have some_entry : ((expansion l entries).find? fun x => x.cell == Cell.nth l k).isSome = true :=
    List.find?_isSome.2 ⟨_, named, by simp⟩
  obtain ⟨y, found⟩ := Option.isSome_iff_exists.1 some_entry
  have cell_eq := List.find?_some found
  rw [beq_iff_eq] at cell_eq
  exact ⟨y, mem_normalForm.2 (by rwa [cell_eq]), cell_eq⟩

theorem exists_of_mem_normalForm (member : y ∈ normalForm (expansion l entries)) :
    ∃ x ∈ entries, ∃ k ∈ numbers l x.cell, { x with cell := Cell.nth l k } = y :=
  mem_expansion.1 (List.mem_of_find?_eq_some (mem_normalForm.1 member))

theorem normal_normalForm (valid : ∀ x ∈ entries, Cell.isValid x.cell = true)
    (nonneg : ∀ x ∈ entries, 0 ≤ x.value) : Normal l (normalForm (expansion l entries)) where
  placed := fun y member => by
    obtain ⟨x, x_member, k, stands, rfl⟩ := exists_of_mem_normalForm member
    exact ⟨k, lt_count_of_mem_numbers (valid x x_member) stands, rfl⟩
  ascending := ascending_normalForm _
  value_nonneg := fun y member => by
    obtain ⟨x, x_member, k, -, rfl⟩ := exists_of_mem_normalForm member
    exact nonneg x x_member

theorem normal_of_normalize (deep : l ≤ 30) (made : normalize l entries = .ok listed)
    (nonneg : ∀ x ∈ entries, 0 ≤ x.value) : Normal l listed := by
  have valid := isValid_of_normalize made
  rw [normalize_eq deep valid] at made
  obtain rfl := Except.ok.inj made
  exact normal_normalForm valid nonneg

end Geofence.CellList
