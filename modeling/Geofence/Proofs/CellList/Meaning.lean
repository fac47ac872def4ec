/-
# Geofence.Proofs.CellList.Meaning -- what bringing a list to one level means

An entry speaks of a cell of the level if it is for that cell, for a cell around
it or for a cell inside it (`SpeaksOf`).  The list at the level holds every cell
of the level that some entry speaks of, with the value of the first entry that
does, in strict order (`normalize_spec`).  So it is at the level already, and
bringing it there again changes nothing.

Coarser cells are taken apart by walking over the cells inside, which always
ends (`Cell.passes_children`).  A list with something else than a cell in it is
refused.
-/
import Geofence.Proofs.Cell.Passage
import Geofence.Proofs.CellList.Normal

namespace Geofence.CellList

set_option autoImplicit false

/-- What an entry for `x` says, it says of the cell `c` of the level: `x` is `c`, or is around `c`,
or is inside `c`. -/
def SpeaksOf (l : Nat) (x c : Cell) : Prop :=
  x = c ∨ Cell.ancestor c (Cell.depth x) = .ok x ∨ Cell.ancestor x l = .ok c

instance (l : Nat) (x c : Cell) : Decidable (SpeaksOf l x c) :=
  inferInstanceAs (Decidable (_ ∨ _ ∨ _))

variable {l m j k : Nat} {c : Cell} {x y : Listed} {xs entries listed : List Listed}

/-! ## Which cells an entry speaks of -/

theorem mem_numbers_nth (deep : m ≤ 30) : k ∈ numbers l (Cell.nth m j) ↔
    if m ≤ l then k / 4 ^ (l - m) = j else j / 4 ^ (m - l) = k := by
  rw [numbers_nth deep]
  split
  · exact Cell.mem_childNumbers
  · rw [List.mem_singleton, eq_comm]

/-- The cell behind the middle of a cell is inside it. -/
theorem behind_middle_div (deeper : m < l) :
    (j * 4 ^ (l - m) + 2 * 4 ^ (l - m - 1)) / 4 ^ (l - m) = j := by
  have some_cells : 0 < 4 ^ (l - m - 1) := by positivity
  have quarters : 4 ^ (l - m) = 4 * 4 ^ (l - m - 1) :=
    (mul_pow_sub_one (Nat.sub_ne_zero_of_lt deeper) 4).symm
  rw [Nat.mul_comm, Nat.mul_add_div (by omega), Nat.div_eq_of_lt (by omega), Nat.add_zero]

theorem nth_ne_nth_of_lt (deep : l ≤ 30) (shallower : m < l) : Cell.nth m j ≠ Cell.nth l k := by
  intro same
  have depth_eq := congrArg Cell.depth same
  rw [Cell.depth_nth (shallower.le.trans deep), Cell.depth_nth deep, Nat.cast_inj] at depth_eq
  omega

theorem speaksOf_nth (deep : l ≤ 30) (m_deep : m ≤ 30) :
    SpeaksOf l (Cell.nth m j) (Cell.nth l k) ↔
      if m ≤ l then k / 4 ^ (l - m) = j else j / 4 ^ (m - l) = k := by
  rw [SpeaksOf, Cell.depth_nth m_deep]
  rcases lt_trichotomy m l with shallower | rfl | deeper
  · rw [if_pos shallower.le, Cell.ancestor_nth deep shallower.le,
      Cell.ancestor_nth_of_lt deep shallower, Except.ok.injEq, Except.ok.injEq, Cell.nth_inj,
      Cell.nth_inj]
    constructor
    · rintro (same | around | behind)
      · exact absurd same (nth_ne_nth_of_lt deep shallower)
      · exact around
      · rw [← behind, behind_middle_div shallower]
    · intro around
      exact Or.inr (Or.inl around)
  · rw [if_pos le_rfl, Cell.ancestor_nth deep le_rfl, Cell.ancestor_nth deep le_rfl,
      Except.ok.injEq, Except.ok.injEq, Cell.nth_inj, Cell.nth_inj, Cell.nth_inj, Nat.sub_self,
      pow_zero, Nat.div_one, Nat.div_one]
    constructor
    · rintro (same | around | inside)
      · exact same.symm
      · exact around
      · exact inside.symm
    · intro same
      exact Or.inl same.symm
  · rw [if_neg (not_le.2 deeper), Cell.ancestor_nth m_deep deeper.le,
      Cell.ancestor_nth_of_lt m_deep deeper, Except.ok.injEq, Except.ok.injEq, Cell.nth_inj,
      Cell.nth_inj]
    constructor
    · rintro (same | behind | inside)
      · exact absurd same.symm (nth_ne_nth_of_lt m_deep deeper)
      · rw [← behind, behind_middle_div deeper]
      · exact inside
    · intro inside
      exact Or.inr (Or.inr inside)

/-- The cells that a cell stands for are those that an entry for it speaks of. -/
theorem mem_numbers_iff (deep : l ≤ 30) (valid : Cell.isValid c = true) :
    k ∈ numbers l c ↔ SpeaksOf l c (Cell.nth l k) := by
  obtain ⟨m, j, m_deep, -, rfl⟩ := Cell.exists_nth_of_isValid valid
  rw [mem_numbers_nth m_deep, speaksOf_nth deep m_deep]

/-- The first entry for a cell of the level comes from the first entry that speaks of it. -/
theorem find?_expansion (deep : l ≤ 30) (valid : ∀ x ∈ entries, Cell.isValid x.cell = true) :
    (expansion l entries).find? (fun x => x.cell == Cell.nth l k) =
      (entries.find? fun x => SpeaksOf l x.cell (Cell.nth l k)).map
        fun x => { x with cell := Cell.nth l k } := by
  induction entries with
  | nil => rfl
  | cons x entries ih =>
      obtain ⟨own, others⟩ := List.forall_mem_cons.1 valid
      have first_part : expansion l (x :: entries) =
          (numbers l x.cell).map (fun i => { x with cell := Cell.nth l i }) ++
            expansion l entries := rfl
      rw [first_part, List.find?_append, List.find?_map, ih others, List.find?_cons]
      have named : (numbers l x.cell).find?
          ((fun y : Listed => y.cell == Cell.nth l k) ∘ fun i => { x with cell := Cell.nth l i }) =
            if k ∈ numbers l x.cell then some k else none := by
        have only : ((fun y : Listed => y.cell == Cell.nth l k) ∘
            fun i => { x with cell := Cell.nth l i }) = fun i => i == k := by
          funext i
          rw [Bool.eq_iff_iff, beq_iff_eq]
          exact beq_iff_eq.trans Cell.nth_inj
        rw [only]
        cases found : (numbers l x.cell).find? fun i => i == k with
        | none =>
            rw [if_neg fun member => List.find?_eq_none.1 found k member (beq_self_eq_true k)]
        | some i =>
            have same := List.find?_some found
            rw [beq_iff_eq] at same
            subst same
            rw [if_pos (List.mem_of_find?_eq_some found)]
      rw [named]
      by_cases speaks : SpeaksOf l x.cell (Cell.nth l k)
      · rw [if_pos ((mem_numbers_iff deep own).2 speaks), decide_eq_true speaks]
        rfl
      · rw [if_neg (mt (mem_numbers_iff deep own).1 speaks), decide_eq_false speaks]
        rfl

/-- The list at the level by its members. -/
theorem mem_normalForm_expansion (deep : l ≤ 30)
    (valid : ∀ x ∈ entries, Cell.isValid x.cell = true) : y ∈ normalForm (expansion l entries) ↔
      (Cell.isValid y.cell = true ∧ Cell.depth y.cell = l) ∧
        (entries.find? fun x => SpeaksOf l x.cell y.cell).map Listed.value = some y.value := by
  constructor
  · intro member
    obtain ⟨x, x_member, k, stands, y_eq⟩ := exists_of_mem_normalForm member
    have cell_eq : y.cell = Cell.nth l k := by rw [← y_eq]
    have inside := lt_count_of_mem_numbers (valid x x_member) stands
    have first := mem_normalForm.1 member
    rw [cell_eq, find?_expansion deep valid] at first
    rw [cell_eq]
    refine ⟨⟨Cell.isValid_nth deep inside, Cell.depth_nth deep k⟩, ?_⟩
    obtain ⟨z, found, rfl⟩ := Option.map_eq_some_iff.1 first
    rw [found]
    rfl
  · rintro ⟨⟨own, placed⟩, value_eq⟩
    obtain ⟨-, -, cell_eq⟩ := Cell.nth_index own placed
    obtain ⟨z, found, z_value⟩ := Option.map_eq_some_iff.1 value_eq
    rw [mem_normalForm, ← cell_eq, find?_expansion deep valid, cell_eq, found, Option.map_some,
      z_value]

/-! ## The list at its own level -/

theorem firstOfEach_eq_self (ascending : xs.Pairwise fun x y => x.cell < y.cell) :
    firstOfEach xs = xs := by
  induction xs with
  | nil => rfl
  | cons x xs ih =>
      obtain ⟨before, later⟩ := List.pairwise_cons.1 ascending
      have step : firstOfEach (x :: xs) =
          x :: (firstOfEach xs).dropWhile fun y => y.cell == x.cell := rfl
      rw [step, ih later]
      cases xs with
      | nil => rfl
      | cons y xs =>
          have distinct : y.cell ≠ x.cell := (before y List.mem_cons_self).ne'
          rw [List.dropWhile_cons_of_neg (by simpa using distinct)]

theorem normalForm_eq_self (ascending : xs.Pairwise fun x y => x.cell < y.cell) :
    normalForm xs = xs := by
  have sorted : xs.Pairwise fun x y => decide (x.cell ≤ y.cell) = true :=
    ascending.imp fun less => decide_eq_true less.le
  rw [normalForm, List.mergeSort_of_pairwise sorted, firstOfEach_eq_self ascending]

theorem expansion_eq_self (deep : l ≤ 30)
    (placed : ∀ x ∈ xs, Cell.isValid x.cell = true ∧ Cell.depth x.cell = l) :
    expansion l xs = xs := by
  have each : ∀ x ∈ xs,
      (numbers l x.cell).map (fun k => { x with cell := Cell.nth l k }) = [x] := by
    intro x member
    obtain ⟨valid, depth_eq⟩ := placed x member
    obtain ⟨-, -, cell_eq⟩ := Cell.nth_index valid depth_eq
    have itself : numbers l x.cell = [Cell.index x.cell] := by
      rw [← cell_eq, numbers_nth deep, if_pos le_rfl, Nat.sub_self, Cell.index_nth deep]
      simp
    rw [itself, List.map_singleton, cell_eq]
  rw [expansion, List.flatMap_congr each, List.flatMap_singleton']

/-! ## Normalizing -/

/-- A cell that is coarser than the level is taken apart by a walk over the cells inside. -/
theorem passes_of_atLevel (deep : l ≤ 30) (valid : Cell.isValid c = true)
    (coarser : Cell.depth c < l) : ∃ start stop cells,
      Cell.firstChild c l = .ok start ∧ Cell.childrenEnd c l = .ok stop ∧
        Cell.Passes stop start cells ∧ atLevel c l = .ok cells := by
  rw [atLevel_eq deep valid]
  obtain ⟨m, j, m_deep, inside, rfl⟩ := Cell.exists_nth_of_isValid valid
  rw [Cell.depth_nth m_deep, Nat.cast_lt] at coarser
  refine ⟨_, _, _, Cell.firstChild_nth deep coarser.le,
    Cell.childrenEnd_nth deep coarser.le inside, Cell.passes_children deep coarser.le inside, ?_⟩
  rw [numbers_nth m_deep, if_pos coarser.le]
  rfl

theorem normalize_refused (deep : l ≤ 30) (invalid : ∃ x ∈ entries, Cell.isValid x.cell = false) :
    ∃ fault, normalize l entries = .error fault ∧ fault.kind = .argument := by
  cases made : normalize l entries with
  | ok listed =>
      obtain ⟨x, member, bad⟩ := invalid
      rw [isValid_of_normalize made x member] at bad
      contradiction
  | error fault =>
      refine ⟨fault, rfl, ?_⟩
      rcases Outcome.bind_eq_error.1 made with refused | ⟨_, -, done⟩
      · obtain ⟨x, -, own⟩ := Outcome.exists_of_mapM_error refused
        rcases Outcome.bind_eq_error.1 own with outside | ⟨_, -, done⟩
        · by_cases valid : Cell.isValid x.cell = true
          · rw [atLevel_eq deep valid] at outside
            contradiction
          · rw [atLevel, Cell.validate, if_neg valid] at outside
            obtain rfl := Except.error.inj outside
            rfl
        · contradiction
      · contradiction

/-- A list of cells at a level: all walks over the cells inside coarser ones end, and the list has
the cells of the level that entries speak of, each with the value of the first entry that does, in
strict order; at the level it stays as it is. A list with something else in it is refused. -/
theorem normalize_spec (deep : l ≤ 30) (entries : List Listed) :
    ((∀ x ∈ entries, Cell.isValid x.cell = true) →
      (∀ x ∈ entries, Cell.depth x.cell < l → ∃ start stop cells,
        Cell.firstChild x.cell l = .ok start ∧ Cell.childrenEnd x.cell l = .ok stop ∧
          Cell.Passes stop start cells ∧ atLevel x.cell l = .ok cells) ∧
      ∃ listed, normalize l entries = .ok listed ∧
        (listed.Pairwise fun x y => x.cell < y.cell) ∧
        (∀ y, y ∈ listed ↔ (Cell.isValid y.cell = true ∧ Cell.depth y.cell = l) ∧
          (entries.find? fun x => SpeaksOf l x.cell y.cell).map Listed.value = some y.value) ∧
        normalize l listed = .ok listed) ∧
    ((∃ x ∈ entries, Cell.isValid x.cell = false) →
      ∃ fault, normalize l entries = .error fault ∧ fault.kind = .argument) := by
  refine ⟨?_, normalize_refused deep⟩
  intro valid
  refine ⟨fun x member => passes_of_atLevel deep (valid x member), _, normalize_eq deep valid,
    ascending_normalForm _, fun y => mem_normalForm_expansion deep valid, ?_⟩
  have placed : ∀ y ∈ normalForm (expansion l entries),
      Cell.isValid y.cell = true ∧ Cell.depth y.cell = l :=
    fun y member => ((mem_normalForm_expansion deep valid).1 member).1
  rw [normalize_eq deep fun y member => (placed y member).1, expansion_eq_self deep placed,
    normalForm_eq_self (ascending_normalForm _)]

/-- A cell of level 2, the whole of face 5 around it, and a cell of level 1 and one inside it. -/
def mixedLevels : List Listed :=
  [{ cell := Cell.nth 2 95, value := 9 }, { cell := Cell.nth 0 5, value := 3 },
    { cell := Cell.nth 1 0, value := 4 }, { cell := Cell.nth 2 1, value := 8 }]

/-- At level 1 the last cell of face 5 has the value of the entry in front of the one for the face,
the cell before it that of the face, and the first of all cells that of its own first entry; the
walk over the face ends on that cell. With a zero behind it the list is refused. -/
theorem normalize_spec_mixedLevels :
    (∃ listed, normalize 1 mixedLevels = .ok listed ∧
      { cell := Cell.nth 1 23, value := 9 } ∈ listed ∧
      { cell := Cell.nth 1 22, value := 3 } ∈ listed ∧
      { cell := Cell.nth 1 0, value := 4 } ∈ listed ∧ normalize 1 listed = .ok listed) ∧
    ∃ start cells, Cell.firstChild (Cell.nth 0 5) 1 = .ok start ∧
      Cell.childrenEnd (Cell.nth 0 5) 1 = .ok (Cell.nth 1 0) ∧
      Cell.Passes (Cell.nth 1 0) start cells ∧
      ∃ fault, normalize 1 (mixedLevels ++ [{ cell := 0, value := 1 }]) = .error fault ∧
        fault.kind = .argument := by
  have valid : ∀ x ∈ mixedLevels, Cell.isValid x.cell = true := by decide +kernel
  obtain ⟨walks, listed, made, -, mem_iff, again⟩ :=
    (normalize_spec (show 1 ≤ 30 by decide) mixedLevels).1 valid
  obtain ⟨start, stop, cells, start_eq, stop_eq, passes, -⟩ :=
    walks { cell := Cell.nth 0 5, value := 3 } (by decide) (by decide +kernel)
  have wrapped : Cell.childrenEnd (Cell.nth 0 5) 1 = .ok (Cell.nth 1 0) := by decide +kernel
  obtain rfl := Except.ok.inj (wrapped.symm.trans stop_eq)
  have refused := (normalize_spec (show 1 ≤ 30 by decide)
    (mixedLevels ++ [{ cell := 0, value := 1 }])).2
      ⟨{ cell := 0, value := 1 }, by decide, by decide⟩
  refine ⟨⟨listed, made, ?_, ?_, ?_, again⟩, start, cells, start_eq, wrapped, passes, refused⟩
  · exact (mem_iff _).2 (by decide +kernel)
  · exact (mem_iff _).2 (by decide +kernel)
  · exact (mem_iff _).2 (by decide +kernel)

end Geofence.CellList
