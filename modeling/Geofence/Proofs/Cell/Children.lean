/-
# Geofence.Proofs.Cell.Children -- the cells inside a cell

The cells of a deeper level inside a cell are those that have the cell for an
ancestor (`mem_cellsInside`).  They are a run of numbers, so a walk that starts at
the first child and stops at the children's end passes all of them and nothing
else, each once and in the order of their ids (`children_walked`).  The end is
the first cell of all for the last cell of its level, and for no other.
-/
import Geofence.Proofs.Cell.Passage

namespace Geofence.Cell

set_option autoImplicit false

variable {c x : Cell} {l m j k : Nat}

/-- A cell is inside the cell of another level that is its ancestor there. -/
theorem mem_cellsInside (deep : l ≤ 30) (shallower : m ≤ l) (inside : j < count m) :
    x ∈ cellsInside l m j ↔ isValid x = true ∧ depth x = l ∧ ancestor x m = .ok (nth m j) := by
  rw [cellsInside, List.mem_map]
  constructor
  · rintro ⟨k, member, rfl⟩
    have below := lt_count_of_mem_childNumbers shallower inside member
    refine ⟨isValid_nth deep below, depth_nth deep k, ?_⟩
    rw [ancestor_nth deep shallower, mem_childNumbers.1 member]
  · rintro ⟨valid, placed, around⟩
    obtain ⟨-, -, numbered⟩ := nth_index valid placed
    rw [← numbered, ancestor_nth deep shallower, Except.ok.injEq, nth_inj] at around
    exact ⟨index x, mem_childNumbers.2 around, numbered⟩

theorem length_cellsInside (l m j : Nat) : (cellsInside l m j).length = 4 ^ (l - m) := by
  rw [cellsInside, childNumbers, List.length_map, List.length_map, List.length_range]

theorem ascending_cellsInside (l m j : Nat) : (cellsInside l m j).Pairwise (· < ·) := by
  rw [cellsInside, childNumbers, List.map_map, List.pairwise_map]
  refine List.pairwise_lt_range.imp fun less => nth_lt_nth.2 ?_
  exact Nat.add_lt_add_left less _

/-! ## The last cell of a level -/

theorem greatest_nth_iff (deep : m ≤ 30) (inside : j < count m) :
    (∀ d, isValid d = true → depth d = m → d ≤ nth m j) ↔ j + 1 = count m := by
  constructor
  · intro greatest
    by_contra more
    have next_inside : j + 1 < count m := by omega
    have le := greatest _ (isValid_nth deep next_inside) (depth_nth deep _)
    rw [nth_le_nth] at le
    omega
  · intro last d valid placed
    obtain ⟨-, below, numbered⟩ := nth_index valid placed
    rw [← numbered, nth_le_nth]
    omega

/-- The children end on the first cell of all when there are no cells behind them. -/
theorem childrenEnd_eq_first_iff (shallower : m ≤ l) (inside : j < count m) :
    stopAt l ((j + 1) * 4 ^ (l - m)) = first l ↔ j + 1 = count m := by
  have some_cells : 0 < 4 ^ (l - m) := by positivity
  rw [first_eq_nth]
  rcases (children_le_count shallower inside).lt_or_eq with below | last
  · have some_left : j + 1 < count m := by
      rw [count_eq_mul shallower] at below
      exact Nat.lt_of_mul_lt_mul_right below
    have positive : 0 < (j + 1) * 4 ^ (l - m) := by positivity
    rw [stopAt_of_lt below, nth_inj]
    omega
  · rw [last, stopAt_count]
    rw [count_eq_mul shallower] at last
    exact iff_of_true rfl (Nat.eq_of_mul_eq_mul_right some_cells last)

/-- From the first child of a cell at a level it is `4` steps for every level between to the
children's end, which is not met before. The cells passed are those of the level that have the cell
for an ancestor, in the order of their ids. Of the last cell of a level, and of no other, the
children end on the first cell of all. -/
theorem children_walked (valid : isValid c = true) (placed : depth c = m) (shallower : m ≤ l)
    (deep : l ≤ 30) :
    ∃ start stop cells, firstChild c l = .ok start ∧ childrenEnd c l = .ok stop ∧
      Passes stop start cells ∧ cells.length = 4 ^ (l - m) ∧ cells.Pairwise (· < ·) ∧
      (∀ x, x ∈ cells ↔ isValid x = true ∧ depth x = l ∧ ancestor x m = .ok c) ∧
      (stop = first l ↔ ∀ d, isValid d = true → depth d = m → d ≤ c) := by
  obtain ⟨m_deep, inside, numbered⟩ := nth_index valid placed
  rw [← numbered]
  refine ⟨_, _, cellsInside l m (index c), firstChild_nth deep shallower,
    childrenEnd_nth deep shallower inside, passes_children deep shallower inside,
    length_cellsInside l m _, ascending_cellsInside l m _,
    fun x => mem_cellsInside deep shallower inside, ?_⟩
  rw [childrenEnd_eq_first_iff shallower inside, greatest_nth_iff m_deep inside]

/-- The last cell of face 5 at level 1 has sixteen cells of level 3 inside. The walk over them ends
on the first cell of all, and passes the last cell of level 3 but not the one in front of them. -/
theorem children_walked_last : ∃ start cells, firstChild (nth 1 23) 3 = .ok start ∧
    childrenEnd (nth 1 23) 3 = .ok (first 3) ∧ Passes (first 3) start cells ∧
    cells.length = 16 ∧ nth 3 383 ∈ cells ∧ nth 3 367 ∉ cells := by
  have valid : isValid (nth 1 23) = true := isValid_nth (by decide) (by decide)
  have placed : depth (nth 1 23) = 1 := depth_nth (by decide) 23
  obtain ⟨start, stop, cells, start_eq, stop_eq, passes, length_eq, -, mem_iff, last_iff⟩ :=
    children_walked (l := 3) valid placed (by decide) (by decide)
  have last := last_iff.2 ((greatest_nth_iff (by decide) (by decide)).2 rfl)
  rw [last] at stop_eq passes
  refine ⟨start, cells, start_eq, stop_eq, passes, length_eq, ?_, ?_⟩
  · exact (mem_iff _).2 (by decide +kernel)
  · intro member
    have around := ((mem_iff _).1 member).2.2
    revert around
    decide +kernel

end Geofence.Cell
