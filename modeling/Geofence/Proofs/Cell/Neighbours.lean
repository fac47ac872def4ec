/-
# Geofence.Proofs.Cell.Neighbours -- neighbours and jumps on the numbers of a level

The cells of a level have numbers, in the order of their ids (`Numbering`,
`numbering_nth`), and walking is counting on them, in three ways that differ at
the ends.  The next cell comes back to number 0 behind the last cell.  A step back
and a jump do not: they come back only behind the words of two more faces, so
that in front of the first cell and behind the last one they lead to ids that
name no cell.  A step forward undoes a step back nevertheless, also from the first
cell, since whatever lies behind the last cell is followed by the first
(`next_prev`).
-/
import Geofence.Proofs.Cell.Walk

namespace Geofence.Cell

set_option autoImplicit false

variable {l k : Nat} {c : Cell}

/-- The cells of level `l`, numbered from 0 in the order of their ids. -/
structure Numbering (l : Nat) (cell : Nat → Cell) : Prop where
  mem_iff : ∀ c, isValid c = true ∧ level c = .ok (l : Int) ↔ ∃ k < count l, cell k = c
  ascending : ∀ j k, j < k → k < count l → cell j < cell k

theorem numbering_nth (deep : l ≤ 30) : Numbering l (nth l) where
  mem_iff := by
    intro c
    constructor
    · rintro ⟨valid, placed⟩
      obtain ⟨m, k, m_deep, inside, rfl⟩ := exists_nth_of_isValid valid
      rw [level_nth m_deep inside, Except.ok.injEq, Nat.cast_inj] at placed
      subst placed
      exact ⟨k, inside, rfl⟩
    · rintro ⟨k, inside, rfl⟩
      exact ⟨isValid_nth deep inside, level_nth deep inside⟩
  ascending := fun _ _ less _ => nth_lt_nth.2 less

theorem next_prev (valid : isValid c = true) : next (prev c) = .ok c := by
  obtain ⟨l, k, deep, inside, rfl⟩ := exists_nth_of_isValid valid
  cases k with
  | zero =>
      have some_cells : 0 < 4 ^ l := by positivity
      have beyond : count l ≤ 8 * 4 ^ l - 1 + 1 := by
        unfold count
        omega
      rw [prev_first deep, next_nth_of_word deep (by omega), wrap_nth_of_le deep beyond]
  | succ k =>
      rw [prev_nth deep inside, next_nth deep (by omega), stopAt_of_lt inside]

/-- A jump that stays among the numbers of the level leads to a cell. -/
theorem advance_nth_of_inside (deep : l ≤ 30) {n : Int} (lower : 0 ≤ k + n)
    (inside : k + n < count l) : advance (nth l k) n = nth l (k + n).toNat := by
  apply advance_nth_of_word deep lower
  obtain ⟨j, number⟩ := Int.eq_ofNat_of_zero_le lower
  rw [number] at inside ⊢
  exact_mod_cast word_of_lt_count (Int.ofNat_lt.1 inside)

/-- A jump behind the last cell leads to an id that names none. -/
theorem isValid_advance_of_beyond (deep : l ≤ 30) {n : Int} (beyond : count l ≤ k + n)
    (word : k + n < 8 * 4 ^ l) : isValid (advance (nth l k) n) = false := by
  rw [advance_nth_of_word deep (by omega) word, ← Bool.not_eq_true, isValid_nth_iff deep]
  omega

/-- On the cells of a level, numbered in the order of their ids, a step forward adds one to the
number and comes back to 0 behind the last. A step back takes one from it, and leads from number 0
to no cell. A step back and a step forward lead to where they started. A jump by some cells adds as
many to the number, forward or backward; behind the last cell it leads to no cell before it has come
past the words of eight faces. -/
theorem walked_by_number (deep : l ≤ 30) :
    Numbering l (nth l) ∧
    (∀ k < count l, next (nth l k) = .ok (nth l ((k + 1) % count l))) ∧
    (∀ k < count l, 0 < k → prev (nth l k) = nth l (k - 1)) ∧
    isValid (prev (nth l 0)) = false ∧
    (∀ c, isValid c = true → next (prev c) = .ok c) ∧
    ∀ k < count l, ∀ n : Int,
      (0 ≤ k + n → k + n < count l → advance (nth l k) n = nth l (k + n).toNat) ∧
      (count l ≤ k + n → k + n < 8 * 4 ^ l → isValid (advance (nth l k) n) = false) := by
  refine ⟨numbering_nth deep, ?_, ?_, isValid_prev_first deep, fun c => next_prev, ?_⟩
  · intro k inside
    exact next_nth deep inside
  · intro k inside positive
    obtain ⟨j, rfl⟩ := Nat.exists_eq_add_one.2 positive
    exact prev_nth deep inside
  · intro k _ n
    exact ⟨advance_nth_of_inside deep, isValid_advance_of_beyond deep⟩

/-- On the deepest level: from the last cell one step on, and seven back; from the first one step
back, and as many on as there are cells. -/
theorem walked_by_number_deepest :
    next (nth 30 (count 30 - 1)) = .ok (nth 30 0) ∧
    advance (nth 30 (count 30 - 1)) (-7) = nth 30 (count 30 - 8) ∧
    isValid (prev (nth 30 0)) = false ∧ next (prev (nth 30 0)) = .ok (nth 30 0) ∧
    isValid (advance (nth 30 0) (count 30)) = false := by
  obtain ⟨-, forward, -, no_cell, back, jump⟩ := walked_by_number (l := 30) le_rfl
  have first_inside : 0 < count 30 := count_pos 30
  have last_inside : count 30 - 1 < count 30 := by omega
  refine ⟨?_, ?_, no_cell, back _ (isValid_nth le_rfl first_inside), ?_⟩
  · rw [forward _ last_inside]
    rfl
  · exact (jump _ last_inside (-7)).1 (by decide) (by decide)
  · exact (jump _ first_inside _).2 (by decide) (by decide)

end Geofence.Cell
