/-
# Geofence.Proofs.Cell.Passage -- walking from a cell to a cell

A walk goes from cell to next cell and ends where it meets the cell it is to
stop in front of; nothing else stops it.  What is walked through depends on the
two cells only (`Passes.unique`).  On the numbers of a level a walk over fewer
cells than there are passes one number after the other, also where the last one
is the last cell of face 5 and the stop lies in front of the start
(`passes_nth`).  So every walk over the cells inside a cell ends, and passes just
these (`passes_children`).
-/
import Geofence.Proofs.Cell.Walk

namespace Geofence.Cell

set_option autoImplicit false

/-- A walk from `c` passes the cells of the list and then meets `stop`. -/
inductive Passes (stop : Cell) : Cell → List Cell → Prop
  | done : Passes stop stop []
  | step {c d : Cell} {cells : List Cell} (apart : c ≠ stop) (onward : next c = .ok d)
      (rest : Passes stop d cells) : Passes stop c (c :: cells)

variable {c stop : Cell} {cells others : List Cell} {l m j : Nat}

/-- There is one walk from a cell to a cell at most. -/
theorem Passes.unique (passes : Passes stop c cells) (again : Passes stop c others) :
    others = cells := by
  induction passes generalizing others with
  | done =>
      cases again with
      | done => rfl
      | step apart _ _ => exact absurd rfl apart
  | step apart onward rest ih =>
      cases again with
      | done => exact absurd rfl apart
      | step _ onward' rest' =>
          obtain rfl := Except.ok.inj (onward.symm.trans onward')
          rw [ih rest']

/-- A walk over `n` cells passes `n` numbers, if there are more cells than that. -/
theorem passes_nth (deep : l ≤ 30) {n k : Nat} (fewer : n < count l) (inside : k + n ≤ count l)
    (start : k < count l) :
    Passes (stopAt l (k + n)) (nth l k) ((List.range n).map fun i => nth l (k + i)) := by
  induction n generalizing k with
  | zero =>
      rw [Nat.add_zero, stopAt_of_lt start]
      exact .done
  | succ n ih =>
      have apart : nth l k ≠ stopAt l (k + (n + 1)) := by
        rcases inside.lt_or_eq with below | last
        · rw [stopAt_of_lt below, Ne, nth_inj]
          omega
        · rw [last, stopAt_count, Ne, nth_inj]
          omega
      have shifted : (fun i => nth l (k + i)) ∘ Nat.succ = fun i => nth l (k + 1 + i) := by
        funext i
        change nth l (k + (i + 1)) = nth l (k + 1 + i)
        rw [Nat.add_right_comm, Nat.add_assoc]
      rw [List.range_succ_eq_map, List.map_cons, List.map_map, shifted]
      refine .step apart (next_nth deep start) ?_
      rcases Nat.eq_zero_or_pos n with rfl | more
      · exact .done
      · have within : k + 1 < count l := by omega
        have rest := ih (by omega) (show k + 1 + n ≤ count l by omega) within
        rwa [stopAt_of_lt within, Nat.add_comm n 1, ← Nat.add_assoc]

def cellsInside (l m j : Nat) : List Cell :=
  (childNumbers l m j).map (nth l)

theorem passes_children (deep : l ≤ 30) (shallower : m ≤ l) (inside : j < count m) :
    Passes (stopAt l ((j + 1) * 4 ^ (l - m))) (nth l (j * 4 ^ (l - m))) (cellsInside l m j) := by
  have some_cells : 0 < 4 ^ (l - m) := by positivity
  have faces : 1 < count m := by
    have := Nat.one_le_pow m 4 (by decide)
    unfold count
    omega
  have fewer : 4 ^ (l - m) < count l := by
    rw [count_eq_mul shallower]
    exact (Nat.lt_mul_iff_one_lt_left some_cells).2 faces
  have upper := children_le_count shallower inside
  rw [Nat.succ_mul] at upper ⊢
  rw [cellsInside, childNumbers, List.map_map]
  exact passes_nth deep fewer upper (by omega)

end Geofence.Cell
