/-
# Geofence.Proofs.Cell.Walk -- neighbours, children and ancestors by number

On the numbers of the cells of a level, walking is counting: the next cell has
the next number, and behind the last comes number 0 again; one step back is one
less, but in front of the first there is no cell.  Jumping is counting, too, and
comes back to number 0 only behind the words of two faces that do not exist.
Between levels numbers are scaled by the cells that a cell has at the deeper one:
the children of a cell are a run of numbers, and the ancestor of a cell is found
by division.
-/
import Geofence.Proofs.Cell.Index

namespace Geofence.Cell

set_option autoImplicit false

variable {l m j k : Nat}

theorem isValid_nth_iff (deep : l ≤ 30) : isValid (nth l k) = true ↔ k < count l := by
  refine ⟨fun valid => ?_, isValid_nth deep⟩
  have placed := (nth_index valid (depth_nth deep k)).2.1
  rwa [index_nth deep] at placed

/-! ## Words

An id of 64 bits has three bits of face, so a level has words for eight faces, though cells only on
six.  Where an id leads off the faces, its number still tells where it is. -/

theorem nth_lt_wordCount_iff (deep : l ≤ 30) : nth l k < wordCount ↔ k < 8 * 4 ^ l := by
  have onFaces : nth l k < wordCount ↔ face (nth l k) < 8 := by
    unfold face pathBits wordCount
    omega
  rw [onFaces, face_nth deep, ← Nat.div_lt_iff_lt_mul (by positivity)]
  exact Nat.cast_lt_ofNat

theorem word_of_lt_count (inside : k < count l) : k < 8 * 4 ^ l := by
  unfold count at inside
  omega

theorem wordCount_eq_mul (deep : l ≤ 30) : wordCount = 8 * 4 ^ l * (2 * unit l) := by
  have bits : 2 * l + (60 - 2 * l) = 60 := by omega
  rw [wordCount, unit, zerosAt_natCast deep, show (4 : Int) = 2 ^ 2 by norm_num, ← pow_mul,
    show (8 : Int) * 2 ^ (2 * l) * (2 * 2 ^ (60 - 2 * l)) =
      16 * (2 ^ (2 * l) * 2 ^ (60 - 2 * l)) by ring, ← pow_add, bits]
  norm_num

theorem level_nth_of_word (deep : l ≤ 30) (word : k < 8 * 4 ^ l) :
    level (nth l k) = .ok (l : Int) := by
  have isWord_nth : isWord (nth l k) = true := by
    rw [isWord, Bool.and_eq_true, decide_eq_true_eq, decide_eq_true_eq]
    exact ⟨nth_pos k, (nth_lt_wordCount_iff deep).2 word⟩
  have even : ¬sentinelPos (nth l k) % 2 = 1 := by
    rw [sentinelPos_nth deep]
    omega
  rw [level, isWord_nth, if_neg (by decide), if_neg even, depth_nth deep]

theorem level_nth (deep : l ≤ 30) (inside : k < count l) : level (nth l k) = .ok (l : Int) :=
  level_nth_of_word deep (word_of_lt_count inside)

/-! ## Neighbours -/

theorem wrap_nth_of_le (deep : l ≤ 30) (beyond : count l ≤ k) : wrap (nth l k) l = nth l 0 := by
  have offFaces : wordCount ≤ nth l k ∨ (lastFace : Int) < face (nth l k) := by
    right
    rw [← not_le, face_nth_le deep]
    omega
  rw [wrap, if_pos offFaces, first_eq_nth]

/-- Behind the last cell of face 5 the first of face 0 comes. -/
theorem wrap_nth (deep : l ≤ 30) (upper : k ≤ count l) : wrap (nth l k) l = stopAt l k := by
  rcases upper.lt_or_eq with inside | rfl
  · have word := lt_wordCount_of_isValid (isValid_nth deep inside)
    have onFace := (face_nth_le deep k).2 inside
    have same : ¬(wordCount ≤ nth l k ∨ (lastFace : Int) < face (nth l k)) := by
      omega
    rw [wrap, if_neg same, stopAt_of_lt inside]
  · rw [wrap_nth_of_le deep le_rfl, stopAt_count]

theorem next_nth_of_word (deep : l ≤ 30) (word : k < 8 * 4 ^ l) :
    next (nth l k) = .ok (wrap (nth l (k + 1)) l) := by
  have forward : nth l k + 2 * sentinel (nth l k) = nth l (k + 1) := by
    rw [sentinel_nth deep]
    unfold nth
    push_cast
    ring
  rw [next, level_nth_of_word deep word]
  change Except.ok (wrap _ _) = _
  rw [forward]

theorem next_nth (deep : l ≤ 30) (inside : k < count l) :
    next (nth l k) = .ok (stopAt l (k + 1)) := by
  rw [next_nth_of_word deep (word_of_lt_count inside), wrap_nth deep inside]

/-- Jumping is counting, and comes back to number 0 behind the words of the level. -/
theorem advance_nth_emod (deep : l ≤ 30) (k : Nat) (n : Int) :
    advance (nth l k) n = nth l ((k + n) % (8 * 4 ^ l)).toNat := by
  have words : (0 : Int) < 8 * 4 ^ l := by positivity
  obtain ⟨r, number⟩ := Int.eq_ofNat_of_zero_le (Int.emod_nonneg (k + n) words.ne')
  have word : r < 8 * 4 ^ l := by
    have below := Int.emod_lt_of_pos (k + n) words
    rw [number] at below
    exact_mod_cast below
  have split : nth l k + n * (2 * unit l) =
      nth l r + (k + n) / (8 * 4 ^ l) * wordCount := by
    have divided := Int.emod_add_mul_ediv (k + n) (8 * 4 ^ l)
    rw [number] at divided
    rw [nth, nth, wordCount_eq_mul deep]
    linear_combination (-(2 * unit l)) * divided
  rw [advance, sentinel_nth deep, split, Int.add_mul_emod_self_right, number, Int.toNat_natCast,
    Int.emod_eq_of_lt (nth_pos r).le ((nth_lt_wordCount_iff deep).2 word)]

theorem advance_nth_of_word (deep : l ≤ 30) {n : Int} (lower : 0 ≤ k + n)
    (word : k + n < 8 * 4 ^ l) : advance (nth l k) n = nth l (k + n).toNat := by
  rw [advance_nth_emod deep, Int.emod_eq_of_lt lower word]

theorem advance_nth (deep : l ≤ 30) {n : Nat} (inside : k + n < count l) :
    advance (nth l k) n = nth l (k + n) := by
  have word := word_of_lt_count inside
  rw [advance_nth_of_word deep (by omega) (by exact_mod_cast word)]
  rfl

theorem prev_eq_advance (c : Cell) : prev c = advance c (-1) := by
  rw [prev, advance, neg_one_mul, sub_eq_add_neg]

theorem prev_nth (deep : l ≤ 30) (inside : k + 1 < count l) : prev (nth l (k + 1)) = nth l k := by
  have word := word_of_lt_count inside
  have back : ((k + 1 : Nat) : Int) + -1 = k := by
    push_cast
    ring
  rw [prev_eq_advance, advance_nth_of_word deep (by omega) (by rw [back]; norm_cast; omega), back,
    Int.toNat_natCast]

/-- One step back from the first cell leads to the last word of the level. -/
theorem prev_first (deep : l ≤ 30) : prev (nth l 0) = nth l (8 * 4 ^ l - 1) := by
  have some_cells : 0 < 4 ^ l := by positivity
  have back : ((0 : Nat) : Int) + -1 = ((8 * 4 ^ l - 1 : Nat) : Int) + 8 * 4 ^ l * -1 := by
    push_cast [Nat.cast_sub (show 1 ≤ 8 * 4 ^ l by omega)]
    ring
  rw [prev_eq_advance, advance_nth_emod deep, back, Int.add_mul_emod_self_left,
    Int.emod_eq_of_lt (Int.natCast_nonneg _) (by norm_cast; omega), Int.toNat_natCast]

theorem isValid_prev_first (deep : l ≤ 30) : isValid (prev (nth l 0)) = false := by
  have some_cells : 0 < 4 ^ l := by positivity
  rw [prev_first deep, ← Bool.not_eq_true, isValid_nth_iff deep, count]
  omega

/-! ## Other levels -/

theorem unit?_natCast (deep : l ≤ 30) : unit? l = .ok (unit l) :=
  if_pos (by unfold deepest; omega)

/-- A cell spans as many units of a deeper level as it has cells there. -/
theorem unit_eq_mul (deep : l ≤ 30) (shallower : m ≤ l) : unit m = 4 ^ (l - m) * unit l := by
  rw [unit, unit, zerosAt_natCast deep, zerosAt_natCast (shallower.trans deep),
    show (4 : Int) = 2 ^ 2 by norm_num, ← pow_mul, ← pow_add]
  congr 1
  omega

theorem count_eq_mul (shallower : m ≤ l) : count l = count m * 4 ^ (l - m) := by
  rw [count, count, Nat.mul_assoc, ← pow_add, Nat.add_sub_cancel' shallower]

/-- The children of a cell end where the cells of their level do, or in front of it. -/
theorem children_le_count (shallower : m ≤ l) (inside : j < count m) :
    (j + 1) * 4 ^ (l - m) ≤ count l := by
  rw [count_eq_mul shallower]
  exact Nat.mul_le_mul_right _ inside

/-- The numbers at level `l` of the cells inside cell `j` of level `m`. -/
def childNumbers (l m j : Nat) : List Nat :=
  (List.range (4 ^ (l - m))).map fun i => j * 4 ^ (l - m) + i

theorem mem_childNumbers : k ∈ childNumbers l m j ↔ k / 4 ^ (l - m) = j := by
  have some_cells : 0 < 4 ^ (l - m) := by positivity
  rw [childNumbers, List.mem_map]
  constructor
  · rintro ⟨i, below, rfl⟩
    rw [Nat.mul_comm, Nat.mul_add_div some_cells, Nat.div_eq_of_lt (List.mem_range.1 below),
      Nat.add_zero]
  · rintro rfl
    refine ⟨k % 4 ^ (l - m), List.mem_range.2 (Nat.mod_lt _ some_cells), ?_⟩
    rw [Nat.mul_comm, Nat.div_add_mod]

theorem lt_count_of_mem_childNumbers (shallower : m ≤ l) (inside : j < count m)
    (member : k ∈ childNumbers l m j) : k < count l := by
  rw [count_eq_mul shallower, ← Nat.div_lt_iff_lt_mul (by positivity), mem_childNumbers.1 member]
  exact inside

/-- The children of a cell start behind those of the cells in front of it. -/
theorem firstChild_nth (deep : l ≤ 30) (shallower : m ≤ l) :
    firstChild (nth m j) l = .ok (nth l (j * 4 ^ (l - m))) := by
  have start : nth m j - sentinel (nth m j) + unit l = nth l (j * 4 ^ (l - m)) := by
    rw [sentinel_nth (shallower.trans deep), nth, nth, unit_eq_mul deep shallower]
    push_cast
    ring
  rw [firstChild, unit?_natCast deep, ← start]
  rfl

theorem childrenEnd_nth (deep : l ≤ 30) (shallower : m ≤ l) (inside : j < count m) :
    childrenEnd (nth m j) l = .ok (stopAt l ((j + 1) * 4 ^ (l - m))) := by
  have behind : nth m j + sentinel (nth m j) + unit l = nth l ((j + 1) * 4 ^ (l - m)) := by
    rw [sentinel_nth (shallower.trans deep), nth, nth, unit_eq_mul deep shallower]
    push_cast
    ring
  rw [childrenEnd, unit?_natCast deep]
  change Except.ok (wrap _ _) = _
  rw [behind, wrap_nth deep (children_le_count shallower inside)]

theorem ancestor_nth (deep : m ≤ 30) (deeper : l ≤ m) :
    ancestor (nth m j) l = .ok (nth l (j / 4 ^ (m - l))) := by
  have twice : 2 * unit l = 2 ^ (61 - 2 * m + 2 * (m - l)) := by
    rw [unit, zerosAt_natCast (deeper.trans deep), ← pow_succ']
    congr 1
    omega
  have around : nth m j / (2 * unit l) = ((j / 4 ^ (m - l) : Nat) : Int) := by
    rw [twice, nth_ediv deep, pow_mul]
    norm_num
  rw [ancestor, unit?_natCast (deeper.trans deep)]
  change Except.ok _ = _
  rw [around, nth]
  congr 1
  ring

/-- Asked for a level below its own, a cell names the cell behind its middle there. -/
theorem ancestor_nth_of_lt (deep : l ≤ 30) (shallower : m < l) :
    ancestor (nth m j) l = .ok (nth l (j * 4 ^ (l - m) + 2 * 4 ^ (l - m - 1))) := by
  have positive := unit_pos l
  have quarters : (4 : Int) ^ (l - m) = 4 * 4 ^ (l - m - 1) :=
    (mul_pow_sub_one (Nat.sub_ne_zero_of_lt shallower) 4).symm
  have middle : nth m j =
      ((j * 4 ^ (l - m) + 2 * 4 ^ (l - m - 1) : Nat) : Int) * (2 * unit l) := by
    rw [nth, unit_eq_mul deep shallower.le]
    push_cast
    rw [quarters]
    ring
  rw [ancestor, unit?_natCast deep]
  change Except.ok _ = _
  rw [middle, Int.mul_ediv_cancel _ (by omega), nth]
  congr 1
  ring

end Geofence.Cell
