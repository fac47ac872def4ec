/-
# Geofence.Proofs.Cell.Index -- the cells of a level, numbered

The cells of a level lie one behind the other, so they can be numbered from 0 in
the order of their ids: cell `k` is `2 * k + 1` units, a unit being the sentinel
of the level.  `nth` is the numbering, `index` reads the number back, and
`isValid_iff` says that the cells of all levels are exactly the numbered ones.

A range of cells runs up to, but without, some number `k`.  Where `k` is the
number of all cells there is no cell `k`, and the range ends on the first cell of
all instead: that is `stopAt`.
-/
import Geofence.Cell.Basic
import Mathlib

namespace Geofence.Cell

set_option autoImplicit false

def count (level : Nat) : Nat :=
  6 * 4 ^ level

def nth (level k : Nat) : Int :=
  (2 * k + 1) * unit level

def index (c : Cell) : Nat :=
  (c / (2 * sentinel c)).toNat

/-- The cell on which a range ends whose cells have numbers below `k`. -/
def stopAt (level k : Nat) : Int :=
  nth level (k % count level)

theorem count_pos (level : Nat) : 0 < count level := by
  unfold count
  positivity

/-! ## The sentinel of a numbered cell -/

theorem zerosAt_natCast {l : Nat} (deep : l ≤ 30) : zerosAt l = 60 - 2 * l := by
  unfold zerosAt deepest
  omega

theorem unit_pos (level : Int) : 0 < unit level := by
  unfold unit
  positivity

theorem nth_eq {l : Nat} (deep : l ≤ 30) (k : Nat) :
    nth l k = (((2 * k + 1) * 2 ^ (60 - 2 * l) : Nat) : Int) := by
  unfold nth unit
  rw [zerosAt_natCast deep]
  push_cast
  rfl

theorem sentinel_odd_mul (k z : Nat) :
    sentinel (((2 * k + 1) * 2 ^ z : Nat) : Int) = ((2 ^ z : Nat) : Int) := by
  have positive : 0 < (2 * k + 1) * 2 ^ z := by positivity
  have below : z ≤ ((2 * k + 1) * 2 ^ z).log2 := by
    rw [Nat.le_log2 positive.ne']
    exact Nat.le_mul_of_pos_left _ (by omega)
  obtain ⟨m, hm⟩ := Nat.exists_eq_add_of_le below
  have odd : Nat.Coprime (2 * k + 1) (2 ^ m) := by
    apply Nat.Coprime.pow_right
    simp
  unfold sentinel
  rw [if_neg (by exact_mod_cast positive.ne'), Int.natAbs_natCast, hm, pow_add,
    Nat.mul_comm (2 ^ z) (2 ^ m), Nat.gcd_mul_right, odd.gcd_eq_one, Nat.one_mul]

theorem sentinelPos_odd_mul (k z : Nat) :
    sentinelPos (((2 * k + 1) * 2 ^ z : Nat) : Int) = z := by
  unfold sentinelPos
  rw [sentinel_odd_mul, Int.natAbs_natCast, Nat.log2_two_pow]

/-- Every positive id is an odd number of units of its sentinel. -/
theorem exists_eq_odd_mul {c : Int} (positive : 0 < c) :
    ∃ k : Nat, c = (((2 * k + 1) * 2 ^ sentinelPos c : Nat) : Int) := by
  obtain ⟨n, rfl⟩ := Int.eq_ofNat_of_zero_le positive.le
  obtain ⟨z, m, ⟨k, rfl⟩, rfl⟩ := Nat.exists_eq_two_pow_mul_odd (n := n) (by omega)
  refine ⟨k, ?_⟩
  rw [Nat.mul_comm (2 ^ z) (2 * k + 1), sentinelPos_odd_mul]

variable {l : Nat}

theorem sentinel_nth (deep : l ≤ 30) (k : Nat) : sentinel (nth l k) = unit l := by
  rw [nth_eq deep, sentinel_odd_mul]
  unfold unit
  rw [zerosAt_natCast deep]
  push_cast
  rfl

theorem sentinelPos_nth (deep : l ≤ 30) (k : Nat) : sentinelPos (nth l k) = 60 - 2 * l := by
  rw [nth_eq deep, sentinelPos_odd_mul]

theorem depth_nth (deep : l ≤ 30) (k : Nat) : depth (nth l k) = l := by
  unfold depth deepest
  rw [sentinelPos_nth deep]
  omega

theorem index_nth (deep : l ≤ 30) (k : Nat) : index (nth l k) = k := by
  have positive := unit_pos l
  unfold index
  rw [sentinel_nth deep, nth, show (2 * (k : Int) + 1) * unit l = unit l + k * (2 * unit l) by ring,
    Int.add_mul_ediv_right _ _ (by omega), Int.ediv_eq_zero_of_lt positive.le (by omega)]
  simp

/-! ## Order -/

theorem nth_lt_nth {j k : Nat} : nth l j < nth l k ↔ j < k := by
  have positive := unit_pos l
  unfold nth
  rw [mul_lt_mul_iff_left₀ positive]
  omega

theorem nth_le_nth {j k : Nat} : nth l j ≤ nth l k ↔ j ≤ k := by
  rw [← not_lt, nth_lt_nth, not_lt]

theorem nth_inj {j k : Nat} : nth l j = nth l k ↔ j = k := by
  rw [le_antisymm_iff, nth_le_nth, nth_le_nth, ← le_antisymm_iff]

theorem nth_pos (k : Nat) : 0 < nth l k := by
  have positive := unit_pos l
  unfold nth
  positivity

/-! ## Faces -/

/-- The bits of a cell in front of its sentinel are the bits of its number. -/
theorem nth_ediv (deep : l ≤ 30) (k bits : Nat) :
    nth l k / 2 ^ (61 - 2 * l + bits) = ((k / 2 ^ bits : Nat) : Int) := by
  have whole : (2 * k + 1) * 2 ^ (60 - 2 * l) / 2 ^ (61 - 2 * l + bits) = k / 2 ^ bits := by
    rw [pow_add, ← Nat.div_div_eq_div_mul, show 61 - 2 * l = 1 + (60 - 2 * l) by omega, pow_add,
      Nat.mul_div_mul_right _ _ (by positivity)]
    congr 1
    omega
  rw [nth_eq deep, ← whole]
  push_cast
  rfl

theorem face_nth (deep : l ≤ 30) (k : Nat) : face (nth l k) = ((k / 4 ^ l : Nat) : Int) := by
  unfold face pathBits
  have split := nth_ediv deep k (2 * l)
  rwa [show 61 - 2 * l + 2 * l = 61 by omega, pow_mul] at split

theorem face_nth_le (deep : l ≤ 30) (k : Nat) : face (nth l k) ≤ lastFace ↔ k < count l := by
  rw [face_nth deep, count, Nat.cast_le, ← Nat.lt_succ_iff,
    Nat.div_lt_iff_lt_mul (by positivity)]
  rfl

/-! ## Validity -/

theorem isValid_nth (deep : l ≤ 30) {k : Nat} (inside : k < count l) :
    isValid (nth l k) = true := by
  have positive : (0 : Int) < nth l k := nth_pos k
  have onFace : face (nth l k) ≤ (lastFace : Int) := (face_nth_le deep k).2 inside
  have word : nth l k < wordCount := by
    unfold face pathBits lastFace at onFace
    unfold wordCount
    omega
  have even : sentinelPos (nth l k) % 2 = 0 := by
    rw [sentinelPos_nth deep]
    omega
  have shallow : sentinelPos (nth l k) ≤ 2 * deepest := by
    rw [sentinelPos_nth deep]
    unfold deepest
    omega
  simp only [isValid, isWord, Bool.and_eq_true, decide_eq_true_eq, beq_iff_eq]
  exact ⟨⟨⟨⟨positive, word⟩, onFace⟩, even⟩, shallow⟩

theorem exists_nth_of_isValid {c : Cell} (valid : isValid c = true) :
    ∃ l k, l ≤ 30 ∧ k < count l ∧ c = nth l k := by
  simp only [isValid, isWord, Bool.and_eq_true, decide_eq_true_eq, beq_iff_eq] at valid
  obtain ⟨⟨⟨⟨positive, -⟩, onFace⟩, even⟩, shallow⟩ := valid
  unfold deepest at shallow
  obtain ⟨k, hk⟩ := exists_eq_odd_mul positive
  have deep : 30 - sentinelPos c / 2 ≤ 30 := Nat.sub_le _ _
  have numbered : c = nth ((30 - sentinelPos c / 2 : Nat)) k := by
    rw [nth_eq deep, show 60 - 2 * (30 - sentinelPos c / 2) = sentinelPos c by omega]
    exact hk
  refine ⟨30 - sentinelPos c / 2, k, deep, ?_, numbered⟩
  rwa [← face_nth_le deep, ← numbered]

theorem lt_wordCount_of_isValid {c : Int} (valid : isValid c = true) : c < wordCount := by
  simp only [isValid, isWord, Bool.and_eq_true, decide_eq_true_eq] at valid
  exact valid.1.1.1.2

/-- The cells are the numbered ones. -/
theorem isValid_iff {c : Cell} :
    isValid c = true ↔ ∃ l k, l ≤ 30 ∧ k < count l ∧ c = nth l k := by
  refine ⟨exists_nth_of_isValid, ?_⟩
  rintro ⟨l, k, deep, inside, rfl⟩
  exact isValid_nth deep inside

theorem nth_index {c : Cell} (valid : isValid c = true) (placed : depth c = l) :
    l ≤ 30 ∧ index c < count l ∧ nth l (index c) = c := by
  obtain ⟨m, k, deep, inside, rfl⟩ := exists_nth_of_isValid valid
  rw [depth_nth deep, Nat.cast_inj] at placed
  subst placed
  rw [index_nth deep]
  exact ⟨deep, inside, rfl⟩

/-! ## The cell on which a range ends -/

theorem stopAt_of_lt {k : Nat} (inside : k < count l) : stopAt l k = nth l k := by
  rw [stopAt, Nat.mod_eq_of_lt inside]

theorem stopAt_count (l : Nat) : stopAt l (count l) = nth l 0 := by
  rw [stopAt, Nat.mod_self]

theorem isValid_stopAt (deep : l ≤ 30) (k : Nat) : isValid (stopAt l k) = true :=
  isValid_nth deep (Nat.mod_lt _ (count_pos l))

theorem depth_stopAt (deep : l ≤ 30) (k : Nat) : depth (stopAt l k) = l :=
  depth_nth deep _

theorem first_eq_nth (l : Nat) : first l = nth l 0 := by
  simp [first, nth]

/-- A range wraps when it starts on face 5 and ends behind all cells. -/
theorem wrapsTo_nth (deep : l ≤ 30) {a b : Nat} :
    wrapsTo (nth l a) (nth l b) = true ↔ face (nth l a) = lastFace ∧ b = 0 := by
  simp only [wrapsTo, depth_nth deep, first_eq_nth, Bool.and_eq_true, beq_iff_eq, nth_inj]

end Geofence.Cell
