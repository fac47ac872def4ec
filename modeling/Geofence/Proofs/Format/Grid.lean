/-
# Geofence.Proofs.Format.Grid -- prefixes and suffixes of numbered cells

The cells of the level of a format, taken by number, fall into groups of
`prefixCells`, one group for each prefix: the prefix of cell `k` is
`k / prefixCells` and its suffix `k % prefixCells`.  So `cellOf` and the numbers
of cells are the same coordinates, the end of a prefix is a multiple of
`prefixCells`, and lengths are differences of numbers.
-/
import Geofence.Proofs.Range.Arc
import Geofence.RangeFile.Writer

namespace Geofence.Format

set_option autoImplicit false

variable (f : Format)

def prefixCells : Nat :=
  2 ^ f.suffixBits

/-- The number of the first cell behind those with the prefix of cell `k`. -/
def prefixEnd (k : Nat) : Nat :=
  (k / f.prefixCells + 1) * f.prefixCells

theorem prefixCells_pos : 0 < f.prefixCells := by
  unfold prefixCells
  positivity

theorem lt_prefixEnd (k : Nat) : k < f.prefixEnd k :=
  Nat.lt_mul_of_div_lt (Nat.lt_succ_self _) f.prefixCells_pos

/-- The values that fit are those of the bytes of a value. -/
theorem le_greatestValue_iff {v : Int} : v ≤ f.greatestValue ↔ v < 256 ^ f.valueSize := by
  have power : (2 : Nat) ^ (8 * f.valueSize) = 256 ^ f.valueSize := by
    rw [pow_mul]
    norm_num
  have positive : 0 < 256 ^ f.valueSize := by positivity
  rw [greatestValue, power, Nat.cast_sub positive]
  push_cast
  omega

theorem longest_pos : 0 < f.longest := by
  have := f.suffixBits_lt
  have : 2 ^ 1 ≤ 2 ^ f.lengthBits := by
    apply Nat.pow_le_pow_right (by omega)
    unfold lengthBits rowBits
    omega
  unfold longest
  omega

/-- The cells of a face come with whole prefixes. -/
theorem four_pow_level : 4 ^ f.level = 2 ^ (f.prefixBits - 3) * f.prefixCells := by
  have := f.bits_eq
  have := f.prefixBits_ge
  rw [prefixCells, ← pow_add, show f.prefixBits - 3 + f.suffixBits = 2 * f.level by omega, pow_mul]
  norm_num

/-- The prefixes on the six faces hold all cells. -/
theorem count_level : Cell.count f.level = Partition.livePrefixes f * f.prefixCells := by
  rw [Cell.count, four_pow_level, Partition.livePrefixes, Nat.mul_assoc]

theorem livePrefixes_lt_tableCount : Partition.livePrefixes f < f.tableCount := by
  have := f.prefixBits_ge
  have split : 2 ^ f.prefixBits = 8 * 2 ^ (f.prefixBits - 3) := by
    rw [show (8 : Nat) = 2 ^ 3 by norm_num, ← pow_add]
    congr 1
    omega
  have : 0 < 2 ^ (f.prefixBits - 3) := by positivity
  unfold Partition.livePrefixes tableCount
  omega

theorem prefix_lt_livePrefixes {k : Nat} (inside : k < Cell.count f.level) :
    k / f.prefixCells < Partition.livePrefixes f := by
  rw [Nat.div_lt_iff_lt_mul f.prefixCells_pos, ← count_level]
  exact inside

theorem prefixEnd_le_count {k : Nat} (inside : k < Cell.count f.level) :
    f.prefixEnd k ≤ Cell.count f.level := by
  rw [count_level]
  exact Nat.mul_le_mul_right _ (f.prefix_lt_livePrefixes inside)

theorem number_lt_count {p s : Nat} (live : p < Partition.livePrefixes f)
    (inside : s < f.prefixCells) : p * f.prefixCells + s < Cell.count f.level := by
  rw [f.count_level]
  calc p * f.prefixCells + s < p * f.prefixCells + f.prefixCells := by omega
    _ = (p + 1) * f.prefixCells := (Nat.succ_mul _ _).symm
    _ ≤ Partition.livePrefixes f * f.prefixCells := Nat.mul_le_mul_right _ live

/-! ## Coordinates -/

theorem suffixShift_eq : f.suffixShift = 61 - 2 * f.level := by
  have := f.bits_eq
  unfold suffixShift
  omega

theorem prefixShift_eq : f.prefixShift = 61 - 2 * f.level + f.suffixBits := by
  have := f.bits_eq
  have := f.level_le
  unfold prefixShift
  omega

theorem prefixOf_nth (k : Nat) :
    f.prefixOf (Cell.nth f.level k) = ((k / f.prefixCells : Nat) : Int) := by
  rw [prefixOf, prefixShift_eq, Cell.nth_ediv f.level_le]
  rfl

theorem suffixOf_nth (k : Nat) :
    f.suffixOf (Cell.nth f.level k) = ((k % f.prefixCells : Nat) : Int) := by
  have whole := Cell.nth_ediv f.level_le k 0
  rw [Nat.add_zero, pow_zero, Nat.div_one] at whole
  rw [suffixOf, suffixShift_eq, whole, prefixCells]
  push_cast
  rfl

theorem cellOf_eq {p s : Nat} (bounded : p ≤ f.greatestPrefix) (inside : s < f.prefixCells) :
    f.cellOf p s = .ok (Cell.nth f.level (p * f.prefixCells + s)) := by
  have suffix_le : s ≤ f.greatestSuffix := Nat.le_sub_one_of_lt inside
  have cell_eq : ((p : Int) * 2 ^ f.prefixShift + s * 2 ^ f.suffixShift + 2 ^ (f.suffixShift - 1))
      = Cell.nth f.level (p * f.prefixCells + s) := by
    have := f.level_le
    rw [prefixShift_eq, suffixShift_eq, Cell.nth, Cell.unit, Cell.zerosAt_natCast f.level_le,
      show 61 - 2 * f.level = 60 - 2 * f.level + 1 by omega, Nat.add_sub_cancel, prefixCells]
    push_cast
    ring
  rw [cellOf, if_neg (by omega), if_neg (by omega), cell_eq]

theorem livePrefix_le_greatestPrefix {p : Nat} (live : p < Partition.livePrefixes f) :
    p ≤ f.greatestPrefix := by
  have below := f.livePrefixes_lt_tableCount
  unfold tableCount at below
  unfold greatestPrefix
  omega

theorem faceOfPrefix_succ (p : Nat) :
    f.faceOfPrefix ((p : Int) + 1) = (((p + 1) / 2 ^ (f.prefixBits - 3) : Nat) : Int) := by
  unfold faceOfPrefix
  push_cast
  rfl

theorem nextPrefix_beyond {p : Nat} (beyond : Partition.livePrefixes f ≤ p + 1) :
    f.nextPrefix p = 0 := by
  have outside : 6 ≤ (p + 1) / 2 ^ (f.prefixBits - 3) := by
    rwa [Nat.le_div_iff_mul_le (by positivity)]
  rw [nextPrefix, faceOfPrefix_succ, if_pos (by omega)]

theorem nextPrefix_eq {p : Nat} (live : p < Partition.livePrefixes f) :
    f.nextPrefix p = (((p + 1) % Partition.livePrefixes f : Nat) : Int) := by
  have upper : p + 1 ≤ Partition.livePrefixes f := live
  rcases upper.lt_or_eq with before | last
  · have inside : (p + 1) / 2 ^ (f.prefixBits - 3) < 6 := by
      rwa [Nat.div_lt_iff_lt_mul (by positivity)]
    rw [nextPrefix, faceOfPrefix_succ, if_neg (by omega), Nat.mod_eq_of_lt before]
    push_cast
    rfl
  · rw [f.nextPrefix_beyond last.ge, last, Nat.mod_self]
    rfl

/-- Behind the cells with prefix `p` comes the cell with the next number, or the first of all. -/
theorem cellPastPrefix_eq {p : Nat} (live : p < Partition.livePrefixes f) :
    f.cellPastPrefix p = .ok (Cell.stopAt f.level ((p + 1) * f.prefixCells)) := by
  have some_live : 0 < Partition.livePrefixes f := by omega
  have next_live := Nat.mod_lt (p + 1) some_live
  rw [cellPastPrefix, nextPrefix_eq f live,
    show (0 : Int) = ((0 : Nat) : Int) by rfl,
    f.cellOf_eq (f.livePrefix_le_greatestPrefix next_live) f.prefixCells_pos,
    Nat.add_zero, Cell.stopAt, count_level, Nat.mul_mod_mul_right]

/-- What comes behind the first `s` cells with prefix `p`, counted in suffixes. -/
theorem stop_eq {p s : Nat} (live : p < Partition.livePrefixes f) (within : s ≤ f.prefixCells) :
    (if s ≤ f.greatestSuffix then f.cellOf p s else f.cellPastPrefix p) =
      .ok (Cell.stopAt f.level (p * f.prefixCells + s)) := by
  have whole : f.greatestSuffix + 1 = f.prefixCells := Nat.sub_add_cancel f.prefixCells_pos
  split
  · have inside := f.number_lt_count live (show s < f.prefixCells by omega)
    rw [f.cellOf_eq (f.livePrefix_le_greatestPrefix live) (by omega), Cell.stopAt_of_lt inside]
  · rw [f.cellPastPrefix_eq live, Nat.succ_mul]
    congr 3
    omega

theorem prefixOf_stopAt (k : Nat) :
    f.prefixOf (Cell.stopAt f.level k) =
      ((k / f.prefixCells % Partition.livePrefixes f : Nat) : Int) := by
  rw [Cell.stopAt, prefixOf_nth, count_level, Nat.mul_comm, Nat.mod_mul_right_div_self]

/-- The end of a range has the prefix of its start unless the range runs to the end of the
prefix or further. -/
theorem prefixOf_stopAt_eq_iff {a : Arc} (fits : a.Fits f.level) :
    f.prefixOf (Cell.stopAt f.level a.past) = f.prefixOf (Cell.nth f.level a.first) ↔
      a.past < f.prefixEnd a.first := by
  have positive := f.prefixCells_pos
  have nonempty := fits.first_lt_past
  have inside := fits.past_le_count
  have upper : a.past / f.prefixCells ≤ Partition.livePrefixes f := by
    apply Nat.div_le_of_le_mul
    rwa [Nat.mul_comm, ← count_level]
  have lower : a.first / f.prefixCells ≤ a.past / f.prefixCells := Nat.div_le_div_right nonempty.le
  rw [prefixOf_stopAt, prefixOf_nth, Nat.cast_inj, prefixEnd, ← Nat.div_lt_iff_lt_mul positive]
  rcases upper.lt_or_eq with below | last
  · rw [Nat.mod_eq_of_lt below]
    omega
  · -- the end has prefix 0, which is not on face 5
    have all : a.past = Cell.count f.level := by
      apply Nat.le_antisymm inside
      rw [count_level, ← last]
      exact Nat.div_mul_le_self _ _
    have onLast := fits.lastFace_of_past_eq all
    have started := f.prefix_lt_livePrefixes (nonempty.trans_le inside)
    rw [four_pow_level, ← Nat.mul_assoc, ← Nat.le_div_iff_mul_le positive] at onLast
    have : 0 < 2 ^ (f.prefixBits - 3) := by positivity
    rw [last, Nat.mod_self]
    omega

/-- The cells of one prefix lie on one face, so any number of them in a row is a range. -/
theorem fits_of_prefix {p : Nat} {a : Arc} (live : p < Partition.livePrefixes f)
    (lower : p * f.prefixCells ≤ a.first) (nonempty : a.first < a.past)
    (upper : a.past ≤ (p + 1) * f.prefixCells) (value_nonneg : 0 ≤ a.value) : a.Fits f.level where
  first_lt_past := nonempty
  past_le_count := by
    rw [f.count_level]
    exact upper.trans (Nat.mul_le_mul_right _ live)
  lastFace_of_past_eq := fun last => by
    rw [f.count_level] at last
    rw [last] at upper
    have final : Partition.livePrefixes f ≤ p + 1 :=
      Nat.le_of_mul_le_mul_right upper f.prefixCells_pos
    have some_prefix : 0 < 2 ^ (f.prefixBits - 3) := by positivity
    have onLast : 5 * 2 ^ (f.prefixBits - 3) ≤ p := by
      unfold Partition.livePrefixes at final
      omega
    rw [f.four_pow_level, ← Nat.mul_assoc]
    exact (Nat.mul_le_mul_right _ onLast).trans lower
  value_nonneg := value_nonneg

/-! ## Lengths -/

theorem cellPastPrefix_nth {k : Nat} (inside : k < Cell.count f.level) :
    f.cellPastPrefix (f.prefixOf (Cell.nth f.level k)) =
      .ok (Cell.stopAt f.level (f.prefixEnd k)) := by
  rw [prefixOf_nth]
  exact f.cellPastPrefix_eq (f.prefix_lt_livePrefixes inside)

/-- A length is the difference of two numbers with one prefix, or what is left of a prefix. -/
theorem rangeLength_nth {j k : Nat} (inside : j < Cell.count f.level) :
    f.rangeLength (Cell.nth f.level j) (Cell.nth f.level k) =
      if k / f.prefixCells = j / f.prefixCells then .ok ((k : Int) - j)
      else if Cell.nth f.level k = Cell.stopAt f.level (f.prefixEnd j) then
        .ok ((f.prefixEnd j : Int) - j)
      else .error (.notSamePrefix (Cell.nth f.level j) (Cell.nth f.level k)) := by
  have split_j := Nat.div_add_mod' j f.prefixCells
  have split_k := Nat.div_add_mod' k f.prefixCells
  rw [rangeLength, f.cellPastPrefix_nth inside]
  simp only [prefixOf_nth, suffixOf_nth, Nat.cast_inj]
  by_cases same : k / f.prefixCells = j / f.prefixCells
  · rw [if_pos same, if_pos same]
    rw [same] at split_k
    congr 1
    omega
  · rw [if_neg same, if_neg same]
    change (if _ then Except.ok _ else Except.error _) = _
    congr 2
    have whole : f.greatestSuffix + 1 = f.prefixCells := Nat.sub_add_cancel f.prefixCells_pos
    rw [prefixEnd, Nat.succ_mul]
    omega

/-- The length of a range that does not run past its prefix. -/
theorem rangeLength_eq {a : Arc} (fits : a.Fits f.level) (short : a.past ≤ f.prefixEnd a.first) :
    f.rangeLength (Cell.nth f.level a.first) (Cell.stopAt f.level a.past) =
      .ok ((a.past - a.first : Nat) : Int) := by
  have nonempty := fits.first_lt_past
  have inside := nonempty.trans_le fits.past_le_count
  have same_iff := f.prefixOf_stopAt_eq_iff fits
  rw [Cell.stopAt, prefixOf_nth, prefixOf_nth, Nat.cast_inj] at same_iff
  rw [Cell.stopAt, f.rangeLength_nth inside, Nat.cast_sub nonempty.le]
  rcases short.lt_or_eq with below | last
  · have past_inside := below.trans_le (f.prefixEnd_le_count inside)
    rw [if_pos (same_iff.2 below), Nat.mod_eq_of_lt past_inside]
  · have apart : ¬a.past % Cell.count f.level / f.prefixCells = a.first / f.prefixCells :=
      fun same => (same_iff.1 same).ne last
    rw [if_neg apart, last]
    exact if_pos rfl

theorem rowValue_eq {n : Nat} (nonempty : 0 < n) (short : n ≤ f.longest) :
    f.rowValue n = .ok (n : Int) := by
  rw [rowValue, if_pos (by omega)]

/-- A row has room for every length that it is given. -/
theorem lengthOfRowValue_eq {n : Nat} (short : n ≤ f.longest) : f.lengthOfRowValue n = (n : Int) := by
  have : 0 < 2 ^ f.lengthBits := by positivity
  unfold longest at short
  unfold lengthOfRowValue
  norm_cast
  rw [Nat.mod_eq_of_lt (by omega)]

end Geofence.Format
