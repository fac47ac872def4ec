/-
# Geofence.Proofs.Cell.Name -- names tell cells apart

A path drops the sentinel and a token drops zeros, and neither loses anything.
The path of a cell is the path of the cell around it with one digit more
(`toList_path_succ`), so a path is as long as its cell is deep, and read from the
front it names the cells around its cell, one after the other: one path is the
front of another just when its cell is the other cell or an ancestor of it
(`path_prefix_iff`).  A token is one of sixteen digits without the zeros at its
end, and these are known from what is left (`token_inj`).
-/
import Geofence.Proofs.Cell.Walk
import Geofence.Proofs.Text.Numeral

namespace Geofence.Cell

set_option autoImplicit false

variable {c d : Cell} {l m j k : Nat}

/-! ## Paths -/

theorem pathDigit_nth (deep : l ≤ 30) {i : Nat} (upper : i ≤ l) :
    pathDigit (nth l k) i = k / 4 ^ (l - i) % 4 := by
  have split := nth_ediv deep k (2 * (l - i))
  rw [show 61 - 2 * l + 2 * (l - i) = 61 - 2 * i by omega, pow_mul] at split
  change _ = ((k / 4 ^ (l - i) : Nat) : Int) at split
  rw [pathDigit, pathBits, split]
  omega

theorem pathDigits_nth_succ (deep : l + 1 ≤ 30) :
    pathDigits (nth (l + 1) k) = pathDigits (nth l (k / 4)) ++ [k % 4] := by
  rw [pathDigits, pathDigits, depth_nth deep, depth_nth (by omega), Int.toNat_natCast,
    Int.toNat_natCast, List.range_succ, List.map_append, List.map_singleton]
  congr 1
  · apply List.map_congr_left
    intro i member
    have below := List.mem_range.1 member
    rw [pathDigit_nth deep (by omega), pathDigit_nth (by omega) below, Nat.div_div_eq_div_mul,
      ← pow_succ', show l + 1 - (i + 1) = l - (i + 1) + 1 by omega]
  · rw [pathDigit_nth deep le_rfl, Nat.sub_self, pow_zero, Nat.div_one]

/-- A face is named by one digit. -/
theorem toList_face (inside : k < count l) :
    (toString ((k / 4 ^ l : Nat) : Int)).toList = [Nat.digitChar (k / 4 ^ l)] := by
  have each : ∀ f : Fin 6, (toString (f.val : Int)).toList = [Nat.digitChar f.val] := by decide
  exact each ⟨k / 4 ^ l, Nat.div_lt_of_lt_mul (by rwa [Nat.mul_comm])⟩

theorem toList_path (deep : l ≤ 30) (inside : k < count l) :
    (path (nth l k)).toList =
      Nat.digitChar (k / 4 ^ l) :: '/' :: (pathDigits (nth l k)).map Nat.digitChar := by
  rw [path, if_pos (isValid_nth deep inside), face_nth deep, String.toList_append,
    String.toList_append, toList_face inside, String.toList_ofList, String.toList_ofList]
  rfl

theorem div_four_lt_count (inside : k < count (l + 1)) : k / 4 < count l := by
  unfold count at inside ⊢
  omega

/-- The path of a cell is the path of the cell around it and one digit more. -/
theorem toList_path_succ (deep : l + 1 ≤ 30) (inside : k < count (l + 1)) :
    (path (nth (l + 1) k)).toList = (path (nth l (k / 4))).toList ++ [Nat.digitChar (k % 4)] := by
  rw [toList_path deep inside, toList_path (by omega) (div_four_lt_count inside),
    pathDigits_nth_succ deep, List.map_append, Nat.div_div_eq_div_mul, ← pow_succ']
  rfl

theorem length_path (deep : l ≤ 30) (inside : k < count l) :
    (path (nth l k)).toList.length = l + 2 := by
  rw [toList_path deep inside, List.length_cons, List.length_cons, List.length_map, pathDigits,
    List.length_map, List.length_range, depth_nth deep, Int.toNat_natCast]

theorem toList_path_inj (deep : l ≤ 30) (j_inside : j < count l) (k_inside : k < count l) :
    (path (nth l j)).toList = (path (nth l k)).toList ↔ j = k := by
  refine ⟨fun same => ?_, fun same => by rw [same]⟩
  induction l generalizing j k with
  | zero =>
      rw [toList_path deep j_inside, toList_path deep k_inside] at same
      rw [count] at j_inside k_inside
      have faces := (Text.digitChar_inj (by omega) (by omega)).1 (List.cons.inj same).1
      omega
  | succ l ih =>
      rw [toList_path_succ deep j_inside, toList_path_succ deep k_inside] at same
      obtain ⟨front, last⟩ := List.append_inj' same rfl
      have fronts : j / 4 = k / 4 :=
        ih (by omega) (div_four_lt_count j_inside) (div_four_lt_count k_inside) front
      have lasts := (Text.digitChar_inj (by omega) (by omega)).1 (List.cons.inj last).1
      omega

/-- The path of the cell around a cell at a level is the front of its path. -/
theorem path_prefix (deep : l ≤ 30) (shallower : m ≤ l) (inside : k < count l) :
    (path (nth m (k / 4 ^ (l - m)))).toList <+: (path (nth l k)).toList := by
  induction l, shallower using Nat.le_induction generalizing k with
  | base => rw [Nat.sub_self, pow_zero, Nat.div_one]
  | succ l shallower ih =>
      have front := ih (by omega) (div_four_lt_count inside)
      rw [Nat.div_div_eq_div_mul, ← pow_succ', ← Nat.sub_add_comm shallower] at front
      rw [toList_path_succ deep inside]
      exact front.trans (List.prefix_append _ _)

theorem path_prefix_iff (deep : l ≤ 30) (m_deep : m ≤ 30) (inside : k < count l)
    (m_inside : j < count m) :
    (path (nth m j)).toList <+: (path (nth l k)).toList ↔ m ≤ l ∧ k / 4 ^ (l - m) = j := by
  constructor
  · intro front
    have shorter := front.length_le
    rw [length_path m_deep m_inside, length_path deep inside] at shorter
    have shallower : m ≤ l := by omega
    -- of two fronts of one path that are equally long, neither is the shorter one
    have around := path_prefix deep shallower inside
    have around_inside : k / 4 ^ (l - m) < count m := by
      rw [Nat.div_lt_iff_lt_mul (by positivity), ← count_eq_mul shallower]
      exact inside
    have as_long : (path (nth m (k / 4 ^ (l - m)))).toList.length =
        (path (nth m j)).toList.length := by
      rw [length_path m_deep around_inside, length_path m_deep m_inside]
    have same := (List.prefix_of_prefix_length_le around front as_long.le).eq_of_length as_long
    exact ⟨shallower, (toList_path_inj m_deep around_inside m_inside).1 same⟩
  · rintro ⟨shallower, rfl⟩
    exact path_prefix deep shallower inside

theorem exists_append_iff {s t : String} : (∃ rest, s = t ++ rest) ↔ t.toList <+: s.toList := by
  constructor
  · rintro ⟨rest, rfl⟩
    rw [String.toList_append]
    exact List.prefix_append _ _
  · rintro ⟨rest, joined⟩
    refine ⟨String.ofList rest, ?_⟩
    rw [← String.toList_inj, String.toList_append, String.toList_ofList, joined]

/-- One path is the front of another just when it belongs to the same cell or an ancestor. -/
theorem exists_path_append_iff (valid : isValid c = true) (other : isValid d = true) :
    (∃ rest, path c = path d ++ rest) ↔
      ∃ m l, level d = .ok m ∧ level c = .ok l ∧ m ≤ l ∧ ancestor c m = .ok d := by
  obtain ⟨l, k, deep, inside, rfl⟩ := exists_nth_of_isValid valid
  obtain ⟨m, j, m_deep, m_inside, rfl⟩ := exists_nth_of_isValid other
  rw [exists_append_iff, path_prefix_iff deep m_deep inside m_inside, level_nth deep inside,
    level_nth m_deep m_inside]
  constructor
  · rintro ⟨shallower, rfl⟩
    exact ⟨m, l, rfl, rfl, by exact_mod_cast shallower, ancestor_nth deep shallower⟩
  · rintro ⟨_, _, ⟨⟩, ⟨⟩, shallower, around⟩
    have shallower : m ≤ l := by exact_mod_cast shallower
    rw [ancestor_nth deep shallower, Except.ok.injEq, nth_inj] at around
    exact ⟨shallower, around⟩

theorem path_inj (valid : isValid c = true) (other : isValid d = true) :
    path c = path d ↔ c = d := by
  refine ⟨fun same => ?_, fun same => by rw [same]⟩
  obtain ⟨l, k, deep, inside, rfl⟩ := exists_nth_of_isValid valid
  obtain ⟨m, j, m_deep, m_inside, rfl⟩ := exists_nth_of_isValid other
  have chars := congrArg String.toList same
  have lengths := congrArg List.length chars
  rw [length_path deep inside, length_path m_deep m_inside] at lengths
  obtain rfl : l = m := by omega
  rw [(toList_path_inj deep inside m_inside).1 chars]

/-! ## Tokens -/

theorem tokenChars_natCast {n : Nat} (some_bits : n ≠ 0) :
    tokenChars n = (Text.zeroPad 16 (Text.digits 16 n)).rdropWhile (· == '0') := by
  rw [tokenChars, if_neg (by exact_mod_cast some_bits), Text.numeral,
    if_neg (not_lt.2 (Int.natCast_nonneg n)), Int.natAbs_natCast]
  rfl

theorem tokenChars_ne_zero {n : Nat} (some_bits : n ≠ 0) : tokenChars n ≠ tokenChars 0 := by
  intro same
  have member : 'X' ∈ tokenChars n := by
    rw [same]
    exact List.mem_singleton_self _
  rw [tokenChars_natCast some_bits] at member
  have padded := (List.rdropWhile_prefix _ _).subset member
  obtain ⟨digit, below, spelled⟩ := Text.exists_of_mem_zeroPad (by decide) padded
  have each : ∀ digit : Fin 16, 'X' ≠ Nat.digitChar digit := by decide
  exact each ⟨digit, below⟩ spelled

theorem tokenChars_inj {p q : Nat} (p_word : p < 16 ^ 16) (q_word : q < 16 ^ 16) :
    tokenChars p = tokenChars q ↔ p = q := by
  refine ⟨fun same => ?_, fun same => by rw [same]⟩
  by_cases p_zero : p = 0
  · subst p_zero
    by_contra different
    exact tokenChars_ne_zero (Ne.symm different) same.symm
  by_cases q_zero : q = 0
  · subst q_zero
    exact absurd same (tokenChars_ne_zero p_zero)
  · rw [tokenChars_natCast p_zero, tokenChars_natCast q_zero] at same
    have digits_eq := Text.eq_of_rdropWhile_eq (by
      rw [Text.length_zeroPad_digits (by decide) (by decide) p_word,
        Text.length_zeroPad_digits (by decide) (by decide) q_word]) same
    exact (Text.zeroPad_inj (by decide) (by decide) (by decide) p_word q_word).1 digits_eq

theorem token_inj {c d : Int} (lower : 0 ≤ c) (word : c < wordCount) (d_lower : 0 ≤ d)
    (d_word : d < wordCount) : token c = token d ↔ c = d := by
  obtain ⟨p, rfl⟩ := Int.eq_ofNat_of_zero_le lower
  obtain ⟨q, rfl⟩ := Int.eq_ofNat_of_zero_le d_lower
  unfold wordCount at word d_word
  rw [token, token, String.ofList_inj, tokenChars_inj (by omega) (by omega), Nat.cast_inj]

/-- Different cells have different paths, and the path of one is the front of the path of another
just when it is that cell or an ancestor of it. Different words, whether they name a cell or not,
have different tokens. -/
theorem named_apart :
    (∀ c d : Cell, isValid c = true → isValid d = true →
      (path c = path d ↔ c = d) ∧
      ((∃ rest, path c = path d ++ rest) ↔
        ∃ m l, level d = .ok m ∧ level c = .ok l ∧ m ≤ l ∧ ancestor c m = .ok d)) ∧
    ∀ c d : Cell, 0 ≤ c → c < wordCount → 0 ≤ d → d < wordCount → (token c = token d ↔ c = d) := by
  constructor
  · intro c d valid other
    exact ⟨path_inj valid other, exists_path_append_iff valid other⟩
  · intro c d lower word d_lower d_word
    exact token_inj lower word d_lower d_word

/-- The last cell of level 3 lies inside the last one of level 1, and its path starts with that
cell's path; the path of the cell in front of that one it does not start with. The id without bits
and the greatest id have different tokens. -/
theorem named_apart_last :
    (∃ rest, path (nth 3 383) = path (nth 1 23) ++ rest) ∧
    (¬∃ rest, path (nth 3 383) = path (nth 1 22) ++ rest) ∧
    path (nth 3 383) ≠ path (nth 1 23) ∧ token 0 ≠ token (wordCount - 1) := by
  obtain ⟨paths, tokens⟩ := named_apart
  have inner : isValid (nth 3 383) = true := isValid_nth (by decide) (by decide)
  have outer : isValid (nth 1 23) = true := isValid_nth (by decide) (by decide)
  have before : isValid (nth 1 22) = true := isValid_nth (by decide) (by decide)
  have inner_level : level (nth 3 383) = .ok (3 : Nat) := level_nth (by decide) (by decide)
  have outer_level : level (nth 1 23) = .ok (1 : Nat) := level_nth (by decide) (by decide)
  refine ⟨?_, ?_, ?_, ?_⟩
  · rw [(paths _ _ inner outer).2]
    exact ⟨_, _, outer_level, inner_level, by decide, ancestor_nth (by decide) (by decide)⟩
  · rw [(paths _ _ inner before).2, level_nth (by decide) (by decide)]
    rintro ⟨_, _, ⟨⟩, -, -, around⟩
    rw [ancestor_nth (by decide) (by decide), Except.ok.injEq, nth_inj] at around
    exact absurd around (by decide)
  · rw [Ne, (paths _ _ inner outer).1]
    decide +kernel
  · rw [Ne, tokens _ _ (by decide) (by decide) (by decide) (by decide)]
    decide

end Geofence.Cell
