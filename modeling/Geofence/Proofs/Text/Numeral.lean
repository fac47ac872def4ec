/-
# Geofence.Proofs.Text.Numeral -- numerals of one width

Numerals that are padded to one width are ordered as their numbers
(`zeroPad_lt_zeroPad`): one that is a digit wider has the numeral of the number
without its last digit in front (`zeroPad_succ`).  Taking off the zeros at the
end of such a numeral loses nothing, since its width is known
(`eq_of_rdropWhile_eq`).
-/
import Geofence.Proofs.Text.Line

namespace Geofence.Text

set_option autoImplicit false

variable {base width n p q : Nat}

theorem toDigits_of_base_le (two : 1 < base) (large : base ≤ n) :
    Nat.toDigits base n = Nat.toDigits base (n / base) ++ [Nat.digitChar (n % base)] := by
  have below := Nat.mod_lt n (Nat.zero_lt_of_lt two)
  have joined := Nat.toDigits_append_toDigits two (Nat.div_pos large (Nat.zero_lt_of_lt two)) below
  rw [Nat.div_add_mod, Nat.toDigits_of_lt_base below] at joined
  exact joined.symm

theorem exists_of_mem_toDigits {c : Char} (two : 1 < base) (member : c ∈ Nat.toDigits base n) :
    ∃ d < base, c = Nat.digitChar d := by
  induction n using Nat.strongRecOn with
  | ind n ih =>
      by_cases large : base ≤ n
      · rw [toDigits_of_base_le two large, List.mem_append, List.mem_singleton] at member
        rcases member with front | rfl
        · exact ih (n / base) (Nat.div_lt_self (by omega) two) front
        · exact ⟨_, Nat.mod_lt n (Nat.zero_lt_of_lt two), rfl⟩
      · rw [Nat.toDigits_of_lt_base (not_le.1 large), List.mem_singleton] at member
        exact ⟨n, not_le.1 large, member⟩

theorem isAlphanum_digitChar {d : Nat} (below : d < 16) : (Nat.digitChar d).isAlphanum = true := by
  have each : ∀ d : Fin 16, (Nat.digitChar d).isAlphanum = true := by decide
  exact each ⟨d, below⟩

theorem exists_of_mem_zeroPad {c : Char} (two : 1 < base)
    (member : c ∈ zeroPad width (digits base n)) : ∃ d < base, c = Nat.digitChar d := by
  rcases List.mem_append.1 member with zero | digit
  · exact ⟨0, by omega, List.eq_of_mem_replicate zero⟩
  · exact exists_of_mem_toDigits two digit

theorem isAlphanum_of_mem_zeroPad {c : Char} (two : 1 < base) (few : base ≤ 16)
    (member : c ∈ zeroPad width (digits base n)) : c.isAlphanum = true := by
  obtain ⟨d, below, rfl⟩ := exists_of_mem_zeroPad two member
  exact isAlphanum_digitChar (below.trans_le few)

/-- A numeral is made of digits, letters among them, and perhaps a sign. -/
theorem mem_numeral {c : Char} {n : Int} (two : 1 < base) (few : base ≤ 16)
    (member : c ∈ numeral base width n) : c = '-' ∨ c.isAlphanum = true := by
  unfold numeral at member
  split at member
  · exact (List.mem_cons.1 member).imp_right (isAlphanum_of_mem_zeroPad two few)
  · exact Or.inr (isAlphanum_of_mem_zeroPad two few member)

theorem oneLine_numeral (two : 1 < base) (few : base ≤ 16) (width : Nat) (n : Int) :
    OneLine (numeral base width n) := by
  intro c member
  rcases mem_numeral two few member with rfl | digit
  · decide
  · constructor <;> rintro rfl <;> exact absurd digit (by decide)

/-! ## Order -/

/-- Behind the numeral of the number without its last digit stands that digit. -/
theorem zeroPad_succ (two : 1 < base) (some_width : 0 < width) (n : Nat) :
    zeroPad (width + 1) (digits base n) =
      zeroPad width (digits base (n / base)) ++ [Nat.digitChar (n % base)] := by
  unfold zeroPad digits
  by_cases large : base ≤ n
  · rw [toDigits_of_base_le two large, List.length_append, List.length_singleton,
      Nat.add_sub_add_right, List.append_assoc]
  · have small := not_le.1 large
    rw [Nat.toDigits_of_lt_base small, Nat.div_eq_of_lt small, Nat.mod_eq_of_lt small,
      Nat.toDigits_of_lt_base (Nat.zero_lt_of_lt two), List.length_singleton, List.length_singleton,
      Nat.add_sub_cancel]
    obtain ⟨less, rfl⟩ := Nat.exists_eq_add_one.2 some_width
    rw [List.replicate_succ', Nat.add_sub_cancel]
    rfl

theorem digitChar_lt_digitChar (less : p < q) (below : q < 16) :
    Nat.digitChar p < Nat.digitChar q := by
  have each : ∀ q p : Fin 16, p.val < q.val → Nat.digitChar p < Nat.digitChar q := by decide
  exact each ⟨q, below⟩ ⟨p, less.trans below⟩ less

theorem digitChar_inj (p_below : p < 16) (q_below : q < 16) :
    Nat.digitChar p = Nat.digitChar q ↔ p = q := by
  have each : ∀ p q : Fin 16, Nat.digitChar p = Nat.digitChar q → p = q := by decide
  constructor
  · intro same
    exact congrArg Fin.val (each ⟨p, p_below⟩ ⟨q, q_below⟩ same)
  · rintro rfl
    rfl

/-- Of two texts of one length the first difference decides, whatever follows. -/
theorem append_lt_append {s t : List Char} (same : s.length = t.length) (less : s < t)
    (u v : List Char) : s ++ u < t ++ v := by
  induction s generalizing t with
  | nil =>
      rw [List.length_eq_zero_iff.1 same.symm] at less
      exact absurd less (List.lt_irrefl _)
  | cons c s ih =>
      cases t with
      | nil => contradiction
      | cons d t =>
          rw [List.cons_append, List.cons_append, List.cons_lt_cons_iff]
          rcases List.cons_lt_cons_iff.1 less with first | ⟨equal, later⟩
          · exact Or.inl first
          · exact Or.inr ⟨equal, ih (Nat.add_right_cancel same) later⟩

theorem length_zeroPad_digits (two : 1 < base) (some_width : 0 < width) (fits : n < base ^ width) :
    (zeroPad width (digits base n)).length = width := by
  rw [length_zeroPad]
  exact max_eq_left ((Nat.length_toDigits_le_iff two some_width).2 fits)

/-- Padded to one width, a smaller number has the smaller digits. -/
theorem zeroPad_lt_zeroPad (two : 1 < base) (few : base ≤ 16) (some_width : 0 < width)
    (less : p < q) (fits : q < base ^ width) :
    zeroPad width (digits base p) < zeroPad width (digits base q) := by
  induction width, some_width using Nat.le_induction generalizing p q with
  | base =>
      rw [Nat.succ_eq_add_one, zero_add, pow_one] at fits
      unfold zeroPad digits
      rw [Nat.toDigits_of_lt_base fits, Nat.toDigits_of_lt_base (less.trans fits)]
      exact List.cons_lt_cons_iff.2 (Or.inl (digitChar_lt_digitChar less (fits.trans_le few)))
  | succ width some_width ih =>
      have front_fits : q / base < base ^ width :=
        Nat.div_lt_of_lt_mul (by rwa [pow_succ'] at fits)
      rw [zeroPad_succ two some_width, zeroPad_succ two some_width]
      rcases (Nat.div_le_div_right less.le : p / base ≤ q / base).lt_or_eq with front | same
      · refine append_lt_append ?_ (ih front front_fits) _ _
        rw [length_zeroPad_digits two some_width front_fits,
          length_zeroPad_digits two some_width (front.trans front_fits)]
      · have last : p % base < q % base := by
          have p_eq := Nat.div_add_mod p base
          have q_eq := Nat.div_add_mod q base
          rw [same] at p_eq
          omega
        have below := Nat.mod_lt q (Nat.zero_lt_of_lt two)
        rw [same]
        exact List.append_left_lt (List.cons_lt_cons_iff.2
          (Or.inl (digitChar_lt_digitChar last (below.trans_le few))))

theorem zeroPad_inj (two : 1 < base) (few : base ≤ 16) (some_width : 0 < width)
    (p_fits : p < base ^ width) (q_fits : q < base ^ width) :
    zeroPad width (digits base p) = zeroPad width (digits base q) ↔ p = q := by
  refine ⟨fun same => ?_, fun same => by rw [same]⟩
  rcases lt_trichotomy p q with less | equal | more
  · have before := zeroPad_lt_zeroPad two few some_width less q_fits
    rw [same] at before
    exact absurd before (List.lt_irrefl _)
  · exact equal
  · have before := zeroPad_lt_zeroPad two few some_width more p_fits
    rw [same] at before
    exact absurd before (List.lt_irrefl _)

theorem toList_hex (width n : Nat) : (hex width n).toList = zeroPad width (digits 16 n) := by
  rw [hex, String.toList_ofList, numeral, if_neg (by omega), Int.natAbs_natCast]

/-! ## The end of a text -/

/-- A text whose last characters were taken off, as long as they were `z`, is filled up again. -/
theorem eq_rdropWhile_append (z : Char) (s : List Char) :
    s = s.rdropWhile (· == z) ++ List.replicate (s.length - (s.rdropWhile (· == z)).length) z := by
  have joined : s.rdropWhile (· == z) ++ s.rtakeWhile (· == z) = s :=
    List.rdropWhile_append_rtakeWhile
  have ending : s.rtakeWhile (· == z) = List.replicate (s.rtakeWhile (· == z)).length z :=
    List.eq_replicate_of_mem fun c member =>
      beq_iff_eq.1 (List.mem_rtakeWhile_imp (p := (· == z)) member)
  have lengths := congrArg List.length joined
  rw [List.length_append] at lengths
  rw [show s.length - (s.rdropWhile (· == z)).length = (s.rtakeWhile (· == z)).length by omega,
    ← ending, joined]

/-- So texts of one length are told apart without their last characters, too. -/
theorem eq_of_rdropWhile_eq {z : Char} {s t : List Char} (same : s.length = t.length)
    (trimmed : s.rdropWhile (· == z) = t.rdropWhile (· == z)) : s = t := by
  rw [eq_rdropWhile_append z s, eq_rdropWhile_append z t, trimmed, same]

end Geofence.Text
