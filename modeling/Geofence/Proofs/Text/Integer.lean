/-
# Geofence.Proofs.Text.Integer -- integers that are written plainly

A sign, if any, and decimal digits are read as the number that they spell,
whatever blanks surround them (`decimal?_signed`).  A literal must not have
superfluous zeros in front, and then is read as the same number
(`literal_signed`).  A numeral of base ten is such a text and spells its number,
padded with zeros or not (`numeral_readable`).
-/
import Geofence.Text.Integer
import Mathlib

namespace Geofence.Text

set_option autoImplicit false

/-- A blank that may surround an integer. -/
def isSpace (c : Char) : Bool :=
  isAsciiBlank c || isWideBlank c

/-- Trimming takes off what surrounds a text that neither begins nor ends with such a character. -/
theorem trimBy_surrounded {p : Char → Bool} {left core right : List Char}
    (left_in : ∀ c ∈ left, p c = true) (right_in : ∀ c ∈ right, p c = true)
    (first_out : ∀ c ∈ core.head?, p c = false) (last_out : ∀ c ∈ core.getLast?, p c = false) :
    trimBy p (left ++ core ++ right) = core := by
  have right_reversed : ∀ c ∈ right.reverse, p c = true := by simpa using right_in
  rw [trimBy, List.append_assoc, List.dropWhile_append_of_pos left_in]
  cases core with
  | nil =>
      have none_left : right.dropWhile p = [] := List.dropWhile_eq_nil_iff.2 right_in
      simp [none_left]
  | cons c core =>
      rw [List.cons_append, List.dropWhile_cons_of_neg (by simp [first_out c rfl]),
        ← List.cons_append, List.reverse_append, List.dropWhile_append_of_pos right_reversed]
      have kept : (c :: core).reverse.dropWhile p = (c :: core).reverse := by
        cases last : (c :: core).reverse with
        | nil => rfl
        | cons d others =>
            have d_last : d ∈ (c :: core).getLast? := by
              rw [← List.head?_reverse, last, Option.mem_def, List.head?_cons]
            exact List.dropWhile_cons_of_neg (by simp [last_out d d_last])
      rw [kept, List.reverse_reverse]

namespace Integer

variable {minus : Bool} {ds left right : List Char}

def signed (minus : Bool) (ds : List Char) : List Char :=
  if minus then '-' :: ds else ds

def spelled (minus : Bool) (ds : List Char) : Int :=
  withSign minus (Nat.ofDigitChars 10 ds 0)

/-- One digit or more, no more than are read. -/
structure Readable (ds : List Char) : Prop where
  digits : ∀ c ∈ ds, c.isDigit = true
  some_digits : ds ≠ []
  short : ds.length ≤ digitLimit

/-- Digits that are read in a literal too, where the first must not be a superfluous zero. -/
structure Plain (ds : List Char) : Prop extends Readable ds where
  no_zeros : ds.head? = some '0' → ds = ['0']

theorem toNat_of_isDigit {c : Char} (digit : c.isDigit = true) : 48 ≤ c.toNat ∧ c.toNat ≤ 57 := by
  simpa [Char.isDigit, UInt32.le_iff_toNat_le] using digit

theorem digitValue?_of_isDigit {c : Char} (digit : c.isDigit = true) :
    digitValue? 10 c = some (c.toNat - 48) := by
  have bounds := toNat_of_isDigit digit
  have below : c.toNat - 48 < 10 := by omega
  simp only [digitValue?, if_pos bounds, if_pos below]

theorem digitRun?_of_digits (digits : ∀ c ∈ ds, c.isDigit = true) (some_digits : ds ≠ []) :
    digitRun? 10 ds = some (ds.map fun c => c.toNat - 48) := by
  induction ds with
  | nil => exact absurd rfl some_digits
  | cons c rest ih =>
      obtain ⟨own, others⟩ := List.forall_mem_cons.1 digits
      cases rest with
      | nil => simp [digitRun?, digitValue?_of_isDigit own]
      | cons d rest =>
          have no_underscore : d ≠ '_' := by
            rintro rfl
            exact absurd (others _ List.mem_cons_self) (by decide)
          rw [digitRun?, digitValue?_of_isDigit own, ih others (List.cons_ne_nil _ _)]
          · rfl
          · simp
          · rintro _ ⟨rfl, -⟩
            exact no_underscore rfl

theorem ofDigits_eq (ds : List Char) :
    ofDigits 10 (ds.map fun c => c.toNat - 48) = Nat.ofDigitChars 10 ds 0 := by
  rw [ofDigits, List.foldl_map, Nat.ofDigitChars]
  simp only [Nat.mul_comm]
  rfl

theorem toAscii_of_lt {c : Char} (ascii : c.toNat < 0x80) : toAscii c = c :=
  if_pos ascii

theorem isAsciiBlank_toAscii {c : Char} (space : isSpace c = true) :
    isAsciiBlank (toAscii c) = true := by
  rcases Bool.or_eq_true_iff.1 space with ascii | wide
  · have low : c.toNat < 0x80 := by
      simp only [isAsciiBlank, Bool.or_eq_true, Bool.and_eq_true, decide_eq_true_eq,
        beq_iff_eq] at ascii
      omega
    rwa [toAscii_of_lt low]
  · have high : ¬c.toNat < 0x80 := by
      simp only [isWideBlank, Bool.or_eq_true, Bool.and_eq_true, decide_eq_true_eq,
        beq_iff_eq] at wide
      omega
    rw [toAscii, if_neg high, if_pos wide]
    decide

theorem not_isAsciiBlank_of_isDigit {c : Char} (digit : c.isDigit = true) :
    isAsciiBlank c = false := by
  have bounds := toNat_of_isDigit digit
  simp only [isAsciiBlank, Bool.or_eq_false_iff, Bool.and_eq_false_iff, decide_eq_false_iff_not,
    beq_eq_false_iff_ne]
  omega

theorem mem_signed {c : Char} (member : c ∈ signed minus ds) : c = '-' ∨ c ∈ ds := by
  cases minus with
  | false => exact Or.inr member
  | true => exact List.mem_cons.1 member

theorem bare_signed (digits : ∀ c ∈ ds, c.isDigit = true)
    (left_spaces : ∀ c ∈ left, isSpace c = true) (right_spaces : ∀ c ∈ right, isSpace c = true) :
    bare (left ++ signed minus ds ++ right) = signed minus ds := by
  have kept : (signed minus ds).map toAscii = signed minus ds := by
    refine (List.map_congr_left fun c member => ?_).trans (List.map_id _)
    rcases mem_signed member with rfl | digit
    · rfl
    · have bounds := toNat_of_isDigit (digits c digit)
      exact toAscii_of_lt (by omega)
  have solid : ∀ c ∈ signed minus ds, isAsciiBlank c = false := by
    intro c member
    rcases mem_signed member with rfl | digit
    · rfl
    · exact not_isAsciiBlank_of_isDigit (digits c digit)
  rw [bare, List.map_append, List.map_append, kept]
  exact trimBy_surrounded
    (by simpa using fun c member => isAsciiBlank_toAscii (left_spaces c member))
    (by simpa using fun c member => isAsciiBlank_toAscii (right_spaces c member))
    (fun c member => solid c (List.mem_of_mem_head? member))
    (fun c member => solid c (List.mem_of_mem_getLast? member))

theorem splitSign_signed (digits : ∀ c ∈ ds, c.isDigit = true) :
    splitSign (signed minus ds) = (minus, ds) := by
  cases minus with
  | true => rfl
  | false =>
      change splitSign ds = (false, ds)
      unfold splitSign
      split
      · exact absurd (digits '-' List.mem_cons_self) (by decide)
      · exact absurd (digits '+' List.mem_cons_self) (by decide)
      · rfl

/-- Digits and their sign are read as the number that they spell, whatever blanks surround them. -/
theorem decimal?_signed (readable : Readable ds) (left_spaces : ∀ c ∈ left, isSpace c = true)
    (right_spaces : ∀ c ∈ right, isSpace c = true) :
    decimal? (left ++ signed minus ds ++ right) = some (spelled minus ds) := by
  have short : ¬digitLimit < (ds.map fun c => c.toNat - 48).length := by
    simpa using readable.short
  rw [decimal?, bare_signed readable.digits left_spaces right_spaces,
    splitSign_signed readable.digits]
  simp only [digitRun?_of_digits readable.digits readable.some_digits, ofDigits_eq,
    Option.bind_some, Option.bind_eq_bind, if_neg short]
  rfl

theorem splitMark?_of_digits (digits : ∀ c ∈ ds, c.isDigit = true) : splitMark? ds = none := by
  unfold splitMark?
  split
  · rename_i mark rest
    have no_letter (c : Char) (letter : c.isDigit = false) : mark ≠ c := by
      rintro rfl
      exact Bool.false_ne_true (letter.symm.trans (digits mark (by simp)))
    simp [no_letter 'x' rfl, no_letter 'X' rfl, no_letter 'o' rfl, no_letter 'O' rfl,
      no_letter 'b' rfl, no_letter 'B' rfl]
  · rfl

/-- Where no zero is superfluous a literal is read as the same number. -/
theorem literal_signed (plain : Plain ds) :
    literal (signed minus ds) = .ok (spelled minus ds) := by
  have readable := plain.toReadable
  have none_around : ∀ c ∈ ([] : List Char), isSpace c = true := nofun
  have bare_eq : bare (signed minus ds) = signed minus ds := by
    have surrounded : bare ([] ++ signed minus ds ++ []) = signed minus ds :=
      bare_signed readable.digits none_around none_around
    rwa [List.nil_append, List.append_nil] at surrounded
  have run_eq : (ds.takeWhile fun c => c.isDigit || c == '_') = ds :=
    List.takeWhile_eq_self_iff.2 fun c member => by simp [readable.digits c member]
  have short : ¬digitLimit < (ds.map fun c => c.toNat - 48).length := by
    simpa using readable.short
  have complete : ¬(ds.length < ds.length ∨
      ds.head? = some '0' ∧ Nat.ofDigitChars 10 ds 0 ≠ 0) := by
    rintro (less | ⟨zero, some_number⟩)
    · exact less.false
    · rw [plain.no_zeros zero] at some_number
      exact some_number rfl
  unfold literal
  rw [bare_eq, splitSign_signed readable.digits]
  simp only [splitMark?_of_digits readable.digits, run_eq,
    digitRun?_of_digits readable.digits readable.some_digits, if_neg short, ofDigits_eq,
    if_neg complete]
  rfl

/-! ## Numerals -/

/-- A numeral is digits behind a sign: those of the number, with zeros in front. -/
theorem numeral_eq_signed (width : Nat) (n : Int) : ∃ minus zeros,
    numeral 10 width n = signed minus (List.replicate zeros '0' ++ Nat.toDigits 10 n.natAbs) ∧
      zeros + (Nat.toDigits 10 n.natAbs).length ≤ max width (Nat.toDigits 10 n.natAbs).length ∧
      withSign minus n.natAbs = n := by
  by_cases negative : n < 0
  · refine ⟨true, width - 1 - (digits 10 n.natAbs).length, ?_, ?_, ?_⟩
    · rw [numeral, if_pos negative]
      rfl
    · rw [digits]
      omega
    · rw [withSign, if_pos rfl]
      omega
  · refine ⟨false, width - (digits 10 n.natAbs).length, ?_, ?_, ?_⟩
    · rw [numeral, if_neg negative]
      rfl
    · rw [digits]
      omega
    · rw [withSign, if_neg Bool.false_ne_true]
      omega

theorem ofDigitChars_replicate (zeros : Nat) (ds : List Char) :
    Nat.ofDigitChars 10 (List.replicate zeros '0' ++ ds) 0 = Nat.ofDigitChars 10 ds 0 := by
  induction zeros with
  | zero => rfl
  | succ zeros ih =>
      rw [List.replicate_succ, List.cons_append, Nat.ofDigitChars_cons]
      exact ih

/-- A numeral is digits behind a sign that spell its number, if it has no more digits than are
read. -/
theorem numeral_readable {width : Nat} {n : Int} (narrow : width ≤ digitLimit)
    (small : n.natAbs < 10 ^ digitLimit) :
    ∃ minus ds, numeral 10 width n = signed minus ds ∧ Readable ds ∧ spelled minus ds = n := by
  obtain ⟨minus, zeros, numeral_eq, length_le, sign_eq⟩ := numeral_eq_signed width n
  have digits_le := (Nat.length_toDigits_le_iff (b := 10) (by decide) (by decide)).2 small
  refine ⟨minus, List.replicate zeros '0' ++ Nat.toDigits 10 n.natAbs, numeral_eq, ⟨?_, ?_, ?_⟩, ?_⟩
  · intro c member
    rcases List.mem_append.1 member with zero | digit
    · rw [List.eq_of_mem_replicate zero]
      decide
    · exact Nat.isDigit_of_mem_toDigits (by decide) (by decide) digit
  · exact List.append_ne_nil_of_right_ne_nil _ (List.length_pos_iff.1 Nat.length_toDigits_pos)
  · rw [List.length_append, List.length_replicate]
    omega
  · rw [spelled, ofDigitChars_replicate, Nat.ofDigitChars_toDigits (by decide) (by decide), sign_eq]

end Integer

end Geofence.Text
