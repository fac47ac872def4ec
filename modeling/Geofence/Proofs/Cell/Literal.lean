/-
# Geofence.Proofs.Cell.Literal -- a cell in a command and in a file

An integer names the same cell on a command line as in a cell list, if a cell list
may hold it.  Otherwise the command refuses it as no cell, unless it is a negative
integer with too many bits whose last 64 are those of a cell
(`named_as_listed`): a command drops the other bits, a cell list does not.
-/
import Geofence.CommandLine.Command
import Geofence.Proofs.CellList.Line
import Geofence.Proofs.RangeFile.Opening
import Geofence.Proofs.RangeFile.Reader

namespace Geofence

set_option autoImplicit false

namespace Cell

open Text.Integer

variable {minus : Bool} {ds : List Char}

def lineOf (id : List Char) : List Char :=
  id ++ [',', '0']

/-- An integer below the signed words whose last 64 bits are those of a cell. -/
def Truncates (n : Int) : Prop :=
  n < -wordCount / 2 ∧ isValid (n % wordCount) = true

instance (n : Int) : Decidable (Truncates n) :=
  inferInstanceAs (Decidable (_ ∧ _))

theorem not_isValid_of_wordCount_le {c : Cell} (large : wordCount ≤ c) : isValid c = false := by
  have no_word : isWord c = false := by
    simp only [isWord, Bool.and_eq_false_iff, decide_eq_false_iff_not, not_lt]
    exact Or.inr large
  simp only [isValid, no_word, Bool.false_and]

theorem ofLine_lineOf (plain : Plain ds) (number : Int) :
    Listed.ofLine number (lineOf (signed minus ds)) =
      if -wordCount / 2 ≤ spelled minus ds ∧ spelled minus ds < wordCount then
        .ok { cell := spelled minus ds % wordCount, value := 0 }
      else .error (.lineOutside number (lineOf (signed minus ds))) := by
  have zero_read : Readable ['0'] := ⟨by simp, List.cons_ne_nil _ _, by norm_num [digitLimit]⟩
  have none_around : ∀ e ∈ ([] : List Char), Text.isSpace e = true := by simp
  have line_eq : lineOf (signed minus ds) =
      [] ++ signed minus ds ++ [] ++ ',' :: ([] ++ signed false ['0'] ++ []) := by
    simp [lineOf, signed]
  rw [Listed.ofLine_entry plain.toReadable zero_read none_around none_around none_around
    none_around line_eq number, show spelled false ['0'] = 0 from rfl]
  have room : (0 : Int) < Listed.valueCount := by norm_num [Listed.valueCount]
  simp only [room, le_refl, and_true]

theorem ofLiteral_signed (plain : Plain ds) :
    ofLiteral (signed minus ds) =
      .ok (if spelled minus ds < 0 then spelled minus ds % wordCount else spelled minus ds) := by
  rw [ofLiteral, literal_signed plain]
  rfl

/-- Decimal digits and their sign name the same cell on a command line as in a cell list that has
them.  What a cell list refuses names no cell, and no command looks it up, but for the integers
that are cut down to a cell. -/
theorem named_as_listed (plain : Plain ds) (number : Int) :
    (∀ entry, Listed.ofLine number (lineOf (signed minus ds)) = .ok entry →
      ofLiteral (signed minus ds) = .ok entry.cell) ∧
    ∀ fault, Listed.ofLine number (lineOf (signed minus ds)) = .error fault →
      fault = .lineOutside number (lineOf (signed minus ds)) ∧
      ∃ c, ofLiteral (signed minus ds) = .ok c ∧
        (isValid c = true ↔ Truncates (spelled minus ds)) ∧
        (¬Truncates (spelled minus ds) →
          ∀ (r : RangeFile.Reader) (others : List Cell) (output : String), r.closed = false →
            CommandLine.lookupLines (c :: others) r output =
              { output, result := .error (.invalidCell c) }) := by
  have half : -wordCount / 2 < 0 := by decide
  rw [ofLine_lineOf plain number, ofLiteral_signed plain]
  generalize spelled minus ds = n
  by_cases inside : -wordCount / 2 ≤ n ∧ n < wordCount
  · rw [if_pos inside]
    refine ⟨?_, nofun⟩
    rintro entry ⟨⟩
    split
    · rfl
    · rename_i positive
      exact congrArg Except.ok (Int.emod_eq_of_lt (not_lt.1 positive) inside.2).symm
  · rw [if_neg inside]
    refine ⟨nofun, ?_⟩
    rintro fault ⟨⟩
    have valid_iff : isValid (if n < 0 then n % wordCount else n) = true ↔ Truncates n := by
      split
      · rename_i negative
        have below : n < -wordCount / 2 := by
          by_contra above
          exact inside ⟨not_lt.1 above, negative.trans (by decide)⟩
        exact ⟨fun valid => ⟨below, valid⟩, fun truncates => truncates.2⟩
      · rename_i positive
        have large : wordCount ≤ n := by
          by_contra small
          exact inside ⟨half.le.trans (not_lt.1 positive), not_le.1 small⟩
        rw [not_isValid_of_wordCount_le large]
        exact ⟨fun valid => absurd valid Bool.false_ne_true,
          fun truncates => absurd (truncates.1.trans half) positive⟩
    refine ⟨rfl, _, rfl, valid_iff, ?_⟩
    intro kept r others output is_open
    have invalid := mt valid_iff.1 kept
    rw [CommandLine.lookupLines, RangeFile.Reader.find, is_open, if_neg Bool.false_ne_true,
      validate, if_neg invalid]

/-- A cell of face 4 in its signed form, and the least integer with 65 bits, which is no cell in any
file that was written. -/
theorem named_as_listed_signed :
    Listed.ofLine 1 (lineOf (signed true "6926329999746138112".toList)) =
        .ok { cell := 11520414073963413504, value := 0 } ∧
      ofLiteral (signed true "6926329999746138112".toList) = .ok 11520414073963413504 ∧
      ∃ r : RangeFile.Reader, r.closed = false ∧
        ofLiteral (signed false "18446744073709551616".toList) = .ok 18446744073709551616 ∧
        CommandLine.lookupLines [18446744073709551616] r "" =
          { output := "", result := .error (.invalidCell 18446744073709551616) } := by
  have signed_plain : Plain "6926329999746138112".toList :=
    { digits := by simp, some_digits := by decide, short := by decide +kernel
      no_zeros := by decide }
  have large_plain : Plain "18446744073709551616".toList :=
    { digits := by simp, some_digits := by decide, short := by decide +kernel
      no_zeros := by decide }
  have listed : Listed.ofLine 1 (lineOf (signed true "6926329999746138112".toList)) =
      .ok { cell := 11520414073963413504, value := 0 } := by decide +kernel
  have refused : Listed.ofLine 1 (lineOf (signed false "18446744073709551616".toList)) =
      .error (.lineOutside 1 (lineOf (signed false "18446744073709551616".toList))) := by
    decide +kernel
  have literal_eq : ofLiteral (signed false "18446744073709551616".toList) =
      .ok 18446744073709551616 := by decide +kernel
  obtain ⟨w, v, u, created, accepted, closed⟩ := RangeFile.exists_written_small
  obtain ⟨_, container, -, -, -, -, opened⟩ := RangeFile.Reader.opens_written
    (fun _ => Container.Frame.roundTrips) created accepted closed "small"
  have open_eq := (RangeFile.Reader.ofBytes_ok opened).1
  obtain ⟨-, c, named, -, no_cell⟩ := (named_as_listed large_plain 1).2 _ refused
  obtain rfl : 18446744073709551616 = c := Except.ok.inj (literal_eq.symm.trans named)
  exact ⟨listed, (named_as_listed signed_plain 1).1 _ listed, _, open_eq, literal_eq,
    no_cell (by decide +kernel) _ [] "" open_eq⟩

/-- The pole: 65 bits that are cut down to a cell of face 4. -/
theorem truncated_named :
    Listed.ofLine 1 (lineOf "-25373074073455689728".toList) =
        .error (.lineOutside 1 (lineOf "-25373074073455689728".toList)) ∧
      ofLiteral "-25373074073455689728".toList = .ok 11520414073963413504 ∧
      isValid 11520414073963413504 = true := by
  decide +kernel

end Cell

end Geofence
