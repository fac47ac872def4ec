/-
# Geofence.Proofs.CellList.Text -- which texts are cell lists

Bytes are read as a cell list just when they are a UTF-8 text of which every line
that is not blank names a cell and a value (`ofBytes_eq_ok_iff`).  What is read
are words of 64 and of 32 bits.
-/
import Geofence.CellList.Text
import Geofence.Proofs.Outcome

namespace Geofence

set_option autoImplicit false

/-- A cell and its value are read as words. -/
theorem Listed.bounds_of_ofLine {number : Int} {line : List Char} {x : Listed}
    (read : ofLine number line = .ok x) :
    0 ≤ x.cell ∧ x.cell < Cell.wordCount ∧ 0 ≤ x.value ∧ x.value < valueCount := by
  have words : 0 < Cell.wordCount := by decide
  unfold ofLine at read
  split at read
  · split at read
    · split at read
      · rename_i inside
        obtain rfl := Except.ok.inj read
        exact ⟨Int.emod_nonneg _ words.ne', Int.emod_lt_of_pos _ words, inside.2.2⟩
      · contradiction
    · contradiction
  · contradiction

namespace CellList

/-- The bytes are a text whose lines, but for the blank ones, name these cells and values. -/
def Spelled (bytes : ByteArray) (entries : List Listed) : Prop :=
  ∃ text, bytes.utf8Decode? = some text ∧
    List.Forall₂ (fun line x => Listed.ofLine line.2 line.1 = .ok x)
      (numbered (Text.lines text.toList)) entries

variable {bytes : ByteArray} {entries : List Listed}

theorem failed_decode : (Text.Utf8.decode bytes).failed = bytes.utf8Decode?.isNone := by
  unfold Text.Utf8.decode
  cases bytes.utf8Decode? with
  | some text => rfl
  | none =>
      dsimp only
      split <;> rfl

theorem ofBytes_eq_ok_iff : ofBytes bytes = .ok entries ↔ Spelled bytes entries := by
  unfold ofBytes Spelled
  dsimp only
  rw [failed_decode]
  cases decoded : bytes.utf8Decode? with
  | some text =>
      rw [Text.Utf8.decode, decoded]
      simp only [Option.isNone_some, Bool.false_eq_true, if_false, ofLines,
        Outcome.mapM_eq_ok_iff, Option.some.injEq, exists_eq_left']
  | none =>
      -- bytes that are no text are refused, whichever lines were seen before
      refine iff_of_false ?_ (by simp)
      rw [Option.isNone_none, if_pos rfl]
      intro read
      obtain ⟨_, -, read⟩ := Outcome.bind_eq_ok.1 read
      contradiction

theorem Spelled.value_nonneg (spelled : Spelled bytes entries) : ∀ x ∈ entries, 0 ≤ x.value := by
  obtain ⟨text, -, related⟩ := spelled
  intro x member
  obtain ⟨i, inside, rfl⟩ := List.mem_iff_getElem.1 member
  have read := related.get (related.length_eq ▸ inside) inside
  exact (Listed.bounds_of_ofLine read).2.2.1

end CellList

end Geofence
