/-
# Geofence.Proofs.Format.Preset -- which settled layouts there are

A settled layout is a format whenever the size of the values and the version are
in range (`exists_ofPreset`), and it says what was asked for
(`ofPreset_spec`).
-/
import Geofence.Format.Preset
import Mathlib

namespace Geofence.Format

set_option autoImplicit false

variable {f : Format} {level valueSize version : Int} {isAllowedList : Bool}

theorem fields_of_ofFields {x : Fields} (made : ofFields x = .ok f) : f.fields = x := by
  obtain ⟨l, p, s, t, r, a, v, n⟩ := x
  unfold ofFields at made
  dsimp only at made
  split at made
  case isFalse => cases made
  split at made
  case isFalse => cases made
  split at made
  case isFalse => cases made
  split at made
  case isFalse => cases made
  split at made
  case isFalse => cases made
  split at made
  case isFalse => cases made
  split at made
  case isFalse => cases made
  split at made
  case isFalse => cases made
  split at made
  case isFalse => cases made
  obtain rfl := Except.ok.inj made
  simp only [fields, rowBits, Fields.mk.injEq, true_and]
  omega

theorem find?_of_mem {p : Preset} (member : p ∈ Preset.all) : Preset.find? p.level = some p := by
  simp only [Preset.all, List.mem_cons, List.not_mem_nil, or_false] at member
  obtain rfl | rfl | rfl := member <;> rfl

theorem ofPreset_eq {p : Preset} (member : p ∈ Preset.all) (isAllowedList : Bool)
    (valueSize version : Int) : ofPreset p.level isAllowedList valueSize version = ofFields {
      level := p.level
      prefixBits := 3 + 2 * p.prefixLevel
      suffixBits := 2 * (p.level - p.prefixLevel)
      firstTable := p.firstTable
      rowBits := p.rowBits
      isAllowedList, valueSize, version } := by
  rw [ofPreset, find?_of_mem member]

/-- A settled layout says what was asked for, and its numbers are small. -/
theorem ofPreset_spec (made : ofPreset level isAllowedList valueSize version = .ok f) :
    (∃ p ∈ Preset.all, (p.level : Int) = level) ∧ (f.level : Int) = level ∧
      f.isAllowedList = isAllowedList ∧ (f.valueSize : Int) = valueSize ∧
      (f.version : Int) = version ∧ f.firstTable = 5 ∧ f.prefixBits ≤ 15 ∧ f.suffixBits ≤ 20 := by
  rw [ofPreset] at made
  cases found : Preset.find? level with
  | none =>
      rw [found] at made
      cases made
  | some p =>
      rw [found] at made
      have member : p ∈ Preset.all := List.mem_of_find?_eq_some found
      have level_eq : (p.level : Int) = level := by simpa using List.find?_some found
      have numbers := fields_of_ofFields made
      simp only [fields, Fields.mk.injEq] at numbers
      obtain ⟨level_kept, prefixBits_eq, suffixBits_eq, firstTable_eq, -, flag_eq, valueSize_eq,
        version_eq⟩ := numbers
      have small : (p.prefixLevel : Int) ≤ 6 ∧ (p.level : Int) - p.prefixLevel ≤ 10 ∧
          p.firstTable = 5 := by
        simp only [Preset.all, List.mem_cons, List.not_mem_nil, or_false] at member
        obtain rfl | rfl | rfl := member <;> decide
      exact ⟨⟨p, member, level_eq⟩, level_kept, flag_eq, valueSize_eq, version_eq, by omega,
        by omega, by omega⟩

/-- A settled layout is a format when its sizes are in range. -/
theorem exists_ofPreset (preset : ∃ p ∈ Preset.all, (p.level : Int) = level)
    (valueSize_range : 0 ≤ valueSize ∧ valueSize ≤ 4) (version_nonneg : 0 ≤ version) :
    ∃ f, ofPreset level isAllowedList valueSize version = .ok f := by
  obtain ⟨p, member, rfl⟩ := preset
  rw [ofPreset_eq member]
  simp only [Preset.all, List.mem_cons, List.not_mem_nil, or_false] at member
  unfold ofFields
  obtain rfl | rfl | rfl := member <;>
  · dsimp only
    rw [dif_pos (by omega), dif_pos (by omega), dif_pos (by omega), dif_pos (by omega),
      dif_pos (by omega), dif_pos (by omega), dif_pos (by omega), dif_pos (by omega),
      if_pos (by omega)]
    exact ⟨_, rfl⟩

end Geofence.Format
