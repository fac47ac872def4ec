/-
# Geofence.Proofs.Build.Verify -- reading back what was built

A reader that serves the ranges of a cell list finds a cell just when it is
listed, with the value it has there (`Serves.answers`).  The check of a built
file asks for the listed cells and for two neighbours of them, so it passes on
every file that serves the ranges of its list (`verify_ok`).
-/
import Geofence.Build
import Geofence.Proofs.CellList.Merge
import Geofence.Proofs.RangeFile.Lookup
import Geofence.Proofs.RangeFile.Opening

namespace Geofence

set_option autoImplicit false

open CellList (Merged Normal)
open RangeFile (Expected Reader)

variable {f : Format} {ranges : List CellRange} {listed : List Listed}

/-! ## The cells around a list -/

/-- There are cells around a list, and those that are valid have its level. -/
theorem Build.neighbours_ok {l : Nat} (deep : l ≤ 30) (normal : Normal l listed) :
    ∃ around, Build.neighbours listed = .ok around ∧
      ∀ c ∈ around, Cell.isValid c = true → Cell.depth c = l := by
  unfold Build.neighbours
  split
  case h_2 => exact ⟨[], rfl, by simp⟩
  rename_i first last first_eq last_eq
  obtain ⟨i, i_inside, first_cell⟩ := normal.placed first (List.mem_of_head? first_eq)
  obtain ⟨j, j_inside, last_cell⟩ := normal.placed last (List.mem_of_getLast? last_eq)
  rw [last_cell, Cell.next_nth deep j_inside, Outcome.ok_bind, first_cell]
  refine ⟨_, rfl, ?_⟩
  intro c member valid
  simp only [List.mem_cons, List.not_mem_nil, or_false] at member
  rcases member with rfl | rfl
  · cases i with
    | zero =>
        rw [Cell.isValid_prev_first deep] at valid
        contradiction
    | succ i =>
        rw [Cell.prev_nth deep i_inside]
        exact Cell.depth_nth deep i
  · exact Cell.depth_stopAt deep _

/-! ## Answers -/

/-- A cell is found just when it is listed, with its value, or with 0 where no values are kept. -/
structure Answers (valueSize : Int) (listed : List Listed) (c : Cell) (found : Option CellRange) :
    Prop where
  found_iff : found.isSome = true ↔ ∃ x ∈ listed, x.cell = c
  value_eq : ∀ x ∈ listed, x.cell = c → ∀ q, found = some q →
    q.value = if valueSize = 0 then 0 else x.value

variable [Container.Compression] {r : Reader}

/-- A reader that serves the ranges of a list answers from the list. -/
theorem RangeFile.Reader.Serves.answers {c : Cell} (serves : r.Serves f ranges)
    (merged : Merged f.level listed ranges) (valid : Cell.isValid c = true)
    (depth_eq : Cell.depth c = f.level) :
    ∃ found, (r.find c).1 = .ok found ∧ Answers f.valueSize listed c found := by
  obtain ⟨found, answer, none_iff, around⟩ := serves.find_answers valid depth_eq
  obtain ⟨-, inside, c_eq⟩ := Cell.nth_index valid depth_eq
  generalize Cell.index c = k at inside c_eq
  subst c_eq
  have held_of_listed : ∀ x ∈ listed, x.cell = Cell.nth f.level k →
      ∃ s ∈ ranges, s.contains (Cell.nth f.level k) = true ∧ s.value = x.value := by
    rintro ⟨cell, value⟩ member rfl
    exact (merged.holds_iff k inside value).2 member
  refine ⟨found, answer, ⟨?_, ?_⟩, ?_⟩
  · intro some_found
    by_contra unlisted
    have outside : ∀ s ∈ ranges, s.contains (Cell.nth f.level k) = false := by
      intro s member
      rw [Bool.eq_false_iff]
      intro contains
      exact unlisted ⟨_, (merged.holds_iff k inside s.value).1 ⟨s, member, contains, rfl⟩, rfl⟩
    rw [none_iff.2 outside] at some_found
    contradiction
  · rintro ⟨x, member, cell_eq⟩
    obtain ⟨s, s_member, contains, -⟩ := held_of_listed x member cell_eq
    obtain ⟨q, found_eq, -⟩ := around s s_member contains
    rw [found_eq, Option.isSome_some]
  · intro x member cell_eq q found_eq
    obtain ⟨s, s_member, contains, value_eq⟩ := held_of_listed x member cell_eq
    obtain ⟨p, own, piece⟩ := around s s_member contains
    obtain rfl := Option.some.inj (found_eq.symm.trans own)
    simp only [piece.value_eq, value_eq, Nat.cast_eq_zero]

namespace Build

/-! ## Checking -/

theorem checkListed_ok {entries : List Listed} (path : String)
    (merged : Merged f.level listed ranges) (normal : Normal f.level listed)
    (among : ∀ x ∈ entries, x ∈ listed) (serves : r.Serves f ranges) :
    ∃ s, checkListed path f.valueSize entries r = .ok s ∧ s.Serves f ranges := by
  induction entries generalizing r with
  | nil => exact ⟨r, rfl, serves⟩
  | cons x entries ih =>
      obtain ⟨member, others⟩ := List.forall_mem_cons.1 among
      obtain ⟨k, inside, x_eq⟩ := normal.placed x member
      obtain ⟨found, answer, answers⟩ := serves.answers (c := x.cell) merged
        (x_eq ▸ Cell.isValid_nth f.level_le inside) (x_eq ▸ Cell.depth_nth f.level_le k)
      obtain ⟨q, rfl⟩ := Option.isSome_iff_exists.1 (answers.found_iff.2 ⟨x, member, rfl⟩)
      have value_eq := answers.value_eq x member rfl q rfl
      have as_listed : ¬((f.valueSize : Int) ≠ 0 ∧ q.value ≠ x.value) := by
        rintro ⟨kept, differs⟩
        rw [if_neg kept] at value_eq
        exact differs value_eq
      have lookup : r.find x.cell = (.ok (some q), (r.find x.cell).2) := Prod.ext answer rfl
      rw [checkListed, lookup]
      dsimp only
      rw [if_neg as_listed]
      exact ih others (serves.find x.cell)

theorem checkUnlisted_ok {cells : List Cell} (path : String)
    (merged : Merged f.level listed ranges)
    (atLevel : ∀ c ∈ cells, Cell.isValid c = true → Cell.depth c = f.level)
    (serves : r.Serves f ranges) : checkUnlisted path listed cells r = .ok () := by
  induction cells generalizing r with
  | nil => rfl
  | cons c cells ih =>
      obtain ⟨own, others⟩ := List.forall_mem_cons.1 atLevel
      rw [checkUnlisted]
      split
      case isFalse => exact ih others serves
      rename_i asked
      simp only [Bool.and_eq_true, Bool.not_eq_true', List.any_eq_false, beq_iff_eq] at asked
      obtain ⟨valid, unlisted⟩ := asked
      obtain ⟨found, answer, answers⟩ := serves.answers merged valid (own valid)
      have missed : found = none := by
        rw [← Option.not_isSome_iff_eq_none, answers.found_iff]
        rintro ⟨x, member, cell_eq⟩
        exact unlisted x member cell_eq
      rw [missed] at answer
      have lookup : r.find c = (.ok none, (r.find c).2) := Prod.ext answer rfl
      rw [lookup]
      exact ih others (serves.find c)

/-- A file that serves the ranges of a list passes the check of the list. -/
theorem verify_ok {d : Disk} {path : String}
    (opened : d.openRangeFile path Expected.nothing = .ok r) (serves : r.Serves f ranges)
    (merged : Merged f.level listed ranges) (normal : Normal f.level listed) :
    verify d path listed f.isAllowedList f.valueSize = .ok () := by
  obtain ⟨bytes, read, opened⟩ := Outcome.bind_eq_ok.1 opened
  have met : ({ Expected.nothing with
      isAllowedList := f.isAllowedList, valueSize := (f.valueSize : Int) } : Expected).check
        r.format = .ok () := by
    rw [serves.format_eq]
    simp [Expected.check, Expected.checkNumber, Expected.checkFlag, Expected.nothing]
    rfl
  obtain ⟨s, listed_found, serves_still⟩ :=
    checkListed_ok path merged normal (fun x member => member) serves
  obtain ⟨around, around_eq, atLevel⟩ := neighbours_ok f.level_le normal
  rw [verify, Disk.openRangeFile, read, Outcome.ok_bind, Reader.ofBytes_expected opened met,
    Outcome.ok_bind, listed_found, Outcome.ok_bind, around_eq, Outcome.ok_bind]
  exact checkUnlisted_ok path merged atLevel serves_still

end Build

end Geofence
