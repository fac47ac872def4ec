/-
# Geofence.Proofs.Table.Ranges -- the ranges that a table answers with

The row of an arc stands for the range of that arc, but for its value in formats
without values (`Block.rangeOf_eq`).  The search for a cell ends on the row whose
arc holds the cell, and on none if there is no such arc (`Block.find_spec`).
-/
import Geofence.Proofs.Table.Block
import Geofence.Proofs.Table.Search

namespace Geofence

set_option autoImplicit false

/-- The arc as a file keeps it: formats without values keep a zero. -/
def Arc.stored (f : Format) (a : Arc) : Arc :=
  { a with value := if f.valueSize = 0 then 0 else a.value }

theorem Arc.Fits.stored {f : Format} {a : Arc} (fits : a.Fits f.level) :
    (a.stored f).Fits f.level where
  first_lt_past := fits.first_lt_past
  past_le_count := fits.past_le_count
  lastFace_of_past_eq := fits.lastFace_of_past_eq
  value_nonneg := by
    unfold Arc.stored
    dsimp only
    split
    · exact le_rfl
    · exact fits.value_nonneg

namespace Block

variable {f : Format} {p : Nat} {arcs : List Arc} {b : Block} {i : Nat}

namespace Holds

theorem tablePrefix_eq (holds : Holds f p arcs b) : b.tablePrefix = p := by
  cases holds with
  | empty => rfl
  | populated => rfl

theorem rows_eq (holds : Holds f p arcs b) : b.rows = (arcs.map (rowOf f)).toArray := by
  cases holds with
  | empty => rfl
  | populated _ rows_eq => exact rows_eq

theorem row_eq (holds : Holds f p arcs b) (inside : i < arcs.length) :
    b.row i = .ok (rowOf f arcs[i]) := by
  cases holds with
  | empty => simp at inside
  | @populated _ table _ rows_eq =>
      obtain ⟨layout, shared, rows⟩ := table
      dsimp only at rows_eq
      subst rows_eq
      rw [row, PackedTable.row, dif_pos (by simpa using inside)]
      simp

end Holds

theorem value_kept (f : Format) (p : Int) (inside : i < arcs.length) :
    SharedData.value {
      tablePrefix := p
      values := (SharedData.kept f (arcs.map Arc.value)).toArray } i =
        .ok (arcs[i].stored f).value := by
  unfold SharedData.value SharedData.kept Arc.stored
  by_cases without : f.valueSize = 0
  · simp [without]
  · have nonempty : arcs ≠ [] := by
      rintro rfl
      simp at inside
    have forward : ¬(i : Int) < 0 := by omega
    simp [without, nonempty, inside, forward]

namespace Rows

variable {a : Arc}

theorem live (rows : Rows f p arcs) (member : a ∈ arcs) : p < Partition.livePrefixes f := by
  have fits := rows.fits a member
  rw [← rows.prefix_eq a member]
  exact f.prefix_lt_livePrefixes (fits.first_lt_past.trans_le fits.past_le_count)

/-- An arc ends as many cells behind its prefix as its row says. -/
theorem past_eq (rows : Rows f p arcs) (member : a ∈ arcs) :
    a.past = p * f.prefixCells + ((rowOf f a).key + a.length) := by
  have nonempty := (rows.fits a member).first_lt_past
  have first_eq := rows.first_eq member
  simp only [rowOf, Arc.length]
  omega

theorem start_made (rows : Rows f p arcs) (member : a ∈ arcs) :
    f.cellOf p (rowOf f a).key = .ok (Cell.nth f.level a.first) := by
  have key_lt : (rowOf f a).key < f.prefixCells := Nat.mod_lt _ f.prefixCells_pos
  rw [f.cellOf_eq (f.livePrefix_le_greatestPrefix (rows.live member)) key_lt]
  congr 2
  exact (rows.first_eq member).symm

/-- The end that a row stands for lies in the prefix, or is the first cell behind it. -/
theorem stop_made (rows : Rows f p arcs) (member : a ∈ arcs) :
    (if (rowOf f a).key + a.length ≤ f.greatestSuffix then
      f.cellOf p ((rowOf f a).key + a.length : Nat) else f.cellPastPrefix p) =
        .ok (Cell.stopAt f.level a.past) := by
  have upper : (rowOf f a).key + a.length ≤ f.prefixCells := rows.key_add_le_prefixCells member
  rw [f.stop_eq (rows.live member) upper, ← rows.past_eq member]

end Rows

/-- The row of an arc stands for the range of the arc. -/
theorem rangeOf_eq (rows : Rows f p arcs) (holds : Holds f p arcs b) (inside : i < arcs.length) :
    ∃ q, b.rangeOf f i (rowOf f arcs[i]) = .ok q ∧ Partition.AtLevel f q ∧
      q.arc = arcs[i].stored f := by
  have member : arcs[i] ∈ arcs := List.getElem_mem inside
  generalize arc_eq : arcs[i] = a at member ⊢
  have nonempty := rows.length_pos member
  have upper : (rowOf f a).key + a.length ≤ f.prefixCells := rows.key_add_le_prefixCells member
  have start_made := rows.start_made member
  have stop_made := rows.stop_made member
  have whole : f.greatestSuffix + 1 = f.prefixCells := Nat.sub_add_cancel f.prefixCells_pos
  have length_eq : (f.lengthOfRowValue (rowOf f a).value).toNat = a.length := by
    rw [show (rowOf f a).value = a.length from rfl, f.lengthOfRowValue_eq (rows.short a member),
      Int.toNat_natCast]
  obtain ⟨q, made, placed, q_arc⟩ :=
    CellRange.exists_of_arc f.level_le (rows.fits a member).stored
  refine ⟨q, ?_, placed, q_arc⟩
  rw [rangeOf]
  simp only [holds.tablePrefix_eq, length_eq]
  rw [if_neg (by omega), if_neg nonempty.ne', start_made, Outcome.ok_bind, if_neg (by omega)]
  cases holds with
  | empty => simp at inside
  | populated =>
      have value_read := value_kept f p inside
      rw [arc_eq] at value_read
      by_cases ends : (rowOf f a).key + a.length ≤ f.greatestSuffix
      · rw [if_pos ends] at stop_made ⊢
        simp only [stop_made, Outcome.ok_bind, value_read]
        exact made
      · rw [if_neg ends] at stop_made ⊢
        simp only [stop_made, Outcome.ok_bind, value_read]
        exact made

/-- The guide to a cell of the prefix accepts the row of the arc that holds it. -/
theorem span_rowOf_eq_iff {k : Nat} {a : Arc} (rows : Rows f p arcs) (member : a ∈ arcs)
    (placed : k / f.prefixCells = p) :
    Guide.span (fun v => f.lengthOfRowValue v) (f.suffixOf (Cell.nth f.level k)) (rowOf f a) = .eq ↔
      a.first ≤ k ∧ k < a.past := by
  have split := Nat.div_add_mod' k f.prefixCells
  have first_eq := rows.first_eq member
  have nonempty := (rows.fits a member).first_lt_past
  rw [placed] at split
  rw [Guide.span_eq_eq_iff, f.suffixOf_nth]
  change _ ∧ _ < _ + f.lengthOfRowValue a.length ↔ _
  rw [f.lengthOfRowValue_eq (rows.short a member)]
  simp only [rowOf, Arc.length]
  omega

theorem leads_rows (rows : Rows f p arcs) (t : Int) :
    (Guide.span (fun v => f.lengthOfRowValue v) t).Leads (arcs.map (rowOf f)).toArray := by
  have length_eq : ∀ a ∈ arcs, f.lengthOfRowValue (rowOf f a).value = (a.length : Int) :=
    fun a member => f.lengthOfRowValue_eq (rows.short a member)
  refine Guide.leads_span ?_ ?_ t
  · intro r member
    simp only [List.mem_toArray, List.mem_map] at member
    obtain ⟨a, a_member, rfl⟩ := member
    rw [length_eq a a_member]
    exact Int.natCast_nonneg _
  · intro i j before inside
    simp only [List.size_toArray, List.length_map] at inside
    simp only [List.getElem_toArray, List.getElem_map]
    have i_member : arcs[i] ∈ arcs := List.getElem_mem _
    have j_member : arcs[j] ∈ arcs := List.getElem_mem _
    have ordered : arcs[i].Before arcs[j] :=
      List.pairwise_iff_getElem.1 rows.sorted i j (before.trans inside) inside before
    have apart := rows.key_add_le i_member j_member ordered
    rw [length_eq _ i_member]
    exact_mod_cast apart

/-- The search for a cell of the prefix ends on the arc that holds it, if there is one. -/
theorem find_spec {k : Nat} (rows : Rows f p arcs) (holds : Holds f p arcs b)
    (cell : k < Cell.count f.level) (placed : k / f.prefixCells = p) :
    (b.find f (Cell.nth f.level k) = .ok none ∧ ∀ a ∈ arcs, ¬(a.first ≤ k ∧ k < a.past)) ∨
      ∃ (i : Nat) (inside : i < arcs.length), b.find f (Cell.nth f.level k) = .ok (some i) ∧
        arcs[i].first ≤ k ∧ k < arcs[i].past := by
  have valid : Cell.validate (Cell.nth f.level k) = .ok (Cell.nth f.level k) := by
    rw [Cell.validate, if_pos (Cell.isValid_nth f.level_le cell)]
  have depth_eq := Cell.depth_nth f.level_le k
  have prefix_eq : f.prefixOf (Cell.nth f.level k) = b.tablePrefix := by
    rw [f.prefixOf_nth, placed, holds.tablePrefix_eq]
  unfold find
  rw [valid, Outcome.ok_bind, if_neg (not_not.2 depth_eq), if_neg (not_not.2 prefix_eq)]
  cases holds with
  | empty => exact Or.inl ⟨rfl, by simp⟩
  | @populated _ table _ rows_eq =>
      obtain ⟨layout, shared, table_rows⟩ := table
      dsimp only at rows_eq
      subst rows_eq
      cases outcome : (PackedTable.search ⟨layout, shared, (arcs.map (rowOf f)).toArray⟩
          (.span (fun v => f.lengthOfRowValue v) (f.suffixOf (Cell.nth f.level k)))).found with
      | none =>
          refine Or.inl ⟨by simp only [outcome]; rfl, ?_⟩
          intro a member
          obtain ⟨i, inside, rfl⟩ := List.mem_iff_getElem.1 member
          rw [← span_rowOf_eq_iff rows member placed]
          have missed := Search.not_accepted_of_not_found (leads_rows rows _) outcome
            (Nat.zero_le i) (by simpa using inside)
          simpa using missed
      | some i =>
          obtain ⟨below, accepted⟩ := Search.accepted_of_found outcome
          have inside : i < arcs.length := by simpa using below
          refine Or.inr ⟨i, inside, by simp only [outcome]; rfl, ?_⟩
          rw [← span_rowOf_eq_iff rows (List.getElem_mem inside) placed]
          simpa using accepted

end Block

end Geofence
