/-
# Geofence.Proofs.Range.Arc -- ranges as intervals of numbers

A range of cells of one level is an interval of their numbers and a value: an
`Arc`.  On the numbers nothing wraps, so order, membership and cutting are plain
arithmetic.  `CellRange.arc` reads the arc of a range, `Arc.span` writes it, and
`Arc.Fits` says which arcs are ranges: those that lie among the cells of their
level, where one that runs to the end of face 5 must start on face 5.

`Arc.cut` cuts an arc at marks.  The parts tile the arc (`tiles_cut`): each
starts where the one before ends.
-/
import Geofence.CellRange
import Geofence.Proofs.Cell.Index

namespace Geofence

set_option autoImplicit false

/-- The cells with numbers from `first` up to, but without, `past`, and their value. -/
@[ext]
structure Arc where
  first : Nat
  past : Nat
  value : Int
  deriving DecidableEq, Repr

namespace Arc

def length (a : Arc) : Nat :=
  a.past - a.first

def span (level : Nat) (a : Arc) : Span where
  start := Cell.nth level a.first
  stop := Cell.stopAt level a.past
  value := a.value

structure Fits (level : Nat) (a : Arc) : Prop where
  first_lt_past : a.first < a.past
  past_le_count : a.past ≤ Cell.count level
  lastFace_of_past_eq : a.past = Cell.count level → 5 * 4 ^ level ≤ a.first
  value_nonneg : 0 ≤ a.value

/-- `a` ends before `b` starts, or where it starts. -/
def Before (a b : Arc) : Prop :=
  a.past ≤ b.first

instance (a b : Arc) : Decidable (a.Before b) :=
  inferInstanceAs (Decidable (_ ≤ _))

theorem eq_of_pairwise {arcs : List Arc} {a b : Arc} {k : Nat} (sorted : arcs.Pairwise Before)
    (a_member : a ∈ arcs) (b_member : b ∈ arcs) (a_holds : a.first ≤ k ∧ k < a.past)
    (b_holds : b.first ≤ k ∧ k < b.past) : a = b := by
  induction sorted with
  | nil => simp at a_member
  | @cons c arcs before _ ih =>
      rcases List.mem_cons.1 a_member with rfl | a_later <;>
        rcases List.mem_cons.1 b_member with rfl | b_later
      · rfl
      · have : a.past ≤ b.first := before b b_later
        omega
      · have : b.past ≤ a.first := before a a_later
        omega
      · exact ih a_later b_later

/-! ## Cutting -/

/-- The parts of an arc between marks, where `next k` is the first mark behind `k`. -/
def cut (next : Nat → Nat) (a : Arc) : List Arc :=
  if a.first < next a.first ∧ next a.first < a.past then
    { a with past := next a.first } :: cut next { a with first := next a.first }
  else [a]
termination_by a.past - a.first

/-- The arcs lie one behind the other, without gaps, from `first` up to `past`. -/
inductive Tiles : Nat → Nat → List Arc → Prop where
  | nil (k : Nat) : Tiles k k []
  | cons (a : Arc) {past : Nat} {arcs : List Arc} (nonempty : a.first < a.past)
      (rest : Tiles a.past past arcs) : Tiles a.first past (a :: arcs)

namespace Tiles

variable {first past : Nat} {arcs : List Arc}

theorem le (tiles : Tiles first past arcs) : first ≤ past := by
  induction tiles with
  | nil => exact le_refl _
  | cons a nonempty _ ih => omega

theorem bounds (tiles : Tiles first past arcs) {a : Arc} (member : a ∈ arcs) :
    first ≤ a.first ∧ a.first < a.past ∧ a.past ≤ past := by
  induction tiles with
  | nil => simp at member
  | cons b nonempty rest ih =>
      rcases List.mem_cons.1 member with rfl | later
      · exact ⟨le_refl _, nonempty, rest.le⟩
      · obtain ⟨lower, between, upper⟩ := ih later
        exact ⟨by omega, between, upper⟩

theorem pairwise (tiles : Tiles first past arcs) : arcs.Pairwise Before := by
  induction tiles with
  | nil => exact List.Pairwise.nil
  | cons a _ rest ih => exact List.pairwise_cons.2 ⟨fun b later => (rest.bounds later).1, ih⟩

theorem covers (tiles : Tiles first past arcs) {k : Nat} (lower : first ≤ k) (upper : k < past) :
    ∃ a ∈ arcs, a.first ≤ k ∧ k < a.past := by
  induction tiles with
  | nil => omega
  | cons a _ _ ih =>
      by_cases inside : k < a.past
      · exact ⟨a, List.mem_cons_self, lower, inside⟩
      · obtain ⟨b, later, held⟩ := ih (by omega) upper
        exact ⟨b, List.mem_cons_of_mem _ later, held⟩

theorem append {middle : Nat} {more : List Arc} (tiles : Tiles first middle arcs)
    (others : Tiles middle past more) : Tiles first past (arcs ++ more) := by
  induction tiles with
  | nil => exact others
  | cons a nonempty _ ih => exact .cons a nonempty (ih others)

theorem flatMap {g : Arc → List Arc} (tiles : Tiles first past arcs)
    (each : ∀ a ∈ arcs, Tiles a.first a.past (g a)) : Tiles first past (arcs.flatMap g) := by
  induction tiles with
  | nil => exact .nil _
  | cons a _ _ ih =>
      obtain ⟨own, others⟩ := List.forall_mem_cons.1 each
      rw [List.flatMap_cons]
      exact own.append (ih others)

end Tiles

variable {next : Nat → Nat} {a : Arc}

theorem tiles_cut (nonempty : a.first < a.past) : Tiles a.first a.past (a.cut next) := by
  fun_induction cut next a with
  | case1 a marked ih => exact .cons { a with past := next a.first } marked.1 (ih marked.2)
  | case2 a whole => exact .cons a nonempty (.nil _)

theorem value_of_mem_cut {b : Arc} (member : b ∈ a.cut next) : b.value = a.value := by
  fun_induction cut next a with
  | case1 a marked ih =>
      rcases List.mem_cons.1 member with rfl | later
      · rfl
      · exact ih later
  | case2 a whole => rw [List.mem_singleton.1 member]

/-- No part runs past the first mark behind its start. -/
theorem past_le_next_of_mem_cut (ahead : ∀ k, k < next k) {b : Arc} (member : b ∈ a.cut next) :
    b.past ≤ next b.first := by
  fun_induction cut next a with
  | case1 a marked ih =>
      rcases List.mem_cons.1 member with rfl | later
      · exact le_refl _
      · exact ih later
  | case2 a whole =>
      rw [List.mem_singleton.1 member]
      have := ahead a.first
      omega

theorem cut_eq_self (short : a.past ≤ next a.first) : a.cut next = [a] := by
  rw [cut, if_neg (by omega)]

theorem cut_eq_cons (marked : a.first < next a.first ∧ next a.first < a.past) :
    a.cut next = { a with past := next a.first } :: cut next { a with first := next a.first } := by
  rw [cut, if_pos marked]

theorem cut_ne_nil : a.cut next ≠ [] := by
  rw [cut]
  split <;> simp

/-- An arc that is not empty is cut into parts that lie before another where it does. -/
theorem cut_before_iff {b : Arc} (a_nonempty : a.first < a.past) (b_nonempty : b.first < b.past) :
    (∀ x ∈ a.cut next, ∀ y ∈ b.cut next, x.Before y) ↔ a.Before b := by
  have a_tiles : Tiles a.first a.past (a.cut next) := tiles_cut a_nonempty
  have b_tiles : Tiles b.first b.past (b.cut next) := tiles_cut b_nonempty
  constructor
  · intro all
    obtain ⟨x, x_member, -, x_upper⟩ := a_tiles.covers (k := a.past - 1) (by omega) (by omega)
    obtain ⟨y, y_member, y_lower, -⟩ := b_tiles.covers le_rfl b_nonempty
    have between : x.past ≤ y.first := all x x_member y y_member
    exact (by omega : a.past ≤ b.first)
  · intro before x x_member y y_member
    exact (a_tiles.bounds x_member).2.2.trans (before.trans (b_tiles.bounds y_member).1)

/-- Cutting leaves arcs in order, and does not bring them into order. -/
theorem pairwise_flatMap_cut {arcs : List Arc} (nonempty : ∀ a ∈ arcs, a.first < a.past) :
    (arcs.flatMap (cut next)).Pairwise Before ↔ arcs.Pairwise Before := by
  rw [List.pairwise_flatMap]
  constructor
  · rintro ⟨-, apart⟩
    exact apart.imp_of_mem fun a_member b_member all =>
      (cut_before_iff (nonempty _ a_member) (nonempty _ b_member)).1 all
  · intro sorted
    refine ⟨fun a member => (tiles_cut (nonempty a member)).pairwise, ?_⟩
    exact sorted.imp_of_mem fun a_member b_member before =>
      (cut_before_iff (nonempty _ a_member) (nonempty _ b_member)).2 before

/-- Arcs of which each ends before the next starts are in order altogether. -/
theorem isChain_iff_pairwise {arcs : List Arc} (nonempty : ∀ a ∈ arcs, a.first < a.past) :
    arcs.IsChain Before ↔ arcs.Pairwise Before := by
  refine ⟨?_, List.Pairwise.isChain⟩
  intro chain
  induction chain with
  | nil => exact .nil
  | singleton a => exact List.pairwise_singleton _ a
  | @cons_cons a b arcs before _ ih =>
      obtain ⟨-, others⟩ := List.forall_mem_cons.1 nonempty
      have sorted := ih others
      refine List.pairwise_cons.2 ⟨?_, sorted⟩
      intro c member
      rcases List.mem_cons.1 member with rfl | later
      · exact before
      · have beyond : b.past ≤ c.first := (List.pairwise_cons.1 sorted).1 c later
        exact before.trans ((others b List.mem_cons_self).le.trans beyond)

/-- Inside an arc that fits there is room for every shorter one that ends where it does. -/
theorem Fits.of_bounds {level : Nat} {b : Arc} (fits : a.Fits level) (lower : a.first ≤ b.first)
    (nonempty : b.first < b.past) (upper : b.past ≤ a.past) (value : b.value = a.value) :
    b.Fits level where
  first_lt_past := nonempty
  past_le_count := upper.trans fits.past_le_count
  lastFace_of_past_eq := fun last => by
    have := fits.past_le_count
    have := fits.lastFace_of_past_eq (by omega)
    omega
  value_nonneg := value ▸ fits.value_nonneg

theorem Fits.of_mem_cut {level : Nat} {b : Arc} (fits : a.Fits level) (member : b ∈ a.cut next) :
    b.Fits level := by
  obtain ⟨lower, nonempty, upper⟩ := (tiles_cut fits.first_lt_past).bounds member
  exact fits.of_bounds lower nonempty upper (value_of_mem_cut member)

end Arc

/-! ## The arc of a range -/

namespace CellRange

def arc (r : CellRange) : Arc where
  first := Cell.index r.start
  past := if r.wraps then Cell.count (Cell.depth r.start).toNat else Cell.index r.stop
  value := r.value

@[simp] theorem arc_value (r : CellRange) : r.arc.value = r.value := rfl

variable {l : Nat}

/-- The two ways in which a range can end. -/
theorem stop_cases (r : CellRange) (placed : Cell.depth r.start = l) :
    (r.wraps = true ∧ r.arc.past = Cell.count l ∧ r.stop = Cell.nth l 0 ∧
        5 * 4 ^ l ≤ r.arc.first) ∨
      (r.wraps = false ∧ r.arc.first < r.arc.past ∧ r.arc.past < Cell.count l ∧
        r.stop = Cell.nth l r.arc.past) := by
  obtain ⟨deep, inside, start_eq⟩ := Cell.nth_index r.start_valid placed
  obtain ⟨-, stop_inside, stop_eq⟩ := Cell.nth_index r.stop_valid (r.depth_eq ▸ placed)
  cases wraps : r.wraps with
  | true =>
      have same := wraps
      rw [CellRange.wraps, ← start_eq, ← stop_eq, Cell.wrapsTo_nth deep, Cell.face_nth deep] at same
      obtain ⟨onLast, zero⟩ := same
      refine Or.inl ⟨rfl, ?_, ?_, ?_⟩
      · simp [arc, wraps, placed]
      · rw [← stop_eq, zero]
      · have : Cell.index r.start / 4 ^ l = 5 := by exact_mod_cast onLast
        have lower := Nat.div_mul_le_self (Cell.index r.start) (4 ^ l)
        rwa [this] at lower
  | false =>
      have forward : r.start < r.stop := by
        rcases r.ordered with forward | wrapped
        · exact forward
        · rw [CellRange.wraps, wrapped] at wraps
          contradiction
      rw [← start_eq, ← stop_eq, Cell.nth_lt_nth] at forward
      refine Or.inr ⟨rfl, ?_, ?_, ?_⟩
      · simpa [arc, wraps] using forward
      · simpa [arc, wraps] using stop_inside
      · simpa [arc, wraps] using stop_eq.symm

theorem fits_arc (r : CellRange) (placed : Cell.depth r.start = l) : r.arc.Fits l := by
  obtain ⟨deep, inside, -⟩ := Cell.nth_index r.start_valid placed
  rcases r.stop_cases placed with ⟨-, past_eq, -, onLast⟩ | ⟨-, forward, below, -⟩
  · exact ⟨past_eq ▸ inside, past_eq.le, fun _ => onLast, r.value_nonneg⟩
  · exact ⟨forward, below.le, fun last => by omega, r.value_nonneg⟩

theorem start_eq_nth (r : CellRange) (placed : Cell.depth r.start = l) :
    r.start = Cell.nth l r.arc.first :=
  (Cell.nth_index r.start_valid placed).2.2.symm

theorem stop_eq_stopAt (r : CellRange) (placed : Cell.depth r.start = l) :
    r.stop = Cell.stopAt l r.arc.past := by
  rcases r.stop_cases placed with ⟨-, past_eq, stop_eq, -⟩ | ⟨-, -, below, stop_eq⟩
  · rw [past_eq, Cell.stopAt_count, stop_eq]
  · rw [Cell.stopAt_of_lt below, stop_eq]

theorem toSpan_eq_span_arc (r : CellRange) (placed : Cell.depth r.start = l) :
    r.toSpan = r.arc.span l := by
  rw [Arc.span, ← r.start_eq_nth placed, ← r.stop_eq_stopAt placed]
  rfl

theorem arc_eq_of_toSpan {r : CellRange} {a : Arc} (deep : l ≤ 30) (fits : a.Fits l)
    (same : r.toSpan = a.span l) : Cell.depth r.start = l ∧ r.arc = a := by
  have start_eq : r.start = Cell.nth l a.first := congrArg Span.start same
  have stop_eq : r.stop = Cell.stopAt l a.past := congrArg Span.stop same
  have placed : Cell.depth r.start = l := by rw [start_eq, Cell.depth_nth deep]
  refine ⟨placed, ?_⟩
  have nonempty := fits.first_lt_past
  have first_eq : r.arc.first = a.first := by simp only [arc, start_eq, Cell.index_nth deep]
  have rotated := stop_eq
  rw [r.stop_eq_stopAt placed, Cell.stopAt, Cell.stopAt, Cell.nth_inj] at rotated
  have past_eq : r.arc.past = a.past := by
    have own := r.fits_arc placed
    have own_nonempty := own.first_lt_past
    rcases own.past_le_count.lt_or_eq with h₁ | h₁ <;>
      rcases fits.past_le_count.lt_or_eq with h₂ | h₂
    · rwa [Nat.mod_eq_of_lt h₁, Nat.mod_eq_of_lt h₂] at rotated
    · rw [Nat.mod_eq_of_lt h₁, h₂, Nat.mod_self] at rotated
      omega
    · rw [Nat.mod_eq_of_lt h₂, h₁, Nat.mod_self] at rotated
      omega
    · rw [h₁, h₂]
  exact Arc.ext first_eq past_eq (congrArg Span.value same)

theorem exists_ofSpan {a : Arc} (deep : l ≤ 30) (fits : a.Fits l) :
    ∃ r, ofSpan (a.span l) = .ok r := by
  have start_valid : Cell.isValid (a.span l).start = true :=
    Cell.isValid_nth deep (fits.first_lt_past.trans_le fits.past_le_count)
  have stop_valid : Cell.isValid (a.span l).stop = true := Cell.isValid_stopAt deep _
  have depth_eq : Cell.depth (a.span l).start = Cell.depth (a.span l).stop :=
    (Cell.depth_nth deep _).trans (Cell.depth_stopAt deep _).symm
  have ordered : (a.span l).start < (a.span l).stop ∨
      Cell.wrapsTo (a.span l).start (a.span l).stop = true := by
    rcases fits.past_le_count.lt_or_eq with below | last
    · left
      simp only [Arc.span]
      rw [Cell.stopAt_of_lt below, Cell.nth_lt_nth]
      exact fits.first_lt_past
    · right
      have lower := fits.lastFace_of_past_eq last
      have upper := fits.first_lt_past
      rw [last, Cell.count] at upper
      simp only [Arc.span]
      rw [last, Cell.stopAt_count, Cell.wrapsTo_nth deep, Cell.face_nth deep]
      refine ⟨?_, rfl⟩
      rw [Nat.div_eq_of_lt_le (k := 5) (by omega) (by omega)]
      rfl
  have value_nonneg : 0 ≤ (a.span l).value := fits.value_nonneg
  rw [ofSpan, dif_pos start_valid, dif_pos stop_valid, dif_pos depth_eq, dif_pos ordered,
    dif_pos value_nonneg]
  exact ⟨_, rfl⟩

/-- Making a range of an arc that fits gives a range with that arc. -/
theorem exists_of_arc {a : Arc} (deep : l ≤ 30) (fits : a.Fits l) :
    ∃ r, CellRange.of (Cell.nth l a.first) (Cell.stopAt l a.past) a.value = .ok r ∧
      Cell.depth r.start = l ∧ r.arc = a := by
  obtain ⟨r, made⟩ := exists_ofSpan deep fits
  exact ⟨r, made, arc_eq_of_toSpan deep fits (toSpan_of_ofSpan made)⟩

/-! ## Predicates on ranges, by number -/

theorem stopKey_le_start_iff {r s : CellRange} (placed : Cell.depth r.start = l)
    (other : Cell.depth s.start = l) : r.stopKey ≤ s.start ↔ r.arc.Before s.arc := by
  obtain ⟨-, inside, -⟩ := Cell.nth_index s.start_valid other
  have below : s.arc.first < Cell.count l := inside
  unfold stopKey Arc.Before
  rcases r.stop_cases placed with ⟨wraps, past_eq, -, -⟩ | ⟨wraps, -, -, stop_eq⟩
  · have word := Cell.lt_wordCount_of_isValid s.start_valid
    rw [wraps, if_pos rfl]
    omega
  · rw [wraps, if_neg Bool.false_ne_true, stop_eq, s.start_eq_nth other, Cell.nth_le_nth]

theorem stopKey_le_stopKey {r s : CellRange} (placed : Cell.depth r.start = l)
    (other : Cell.depth s.start = l) (within : r.arc.past ≤ s.arc.past) :
    r.stopKey ≤ s.stopKey := by
  have word := Cell.lt_wordCount_of_isValid r.stop_valid
  unfold stopKey
  rcases s.stop_cases other with ⟨s_wraps, -, -, -⟩ | ⟨s_wraps, -, below, s_stop⟩
  · rw [s_wraps, if_pos rfl]
    split <;> omega
  · rcases r.stop_cases placed with ⟨-, past_eq, -, -⟩ | ⟨r_wraps, -, -, r_stop⟩
    · omega
    · rw [r_wraps, s_wraps, if_neg Bool.false_ne_true, if_neg Bool.false_ne_true, r_stop, s_stop,
        Cell.nth_le_nth]
      exact within

theorem contains_nth {r : CellRange} (placed : Cell.depth r.start = l) {k : Nat}
    (inside : k < Cell.count l) :
    r.contains (Cell.nth l k) = true ↔ r.arc.first ≤ k ∧ k < r.arc.past := by
  have deep := (Cell.nth_index r.start_valid placed).1
  simp only [contains, Bool.and_eq_true, decide_eq_true_eq]
  rw [r.start_eq_nth placed, Cell.nth_le_nth]
  unfold stopKey
  rcases r.stop_cases placed with ⟨wraps, past_eq, -, -⟩ | ⟨wraps, -, -, stop_eq⟩
  · rw [wraps, if_pos rfl, past_eq]
    exact ⟨fun held => ⟨held.1, inside⟩,
      fun held => ⟨held.1, Cell.lt_wordCount_of_isValid (Cell.isValid_nth deep inside)⟩⟩
  · rw [wraps, if_neg Bool.false_ne_true, stop_eq, Cell.nth_lt_nth]

end CellRange

end Geofence
