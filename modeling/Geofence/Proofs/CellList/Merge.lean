/-
# Geofence.Proofs.CellList.Merge -- the ranges of a cell list

Every entry of a list at one level is an arc of one cell, and merging joins these
arcs (`toRanges_eq`).  The ranges hold the cells of the list with their values
(`Merged`) -- if they can be made.  A range that runs to the last cell of face 5
must start on face 5, so a list is refused where the last cell of face 4 and all
of face 5 have one value (`Overruns`); all other lists go through
(`toRanges_ok`, `toRanges_refused`).
-/
import Geofence.CellList.Merge
import Geofence.Proofs.CellList.Normal
import Geofence.Proofs.Range.Join

namespace Geofence

set_option autoImplicit false

def Listed.arc (x : Listed) : Arc where
  first := Cell.index x.cell
  past := Cell.index x.cell + 1
  value := x.value

namespace CellRange

variable {l : Nat} {a : Arc}

/-- An arc that starts in front of face 5 and runs to its end is not taken for a range. -/
theorem ofSpan_of_overrun (deep : l ≤ 30) (nonempty : a.first < a.past)
    (last : a.past = Cell.count l) (early : a.first < 5 * 4 ^ l) :
    ofSpan (a.span l) = .error (.startNotBelowStop (a.span l)) := by
  have start_valid : Cell.isValid (a.span l).start = true := Cell.isValid_nth deep (last ▸ nonempty)
  have stop_valid : Cell.isValid (a.span l).stop = true := Cell.isValid_stopAt deep _
  have depth_eq : Cell.depth (a.span l).start = Cell.depth (a.span l).stop :=
    (Cell.depth_nth deep _).trans (Cell.depth_stopAt deep _).symm
  have unordered : ¬((a.span l).start < (a.span l).stop ∨
      Cell.wrapsTo (a.span l).start (a.span l).stop = true) := by
    simp only [Arc.span, last, Cell.stopAt_count]
    rw [Cell.nth_lt_nth, Cell.wrapsTo_nth deep, Cell.face_nth deep, Cell.lastFace]
    have before : a.first / 4 ^ l < 5 := (Nat.div_lt_iff_lt_mul (by positivity)).2 early
    omega
  rw [ofSpan, dif_pos start_valid, dif_pos stop_valid, dif_pos depth_eq, dif_neg unordered]

end CellRange

namespace CellList

variable {l k : Nat} {v : Int} {listed rest : List Listed} {ranges : List CellRange}

/-! ## Entries as arcs -/

theorem nonempty_arcs (listed : List Listed) : ∀ a ∈ listed.map Listed.arc, a.first < a.past := by
  intro a member
  obtain ⟨x, -, rfl⟩ := List.mem_map.1 member
  exact Nat.lt_succ_self _

theorem ordered_arcs (deep : l ≤ 30) (normal : Normal l listed) :
    (listed.map Listed.arc).Pairwise Arc.Before := by
  rw [List.pairwise_map]
  refine normal.ascending.imp_of_mem fun {x y} x_member y_member before => ?_
  obtain ⟨i, -, x_eq⟩ := normal.placed x x_member
  obtain ⟨j, -, y_eq⟩ := normal.placed y y_member
  rw [x_eq, y_eq, Cell.nth_lt_nth] at before
  rw [Arc.Before, Listed.arc, Listed.arc, x_eq, y_eq, Cell.index_nth deep, Cell.index_nth deep]
  exact before

theorem has_arcs_iff (deep : l ≤ 30) (normal : Normal l listed) :
    (∃ a ∈ listed.map Listed.arc, a.Has k v) ↔ { cell := Cell.nth l k, value := v } ∈ listed := by
  constructor
  · rintro ⟨a, member, lower, upper, value_eq⟩
    obtain ⟨x, x_member, rfl⟩ := List.mem_map.1 member
    obtain ⟨i, -, x_eq⟩ := normal.placed x x_member
    simp only [Listed.arc, x_eq, Cell.index_nth deep] at lower upper value_eq
    obtain rfl : i = k := by omega
    rw [← x_eq, ← value_eq]
    exact x_member
  · intro member
    refine ⟨_, List.mem_map_of_mem member, ?_, ?_, rfl⟩
    · simp only [Listed.arc, Cell.index_nth deep, le_refl]
    · simp only [Listed.arc, Cell.index_nth deep, Nat.lt_succ_self]

/-! ## Merging -/

/-- Merging joins the arcs of the entries. -/
theorem rangesFrom_eq (deep : l ≤ 30) {a : Arc}
    (placed : ∀ y ∈ rest, ∃ k < Cell.count l, y.cell = Cell.nth l k)
    (ordered : (a :: rest.map Listed.arc).Pairwise Arc.Before) :
    rangesFrom l (Cell.nth l a.first) (Cell.stopAt l a.past) a.value rest =
      (Arc.joinFrom a (rest.map Listed.arc)).mapM fun c => CellRange.ofSpan (c.span l) := by
  induction rest generalizing a with
  | nil =>
      rw [List.map_nil, Arc.joinFrom, List.mapM_cons]
      rfl
  | cons x rest ih =>
      obtain ⟨⟨k, inside, x_eq⟩, others⟩ := List.forall_mem_cons.1 placed
      rw [List.map_cons] at ordered ⊢
      obtain ⟨before, later⟩ := List.pairwise_cons.1 ordered
      have first_eq : x.arc.first = k := by rw [Listed.arc, x_eq, Cell.index_nth deep]
      have past_eq : x.arc.past = k + 1 := by rw [Listed.arc, x_eq, Cell.index_nth deep]
      have past_le : a.past ≤ k := first_eq ▸ before x.arc List.mem_cons_self
      have children : Cell.childrenEnd (Cell.nth l k) l = .ok (Cell.stopAt l x.arc.past) := by
        rw [Cell.childrenEnd_nth deep le_rfl inside, past_eq, Nat.sub_self, pow_zero, Nat.mul_one]
      have follows : Cell.stopAt l a.past = x.cell ↔ a.past = x.arc.first := by
        rw [Cell.stopAt_of_lt (past_le.trans_lt inside), x_eq, Cell.nth_inj, first_eq]
      rw [rangesFrom, Arc.joinFrom, x_eq, Cell.level_nth deep inside, Outcome.ok_bind,
        if_neg (not_not.2 rfl), children, ← x_eq]
      by_cases touch : a.past = x.arc.first ∧ a.value = x.arc.value
      · have joins : ¬(Cell.stopAt l a.past ≠ x.cell ∨ x.value ≠ a.value) := by
          rw [not_or, not_not, not_not]
          exact ⟨follows.2 touch.1, touch.2.symm⟩
        rw [if_pos touch, if_neg joins, Outcome.ok_bind]
        exact ih others (Arc.ordered_extend ordered)
      · have parts : Cell.stopAt l a.past ≠ x.cell ∨ x.value ≠ a.value := by
          rw [Ne, follows, ← not_and_or]
          exact fun both => touch ⟨both.1, both.2.symm⟩
        have start_eq : x.cell = Cell.nth l x.arc.first := by rw [first_eq, x_eq]
        rw [if_neg touch, if_pos parts, List.mapM_cons, ← ih (a := x.arc) others later, ← start_eq]
        rfl

theorem toRanges_eq (deep : l ≤ 30) (normal : Normal l listed) :
    toRanges l listed =
      (Arc.joined (listed.map Listed.arc)).mapM fun c => CellRange.ofSpan (c.span l) := by
  cases listed with
  | nil => rfl
  | cons x rest =>
      obtain ⟨⟨k, inside, x_eq⟩, others⟩ := List.forall_mem_cons.1 normal.placed
      have first_eq : x.arc.first = k := by rw [Listed.arc, x_eq, Cell.index_nth deep]
      have children : Cell.childrenEnd x.cell l = .ok (Cell.stopAt l x.arc.past) := by
        rw [x_eq, Cell.childrenEnd_nth deep le_rfl inside, Nat.sub_self, pow_zero, Nat.mul_one,
          Listed.arc, x_eq, Cell.index_nth deep]
      have start_eq : x.cell = Cell.nth l x.arc.first := by rw [first_eq, x_eq]
      rw [List.map_cons, Arc.joined, ← rangesFrom_eq deep others (ordered_arcs deep normal),
        toRanges, children, ← start_eq]
      rw [x_eq, Cell.level_nth deep inside, Outcome.ok_bind, if_neg (not_not.2 rfl)]
      rfl

/-! ## Ranges -/

/-- The last cell of face 4 and all cells of face 5 are listed with one value. -/
def Overruns (l : Nat) (listed : List Listed) : Prop :=
  ∃ v, ∀ k, 5 * 4 ^ l - 1 ≤ k → k < Cell.count l → { cell := Cell.nth l k, value := v } ∈ listed

/-- The ranges hold the cells of the list, with their values. -/
structure Merged (l : Nat) (listed : List Listed) (ranges : List CellRange) : Prop where
  atLevel : ∀ r ∈ ranges, Cell.depth r.start = l
  sorted : (ranges.map CellRange.arc).Pairwise Arc.Before
  holds_iff : ∀ k < Cell.count l, ∀ v, (∃ r ∈ ranges, r.contains (Cell.nth l k) = true ∧
    r.value = v) ↔ { cell := Cell.nth l k, value := v } ∈ listed

/-- The ranges have the values of the list, and no others. -/
theorem Merged.forall_value (merged : Merged l listed ranges) (normal : Normal l listed)
    (p : Int → Prop) : (∀ r ∈ ranges, p r.value) ↔ ∀ x ∈ listed, p x.value := by
  constructor
  · intro all x member
    obtain ⟨k, inside, cell_eq⟩ := normal.placed x member
    have named : { cell := Cell.nth l k, value := x.value } ∈ listed := by
      rw [← cell_eq]
      exact member
    obtain ⟨r, r_member, -, value_eq⟩ := (merged.holds_iff k inside x.value).2 named
    rw [← value_eq]
    exact all r r_member
  · intro all r member
    have placed := merged.atLevel r member
    obtain ⟨nonempty, past_le, -, -⟩ := r.fits_arc placed
    have inside := nonempty.trans_le past_le
    have contains := (CellRange.contains_nth placed inside).2 ⟨le_rfl, nonempty⟩
    exact all _ ((merged.holds_iff _ inside r.value).1 ⟨r, member, contains, rfl⟩)

theorem has_joined_iff (deep : l ≤ 30) (normal : Normal l listed) :
    (∃ c ∈ Arc.joined (listed.map Listed.arc), c.Has k v) ↔
      { cell := Cell.nth l k, value := v } ∈ listed := by
  rw [Arc.has_joined (nonempty_arcs listed), has_arcs_iff deep normal]

theorem bounds_of_mem_joined (deep : l ≤ 30) (normal : Normal l listed) {c : Arc}
    (member : c ∈ Arc.joined (listed.map Listed.arc)) :
    c.first < c.past ∧ c.past ≤ Cell.count l ∧ 0 ≤ c.value := by
  have nonempty := Arc.nonempty_joined (nonempty_arcs listed) c member
  have last_held : c.Has (c.past - 1) c.value := ⟨by omega, by omega, rfl⟩
  have named := (has_joined_iff deep normal).1 ⟨c, member, last_held⟩
  obtain ⟨k, inside, cell_eq⟩ := normal.placed _ named
  rw [Cell.nth_inj] at cell_eq
  exact ⟨nonempty, by omega, normal.value_nonneg _ named⟩

theorem exists_joined_of_overruns (deep : l ≤ 30) (normal : Normal l listed)
    (overruns : Overruns l listed) : ∃ c ∈ Arc.joined (listed.map Listed.arc),
      c.past = Cell.count l ∧ c.first < 5 * 4 ^ l := by
  obtain ⟨v, all⟩ := overruns
  have face : 0 < 4 ^ l := by positivity
  have count_eq : Cell.count l = 6 * 4 ^ l := rfl
  obtain ⟨c, member, lower, upper, rfl⟩ := (has_joined_iff deep normal).2
    (all (Cell.count l - 1) (by omega) (by omega))
  obtain ⟨nonempty, past_le, -⟩ := bounds_of_mem_joined deep normal member
  refine ⟨c, member, by omega, ?_⟩
  by_contra late
  obtain ⟨b, b_member, has⟩ := (has_joined_iff deep normal).2
    (all (c.first - 1) (by omega) (by omega))
  exact Arc.Apart.not_has_in_front (Arc.apart_joined (ordered_arcs deep normal)
    (nonempty_arcs listed)) member b_member nonempty (by omega) has

theorem fits_of_mem_joined (deep : l ≤ 30) (normal : Normal l listed)
    (within : ¬Overruns l listed) {c : Arc} (member : c ∈ Arc.joined (listed.map Listed.arc)) :
    c.Fits l := by
  obtain ⟨nonempty, past_le, value_nonneg⟩ := bounds_of_mem_joined deep normal member
  refine ⟨nonempty, past_le, fun last => ?_, value_nonneg⟩
  by_contra early
  refine within ⟨c.value, fun k lower upper => ?_⟩
  exact (has_joined_iff deep normal).1 ⟨c, member, by omega, by omega, rfl⟩

/-- A list that does not overrun is merged into the ranges of the joined arcs. -/
theorem exists_toRanges (deep : l ≤ 30) (normal : Normal l listed) (within : ¬Overruns l listed) :
    ∃ ranges, toRanges l listed = .ok ranges ∧ (∀ r ∈ ranges, Cell.depth r.start = l) ∧
      ranges.map CellRange.arc = Arc.joined (listed.map Listed.arc) := by
  have each : ∀ c ∈ Arc.joined (listed.map Listed.arc), ∃ r,
      CellRange.ofSpan (c.span l) = .ok r ∧ Cell.depth r.start = l ∧ r.arc = id c := by
    intro c member
    exact CellRange.exists_of_arc deep (fits_of_mem_joined deep normal within member)
  obtain ⟨ranges, made, placed, arcs⟩ := Outcome.exists_mapM_eq_ok each
  rw [List.map_id] at arcs
  exact ⟨ranges, by rw [toRanges_eq deep normal, made], placed, arcs⟩

theorem toRanges_ok (deep : l ≤ 30) (normal : Normal l listed) (within : ¬Overruns l listed) :
    ∃ ranges, toRanges l listed = .ok ranges ∧ Merged l listed ranges := by
  obtain ⟨ranges, made, placed, arcs⟩ := exists_toRanges deep normal within
  refine ⟨ranges, made, placed, ?_, ?_⟩
  · rw [arcs]
    exact (Arc.apart_joined (ordered_arcs deep normal) (nonempty_arcs listed)).imp And.left
  · intro k inside v
    rw [← has_joined_iff deep normal, ← arcs]
    constructor
    · rintro ⟨r, member, contains, value_eq⟩
      rw [CellRange.contains_nth (placed r member) inside] at contains
      exact ⟨r.arc, List.mem_map_of_mem member, contains.1, contains.2, value_eq⟩
    · rintro ⟨c, member, lower, upper, value_eq⟩
      obtain ⟨r, r_member, rfl⟩ := List.mem_map.1 member
      exact ⟨r, r_member, (CellRange.contains_nth (placed r r_member) inside).2 ⟨lower, upper⟩,
        value_eq⟩

theorem toRanges_refused (deep : l ≤ 30) (normal : Normal l listed) (overruns : Overruns l listed) :
    ∃ span, toRanges l listed = .error (.startNotBelowStop span) := by
  obtain ⟨c, member, last, early⟩ := exists_joined_of_overruns deep normal overruns
  have refusal := CellRange.ofSpan_of_overrun deep (bounds_of_mem_joined deep normal member).1
    last early
  rw [toRanges_eq deep normal]
  cases made : (Arc.joined (listed.map Listed.arc)).mapM fun c => CellRange.ofSpan (c.span l) with
  | ok ranges =>
      obtain ⟨r, own⟩ := Outcome.exists_of_mapM_ok made member
      rw [refusal] at own
      contradiction
  | error fault =>
      obtain ⟨b, b_member, b_refused⟩ := Outcome.exists_of_mapM_error made
      obtain ⟨nonempty, past_le, value_nonneg⟩ := bounds_of_mem_joined deep normal b_member
      by_cases fits : b.Fits l
      · obtain ⟨r, b_made⟩ := CellRange.exists_ofSpan deep fits
        rw [b_made] at b_refused
        contradiction
      · have overrun : b.past = Cell.count l ∧ b.first < 5 * 4 ^ l := by
          by_contra inside
          exact fits ⟨nonempty, past_le, fun last => by omega, value_nonneg⟩
        rw [CellRange.ofSpan_of_overrun deep nonempty overrun.1 overrun.2] at b_refused
        obtain rfl := Except.error.inj b_refused
        exact ⟨_, rfl⟩

theorem merged_of_toRanges (deep : l ≤ 30) (normal : Normal l listed)
    (made : toRanges l listed = .ok ranges) : ¬Overruns l listed ∧ Merged l listed ranges := by
  have within : ¬Overruns l listed := by
    intro overruns
    obtain ⟨span, refused⟩ := toRanges_refused deep normal overruns
    rw [refused] at made
    contradiction
  obtain ⟨own, own_made, merged⟩ := toRanges_ok deep normal within
  rw [own_made] at made
  obtain rfl := Except.ok.inj made
  exact ⟨within, merged⟩

end CellList

end Geofence
