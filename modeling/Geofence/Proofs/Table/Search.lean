/-
# Geofence.Proofs.Table.Search -- what a search finds

A search that finds a row has found one that the guide accepts
(`Search.accepted_of_found`).  A search that finds none has missed none,
provided the guide tells the same story all along the rows: from a row that lies
behind the target on, all do, and up to a row that lies before it, all do
(`Search.not_accepted_of_not_found`).  That is to say that its side of the rows
never rises (`Guide.leads_of_falls`).

Whatever the guide says, the window is halved with every row that is looked at,
and no row is looked at again.  A search knows of the rows only what the guide
says of those looked at: where these answers are the same, so is the search, in
any rows (`Search.within_congr`).  `search_spec` has both, and says that rows
that do not overlap are searched as a look at one after the other would.
-/
import Geofence.Table.Packed
import Mathlib

namespace Geofence

set_option autoImplicit false

variable {rows : Array Row} {guide : Guide}

/-- What a guide says of a row holds of the rows beyond it, too. -/
structure Guide.Leads (guide : Guide) (rows : Array Row) : Prop where
  behind : ∀ (i j : Nat) (before : i < j) (inside : j < rows.size),
    guide rows[i] = .lt → guide rows[j] = .lt
  ahead : ∀ (i j : Nat) (before : i < j) (inside : j < rows.size),
    guide rows[j] = .gt → guide rows[i] = .gt

/-- The side of a row on which the target lies: 1 behind it, 0 in it and -1 in front of it. -/
def Guide.side (guide : Guide) (r : Row) : Int :=
  match guide r with
  | .gt => 1
  | .eq => 0
  | .lt => -1

/-- Rows with the target behind them come first, then those that hold it, then those with the
target in front of them. -/
def Guide.Falls (guide : Guide) (rows : Array Row) : Prop :=
  rows.toList.Pairwise fun r s => guide.side s ≤ guide.side r

instance (guide : Guide) (rows : Array Row) : Decidable (guide.Falls rows) :=
  inferInstanceAs (Decidable (List.Pairwise _ _))

namespace Search

variable {lo hi : Nat} {bound : hi ≤ rows.size}

theorem accepted_of_found {i : Nat} (found : (within rows guide lo hi bound).found = some i) :
    ∃ inside : i < rows.size, guide rows[i] = .eq := by
  fun_induction within rows guide lo hi bound with
  | case1 lo hi bound _ _ _ _ _ ih => exact ih found
  | case2 lo hi bound _ _ _ _ _ ih => exact ih found
  | case3 lo hi bound _ mid inside accepted =>
      obtain rfl := Option.some.inj found
      exact ⟨inside, accepted⟩
  | case4 => contradiction

theorem not_accepted_of_not_found (leads : guide.Leads rows)
    (missed : (within rows guide lo hi bound).found = none) {i : Nat} (lower : lo ≤ i)
    (upper : i < hi) : guide rows[i] ≠ .eq := by
  intro accepted
  fun_induction within rows guide lo hi bound with
  | case1 lo hi bound nonempty mid inside before rest ih =>
      by_cases left : i < mid
      · exact ih missed lower left accepted
      · rcases Nat.eq_or_lt_of_le (not_lt.1 left) with rfl | right
        · rw [before] at accepted
          contradiction
        · rw [leads.behind mid i right _ before] at accepted
          contradiction
  | case2 lo hi bound nonempty mid inside after rest ih =>
      by_cases right : mid < i
      · exact ih missed right upper accepted
      · rcases Nat.eq_or_lt_of_le (not_lt.1 right) with rfl | left
        · rw [after] at accepted
          contradiction
        · rw [leads.ahead i mid left inside after] at accepted
          contradiction
  | case3 => contradiction
  | case4 lo hi bound empty => omega

/-! ## The rows looked at -/

/-- Only rows of the window are looked at. -/
theorem bounds_of_mem_probes {i : Nat} (probed : i ∈ (within rows guide lo hi bound).probes) :
    lo ≤ i ∧ i < hi := by
  fun_induction within rows guide lo hi bound with
  | case1 lo hi bound nonempty mid inside before rest ih =>
      rcases List.mem_cons.1 probed with rfl | later
      · omega
      · have := ih later
        omega
  | case2 lo hi bound nonempty mid inside after rest ih =>
      rcases List.mem_cons.1 probed with rfl | later
      · omega
      · have := ih later
        omega
  | case3 lo hi bound nonempty mid =>
      rw [List.mem_singleton.1 probed]
      omega
  | case4 => simp at probed

/-- The row looked at falls out of the window, so it is not looked at again. -/
theorem nodup_probes : (within rows guide lo hi bound).probes.Nodup := by
  fun_induction within rows guide lo hi bound with
  | case1 lo hi bound nonempty mid inside before rest ih =>
      refine List.nodup_cons.2 ⟨?_, ih⟩
      intro again
      have := bounds_of_mem_probes again
      omega
  | case2 lo hi bound nonempty mid inside after rest ih =>
      refine List.nodup_cons.2 ⟨?_, ih⟩
      intro again
      have := bounds_of_mem_probes again
      omega
  | case3 => exact List.nodup_singleton _
  | case4 => exact List.nodup_nil

/-- A window of fewer than `2 ^ k` rows is empty after `k` looks. -/
theorem length_probes_le (k : Nat) (narrow : hi - lo < 2 ^ k) :
    (within rows guide lo hi bound).probes.length ≤ k := by
  -- each side of the middle row has at most half of the rows
  revert k
  fun_induction within rows guide lo hi bound with
  | case1 lo hi bound nonempty mid inside before rest ih =>
      intro k narrow
      cases k with
      | zero => simp at narrow; omega
      | succ k =>
          rw [Nat.pow_succ] at narrow
          have shorter := ih k (by omega)
          simpa using shorter
  | case2 lo hi bound nonempty mid inside after rest ih =>
      intro k narrow
      cases k with
      | zero => simp at narrow; omega
      | succ k =>
          rw [Nat.pow_succ] at narrow
          have shorter := ih k (by omega)
          simpa using shorter
  | case3 lo hi bound nonempty mid =>
      intro k narrow
      cases k with
      | zero => simp at narrow; omega
      | succ k => simp
  | case4 => simp

theorem mem_probes_of_found {i : Nat} (found : (within rows guide lo hi bound).found = some i) :
    i ∈ (within rows guide lo hi bound).probes := by
  fun_induction within rows guide lo hi bound with
  | case1 lo hi bound _ _ _ _ rest ih => exact List.mem_cons_of_mem _ (ih found)
  | case2 lo hi bound _ _ _ _ rest ih => exact List.mem_cons_of_mem _ (ih found)
  | case3 lo hi bound _ mid =>
      obtain rfl := Option.some.inj found
      exact List.mem_singleton_self _
  | case4 => contradiction

/-- A search follows the answers for the rows it looks at, and nothing else. -/
theorem within_congr {others : Array Row} {other : Guide} (bound' : hi ≤ others.size)
    (agree : ∀ i ∈ (within rows guide lo hi bound).probes,
      ∀ (inside : i < rows.size) (inside' : i < others.size), other others[i] = guide rows[i]) :
    within others other lo hi bound' = within rows guide lo hi bound := by
  fun_induction within rows guide lo hi bound with
  | case1 lo hi bound nonempty mid inside before rest ih =>
      have first := agree mid List.mem_cons_self inside (by omega)
      have later := ih (by omega) fun i probed => agree i (List.mem_cons_of_mem _ probed)
      rw [within, dif_pos nonempty]
      simp only [mid, rest] at before first later ⊢
      rw [first, before, later]
  | case2 lo hi bound nonempty mid inside after rest ih =>
      have first := agree mid List.mem_cons_self inside (by omega)
      have later := ih bound' fun i probed => agree i (List.mem_cons_of_mem _ probed)
      rw [within, dif_pos nonempty]
      simp only [mid, rest] at after first later ⊢
      rw [first, after, later]
  | case3 lo hi bound nonempty mid inside accepted =>
      have first := agree mid List.mem_cons_self inside (by omega)
      rw [within, dif_pos nonempty]
      simp only [mid] at accepted first ⊢
      rw [first, accepted]
  | case4 lo hi bound empty => rw [within, dif_neg empty]

end Search

namespace Guide

/-- A guide whose side never rises leads to the rows that hold the target. -/
theorem leads_of_falls (falls : guide.Falls rows) : guide.Leads rows where
  behind := fun i j before inside left => by
    have lower := List.pairwise_iff_getElem.1 falls i j (by simp; omega) (by simpa) before
    simp only [Array.getElem_toList, side, left] at lower
    cases seen : guide rows[j] with
    | lt => rfl
    | eq => simp [seen] at lower
    | gt => simp [seen] at lower
  ahead := fun i j before inside right => by
    have lower := List.pairwise_iff_getElem.1 falls i j (by simp; omega) (by simpa) before
    simp only [Array.getElem_toList, side, right] at lower
    cases seen : guide rows[i] with
    | lt => simp [seen] at lower
    | eq => simp [seen] at lower
    | gt => rfl

variable {length : Nat → Int} {t : Int} {r : Row}

theorem span_eq_eq_iff : span length t r = .eq ↔ (r.key : Int) ≤ t ∧ t < r.key + length r.value := by
  unfold span
  split
  · simp only [reduceCtorEq, false_iff]
    omega
  · split
    · simp only [reduceCtorEq, false_iff]
      omega
    · simp only [true_iff]
      omega

theorem span_eq_lt_iff : span length t r = .lt ↔ t < r.key := by
  unfold span
  split
  · simp only [true_iff]
    assumption
  · split
    · simp only [reduceCtorEq, false_iff]
      assumption
    · simp only [reduceCtorEq, false_iff]
      assumption

theorem span_eq_gt_iff : span length t r = .gt ↔ (r.key : Int) ≤ t ∧ r.key + length r.value ≤ t := by
  unfold span
  split
  · simp only [reduceCtorEq, false_iff]
    omega
  · split
    · simp only [true_iff]
      omega
    · simp only [reduceCtorEq, false_iff]
      omega

/-- Rows whose cells lie one behind the other are in order for every cell. -/
theorem leads_span (counted : ∀ r ∈ rows, 0 ≤ length r.value)
    (apart : ∀ (i j : Nat) (_ : i < j) (_ : j < rows.size),
      (rows[i].key : Int) + length rows[i].value ≤ rows[j].key) (t : Int) :
    (span length t).Leads rows where
  behind := fun i j before inside left => by
    rw [span_eq_lt_iff] at left ⊢
    have := apart i j before inside
    have := counted rows[i] (Array.getElem_mem _)
    omega
  ahead := fun i j before inside right => by
    rw [span_eq_gt_iff] at right ⊢
    have := apart i j before inside
    have := counted rows[i] (Array.getElem_mem _)
    omega

/-- Rows that each end before the next starts lie one behind the other. -/
theorem apart_of_isChain (counted : ∀ r ∈ rows, 0 ≤ length r.value)
    (chain : rows.toList.IsChain fun r s => (r.key : Int) + length r.value ≤ s.key)
    (i j : Nat) (before : i < j) (inside : j < rows.size) :
    (rows[i].key : Int) + length rows[i].value ≤ rows[j].key := by
  induction j with
  | zero => omega
  | succ j ih =>
      have step := List.isChain_iff_getElem.1 chain j (by simpa)
      simp only [Array.getElem_toList] at step
      rcases Nat.lt_succ_iff_lt_or_eq.1 before with earlier | rfl
      · have := ih earlier (by omega)
        have := counted rows[j] (Array.getElem_mem _)
        omega
      · exact step

end Guide

namespace PackedTable

/-- Rows as many as these are searched alike by a guide that says the same of the rows looked at. -/
theorem search_congr {t u : PackedTable} {guide other : Guide} (size_eq : u.rows.size = t.rows.size)
    (agree : ∀ i ∈ (t.search guide).probes,
      ∀ (inside : i < t.rows.size) (inside' : i < u.rows.size),
        other u.rows[i] = guide t.rows[i]) : u.search other = t.search guide := by
  have same := Search.within_congr size_eq.ge agree
  simpa only [search, size_eq] using same

/-- In rows that lie one behind the other the search finds the row that holds the target, which is
the first one that does. -/
theorem found_span_eq (t : PackedTable) {length : Nat → Int}
    (counted : ∀ r ∈ t.rows, 0 ≤ length r.value)
    (chain : t.rows.toList.IsChain fun r s => (r.key : Int) + length r.value ≤ s.key)
    (target : Int) : (t.search (.span length target)).found =
      t.rows.findIdx? fun r => r.key ≤ target ∧ target < r.key + length r.value := by
  have apart := Guide.apart_of_isChain counted chain
  cases outcome : (t.search (.span length target)).found with
  | none =>
      have leads := Guide.leads_span counted apart target
      symm
      rw [Array.findIdx?_eq_none_iff]
      intro r member
      obtain ⟨i, inside, rfl⟩ := Array.mem_iff_getElem.1 member
      have missed := Search.not_accepted_of_not_found leads outcome (Nat.zero_le i) inside
      rw [Ne, Guide.span_eq_eq_iff] at missed
      exact decide_eq_false missed
  | some i =>
      obtain ⟨inside, accepted⟩ := Search.accepted_of_found outcome
      rw [Guide.span_eq_eq_iff] at accepted
      symm
      rw [Array.findIdx?_eq_some_iff_getElem]
      refine ⟨inside, decide_eq_true accepted, ?_⟩
      intro j before
      have := apart j i before inside
      rw [decide_eq_true_eq]
      omega

/-- A search looks at one row for every time that the table can be halved, at none twice and at
none outside, and what it finds the guide accepts. It asks of no other row: with another guide, in
another table of the size, it goes the same way if it gets these answers. With a guide whose side
never rises along the rows it finds a row just when one is accepted. Rows that lie one behind the
other, also with gaps or with rows for no cell, are searched as by a look at each. -/
theorem search_spec (t : PackedTable) :
    (∀ guide : Guide,
      (∀ (u : PackedTable) (other : Guide), u.rows.size = t.rows.size →
        (∀ i ∈ (t.search guide).probes, ∀ (inside : i < t.rows.size) (inside' : i < u.rows.size),
          other u.rows[i] = guide t.rows[i]) → u.search other = t.search guide) ∧
      ((t.search guide).probes.length ≤ if t.rows.size = 0 then 0 else t.rows.size.log2 + 1) ∧
      (t.search guide).probes.Nodup ∧
      (∀ i ∈ (t.search guide).probes, i < t.rows.size) ∧
      (∀ i, (t.search guide).found = some i →
        i ∈ (t.search guide).probes ∧ ∃ inside : i < t.rows.size, guide t.rows[i] = .eq) ∧
      (guide.Falls t.rows →
        ((t.search guide).found.isSome = true ↔ ∃ r ∈ t.rows, guide r = .eq))) ∧
    ∀ (length : Nat → Int) (target : Int), (∀ r ∈ t.rows, 0 ≤ length r.value) →
      (t.rows.toList.IsChain fun r s => (r.key : Int) + length r.value ≤ s.key) →
      (t.search (.span length target)).found =
        t.rows.findIdx? fun r => r.key ≤ target ∧ target < r.key + length r.value := by
  refine ⟨fun guide => ⟨?_, ?_, Search.nodup_probes, ?_, ?_, ?_⟩, ?_⟩
  · intro u other size_eq agree
    exact search_congr size_eq agree
  · split
    · exact Search.length_probes_le 0 (by omega)
    · exact Search.length_probes_le _ (by simpa using Nat.lt_log2_self)
  · intro i probed
    exact (Search.bounds_of_mem_probes probed).2
  · intro i found
    exact ⟨Search.mem_probes_of_found found, Search.accepted_of_found found⟩
  · intro falls
    constructor
    · intro some_found
      obtain ⟨i, found⟩ := Option.isSome_iff_exists.1 some_found
      obtain ⟨inside, accepted⟩ := Search.accepted_of_found found
      exact ⟨_, Array.getElem_mem inside, accepted⟩
    · rintro ⟨r, member, accepted⟩
      obtain ⟨i, inside, rfl⟩ := Array.mem_iff_getElem.1 member
      by_contra missed
      rw [Option.not_isSome_iff_eq_none] at missed
      exact Search.not_accepted_of_not_found (Guide.leads_of_falls falls) missed
        (Nat.zero_le i) inside accepted
  · intro length target counted chain
    exact t.found_span_eq counted chain target

/-- Four rows: for the cells 0 and 1, for no cell, for 3 and 4, and for 5. -/
def gapped : PackedTable where
  layout := (RowLayout.of 2 8).toOption.get (by decide)
  shared := []
  rows := #[⟨0, 2⟩, ⟨2, 0⟩, ⟨3, 2⟩, ⟨5, 1⟩]

/-- Cell 4 is found in its row, cell 2 in none although there is a row with its number, and the
search for a key takes no more than three looks. It never looks at the first row, so that a guide
with another answer there leads to the same row. -/
theorem search_spec_gapped :
    (gapped.search (.span (fun v => v) 4)).found = some 2 ∧
    (gapped.search (.span (fun v => v) 2)).found = none ∧
    (gapped.search (.key 5)).found.isSome = true ∧
    (gapped.search (.key 5)).probes.length ≤ 3 ∧
    gapped.search (fun r => if r.key = 0 then .lt else Guide.key 5 r) =
      gapped.search (.key 5) := by
  obtain ⟨any, spans⟩ := search_spec gapped
  obtain ⟨follows, few, -, -, -, complete⟩ := any (.key 5)
  have probes_eq : (gapped.search (.key 5)).probes = [1, 2, 3] := by decide +kernel
  refine ⟨?_, ?_, (complete (by decide)).2 ⟨⟨5, 1⟩, by simp [gapped], by decide⟩, few, ?_⟩
  · rw [spans (fun v => v) 4 (by decide) (by decide)]
    decide +kernel
  · rw [spans (fun v => v) 2 (by decide) (by decide)]
    decide +kernel
  · refine follows gapped _ rfl ?_
    rw [probes_eq]
    decide

end PackedTable

end Geofence
