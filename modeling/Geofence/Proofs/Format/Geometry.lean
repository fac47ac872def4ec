/-
# Geofence.Proofs.Format.Geometry -- cells as prefixes and suffixes

Prefix and suffix are taken off an id with the widths of the format, while
validity, level and the next cell are read from its sentinel.  Both describe one
order: the cells at the level of a format are the pairs of a prefix on the six
faces and a suffix, in lexicographic order, and a step from the last suffix of a
prefix leads to the first of the next prefix, behind face 5 to the first cell of
all.  A length that the format can tell is the number of these steps
(`coordinates_spec`).
-/
import Geofence.Proofs.Cell.Passage
import Geofence.Proofs.Format.Grid

namespace Geofence.Format

set_option autoImplicit false

/-- A prefix on the six faces, and a suffix. -/
structure OnFaces (f : Format) (p s : Int) : Prop where
  prefix_nonneg : 0 ≤ p
  face_le : f.faceOfPrefix p ≤ Cell.lastFace
  suffix_nonneg : 0 ≤ s
  suffix_le : s ≤ f.greatestSuffix

variable {f : Format} {p s : Int}

/-! ## Pairs and numbers -/

theorem onFaces_natCast {i j : Nat} (live : i < Partition.livePrefixes f)
    (inside : j < f.prefixCells) : f.OnFaces i j := by
  have face : i / 2 ^ (f.prefixBits - 3) < 6 := by
    rwa [Nat.div_lt_iff_lt_mul (by positivity)]
  refine ⟨Int.natCast_nonneg _, ?_, Int.natCast_nonneg _, ?_⟩
  · rw [faceOfPrefix]
    norm_cast
    exact Nat.le_of_lt_succ face
  · exact_mod_cast Nat.le_sub_one_of_lt inside

/-- Such a pair is made of the prefix and the suffix of a numbered cell. -/
theorem OnFaces.exists_natCast (onFaces : f.OnFaces p s) :
    ∃ i j : Nat, i < Partition.livePrefixes f ∧ j < f.prefixCells ∧ p = i ∧ s = j := by
  obtain ⟨prefix_nonneg, face_le, suffix_nonneg, suffix_le⟩ := onFaces
  obtain ⟨i, rfl⟩ := Int.eq_ofNat_of_zero_le prefix_nonneg
  obtain ⟨j, rfl⟩ := Int.eq_ofNat_of_zero_le suffix_nonneg
  refine ⟨i, j, ?_, ?_, rfl, rfl⟩
  · rw [faceOfPrefix] at face_le
    norm_cast at face_le
    rw [Partition.livePrefixes, ← Nat.div_lt_iff_lt_mul (by positivity)]
    exact Nat.lt_succ_of_le face_le
  · have whole : f.greatestSuffix + 1 = f.prefixCells := Nat.sub_add_cancel f.prefixCells_pos
    omega

theorem OnFaces.cellOf_eq (onFaces : f.OnFaces p s) :
    ∃ k < Cell.count f.level, f.cellOf p s = .ok (Cell.nth f.level k) ∧
      p = (k / f.prefixCells : Nat) ∧ s = (k % f.prefixCells : Nat) := by
  obtain ⟨i, j, live, inside, rfl, rfl⟩ := onFaces.exists_natCast
  refine ⟨i * f.prefixCells + j, f.number_lt_count live inside,
    f.cellOf_eq (f.livePrefix_le_greatestPrefix live) inside, ?_, ?_⟩
  · rw [Nat.mul_comm, Nat.mul_add_div f.prefixCells_pos, Nat.div_eq_of_lt inside, Nat.add_zero]
  · rw [Nat.mul_comm, Nat.mul_add_mod, Nat.mod_eq_of_lt inside]

theorem onFaces_nth {k : Nat} (inside : k < Cell.count f.level) :
    f.OnFaces (k / f.prefixCells : Nat) (k % f.prefixCells : Nat) :=
  onFaces_natCast (f.prefix_lt_livePrefixes inside) (Nat.mod_lt k f.prefixCells_pos)

/-- Numbers of cells are ordered by prefix first and by suffix second. -/
theorem number_lt_iff {j k : Nat} : j < k ↔
    j / f.prefixCells < k / f.prefixCells ∨
      j / f.prefixCells = k / f.prefixCells ∧ j % f.prefixCells < k % f.prefixCells := by
  have split_j := Nat.div_add_mod j f.prefixCells
  have split_k := Nat.div_add_mod k f.prefixCells
  rcases Nat.lt_trichotomy (j / f.prefixCells) (k / f.prefixCells) with before | same | behind
  · have := Nat.lt_of_div_lt_div before
    omega
  · rw [same] at split_j ⊢
    omega
  · have := Nat.lt_of_div_lt_div behind
    omega

/-! ## Steps -/

/-- A step leads to the next suffix, and from the last one to the next prefix. -/
theorem next_nth {k : Nat} (inside : k < Cell.count f.level) :
    Cell.next (Cell.nth f.level k) =
      if ((k % f.prefixCells : Nat) : Int) < f.greatestSuffix then
        f.cellOf (k / f.prefixCells : Nat) ((k % f.prefixCells : Nat) + 1)
      else f.cellPastPrefix (k / f.prefixCells : Nat) := by
  have behind := f.stop_eq (f.prefix_lt_livePrefixes inside) (Nat.mod_lt k f.prefixCells_pos)
  rw [Nat.succ_eq_add_one, ← Nat.add_assoc, Nat.div_add_mod'] at behind
  rw [Cell.next_nth f.level_le inside, ← behind]
  simp only [Nat.cast_lt, Nat.succ_le_iff, Nat.cast_add, Nat.cast_one]

theorem cellPastPrefix_last (last : Cell.lastFace < f.faceOfPrefix (p + 1)) :
    f.cellPastPrefix p = .ok (Cell.first f.level) := by
  have wrapped : 5 < f.faceOfPrefix (p + 1) := last
  have first := f.cellOf_eq (Nat.zero_le _) f.prefixCells_pos
  rw [Nat.zero_mul, ← Cell.first_eq_nth] at first
  rw [cellPastPrefix, nextPrefix, if_pos wrapped]
  exact first

/-! ## Lengths -/

theorem exists_rangeLength_iff {j k : Nat} (inside : j < Cell.count f.level) :
    (∃ n, f.rangeLength (Cell.nth f.level j) (Cell.nth f.level k) = .ok n) ↔
      k / f.prefixCells = j / f.prefixCells ∨
        Cell.nth f.level k = Cell.stopAt f.level (f.prefixEnd j) := by
  rw [f.rangeLength_nth inside]
  by_cases same : k / f.prefixCells = j / f.prefixCells
  · simp [same]
  · rw [if_neg same]
    by_cases ends : Cell.nth f.level k = Cell.stopAt f.level (f.prefixEnd j)
    · simp [ends]
    · simp [same, ends]

/-- Only a stop that neither has the prefix of the start nor follows it is refused. -/
theorem eq_of_rangeLength_refused {j k : Nat} (inside : j < Cell.count f.level) {fault : Fault}
    (refused : f.rangeLength (Cell.nth f.level j) (Cell.nth f.level k) = .error fault) :
    fault = .notSamePrefix (Cell.nth f.level j) (Cell.nth f.level k) := by
  rw [f.rangeLength_nth inside] at refused
  split at refused
  · contradiction
  · split at refused
    · contradiction
    · exact (Except.error.inj refused).symm

theorem prefixCells_lt_count (f : Format) : f.prefixCells < Cell.count f.level := by
  have some_prefix : 0 < 2 ^ (f.prefixBits - 3) := by positivity
  have live : 1 < Partition.livePrefixes f := by
    unfold Partition.livePrefixes
    omega
  have inside := f.number_lt_count live f.prefixCells_pos
  omega

/-- The steps from a cell to what lies behind the cells up to some number. -/
theorem exists_passes {j e : Nat} (inside : j < Cell.count f.level) (lower : j ≤ e)
    (upper : e ≤ Cell.count f.level) (fewer : e - j < Cell.count f.level) :
    ∃ cells, Cell.Passes (Cell.stopAt f.level e) (Cell.nth f.level j) cells ∧
      (cells.length : Int) = e - j := by
  have passes := Cell.passes_nth f.level_le fewer (k := j) (by omega) inside
  rw [Nat.add_sub_cancel' lower] at passes
  refine ⟨_, passes, ?_⟩
  rw [List.length_map, List.length_range, Nat.cast_sub lower]

/-- A positive length is the number of steps from the start to the stop. -/
theorem passes_rangeLength {j k : Nat} (inside_j : j < Cell.count f.level)
    (inside_k : k < Cell.count f.level) {n : Int}
    (length : f.rangeLength (Cell.nth f.level j) (Cell.nth f.level k) = .ok n) (positive : 0 < n) :
    ∃ cells, Cell.Passes (Cell.nth f.level k) (Cell.nth f.level j) cells ∧
      (cells.length : Int) = n := by
  rw [f.rangeLength_nth inside_j] at length
  by_cases same : k / f.prefixCells = j / f.prefixCells
  · rw [if_pos same] at length
    obtain rfl := Except.ok.inj length
    rw [← Cell.stopAt_of_lt inside_k]
    exact exists_passes inside_j (by omega) inside_k.le (by omega)
  · rw [if_neg same] at length
    by_cases ends : Cell.nth f.level k = Cell.stopAt f.level (f.prefixEnd j)
    · rw [if_pos ends] at length
      obtain rfl := Except.ok.inj length
      have fewer : f.prefixEnd j - j < Cell.count f.level := by
        have := f.prefixCells_lt_count
        have := Nat.div_mul_le_self j f.prefixCells
        rw [prefixEnd, Nat.succ_mul]
        omega
      rw [ends]
      exact exists_passes inside_j (f.lt_prefixEnd j).le (f.prefixEnd_le_count inside_j) fewer
    · rw [if_neg ends] at length
      contradiction

/-! ## Pairs and cells -/

/-- Prefixes and suffixes agree with the cells. A prefix on the six faces and a suffix make one
cell of the level, and are read back from it; every cell of the level is made by its own; ids are
ordered as the pairs are. A step leads to the next suffix, or from the last to the next prefix, and
from the last of face 5 to the first cell of all. Between two cells of the level there is a length
just when the stop has the prefix of the start or follows it, and a positive one counts the
steps. -/
theorem coordinates_spec (f : Format) :
    (∀ p s, f.OnFaces p s → ∃ c, f.cellOf p s = .ok c ∧ Cell.isValid c = true ∧
      Cell.depth c = f.level ∧ f.prefixOf c = p ∧ f.suffixOf c = s) ∧
    (∀ c, Cell.isValid c = true → Cell.depth c = f.level →
      f.OnFaces (f.prefixOf c) (f.suffixOf c) ∧
        f.cellOf (f.prefixOf c) (f.suffixOf c) = .ok c) ∧
    (∀ p s q t c d, f.OnFaces p s → f.OnFaces q t → f.cellOf p s = .ok c → f.cellOf q t = .ok d →
      (c < d ↔ p < q ∨ p = q ∧ s < t)) ∧
    (∀ p s c, f.OnFaces p s → f.cellOf p s = .ok c → ∃ d, Cell.next c = .ok d ∧
      (if s < f.greatestSuffix then f.cellOf p (s + 1) else f.cellPastPrefix p) = .ok d ∧
      (s = f.greatestSuffix → Cell.lastFace < f.faceOfPrefix (p + 1) → d = Cell.first f.level)) ∧
    ∀ a b, Cell.isValid a = true → Cell.depth a = f.level → Cell.isValid b = true →
      Cell.depth b = f.level →
      ((∃ n, f.rangeLength a b = .ok n) ↔
        f.prefixOf b = f.prefixOf a ∨ f.cellPastPrefix (f.prefixOf a) = .ok b) ∧
      (∀ fault, f.rangeLength a b = .error fault →
        fault = .notSamePrefix a b ∧ fault.kind = .argument) ∧
      ∀ n, f.rangeLength a b = .ok n → 0 < n →
        ∃ cells, Cell.Passes b a cells ∧ (cells.length : Int) = n := by
  have deep := f.level_le
  refine ⟨?_, ?_, ?_, ?_, ?_⟩
  · intro p s onFaces
    obtain ⟨k, inside, made, rfl, rfl⟩ := onFaces.cellOf_eq
    exact ⟨_, made, Cell.isValid_nth deep inside, Cell.depth_nth deep k, f.prefixOf_nth k,
      f.suffixOf_nth k⟩
  · intro c valid placed
    obtain ⟨-, inside, numbered⟩ := Cell.nth_index valid placed
    rw [← numbered, prefixOf_nth, suffixOf_nth]
    refine ⟨onFaces_nth inside, ?_⟩
    rw [f.cellOf_eq (f.livePrefix_le_greatestPrefix (f.prefix_lt_livePrefixes inside))
      (Nat.mod_lt _ f.prefixCells_pos), Nat.div_add_mod']
  · intro p s q t c d onFaces onFaces' made made'
    obtain ⟨j, -, made_j, rfl, rfl⟩ := onFaces.cellOf_eq
    obtain ⟨k, -, made_k, rfl, rfl⟩ := onFaces'.cellOf_eq
    obtain rfl := Except.ok.inj (made_j.symm.trans made)
    obtain rfl := Except.ok.inj (made_k.symm.trans made')
    rw [Cell.nth_lt_nth, Nat.cast_lt, Nat.cast_lt, Nat.cast_inj]
    exact number_lt_iff
  · intro p s c onFaces made
    obtain ⟨k, inside, made_k, rfl, rfl⟩ := onFaces.cellOf_eq
    obtain rfl := Except.ok.inj (made_k.symm.trans made)
    have step := next_nth inside
    rw [Cell.next_nth deep inside] at step
    refine ⟨_, Cell.next_nth deep inside, step.symm, ?_⟩
    intro last wrapped
    rw [if_neg (by omega), cellPastPrefix_last wrapped] at step
    exact Except.ok.inj step
  · intro a b valid_a placed_a valid_b placed_b
    obtain ⟨-, inside_a, numbered_a⟩ := Cell.nth_index valid_a placed_a
    obtain ⟨-, inside_b, numbered_b⟩ := Cell.nth_index valid_b placed_b
    rw [← numbered_a, ← numbered_b, f.cellPastPrefix_nth inside_a, prefixOf_nth, prefixOf_nth,
      Nat.cast_inj]
    refine ⟨?_, ?_, fun n => passes_rangeLength inside_a inside_b⟩
    · rw [exists_rangeLength_iff inside_a, Except.ok.injEq, eq_comm (b := Cell.nth _ _)]
    · intro fault refused
      obtain rfl := eq_of_rangeLength_refused inside_a refused
      exact ⟨rfl, rfl⟩

/-- Thirty-two prefixes of four cells at level 2. -/
def quads : Format :=
  (ofFields {
    level := 2
    prefixBits := 5
    suffixBits := 2
    firstTable := 1
    rowBits := 8
    isAllowedList := true
    valueSize := 0
    version := 0 }).toOption.get (by decide)

/-- The last cell of face 5 has prefix 23 and suffix 3, a step leads from it to the first cell of
all, and from the middle of its prefix it is two steps to there. -/
theorem coordinates_spec_quads :
    ∃ c d, quads.cellOf 23 3 = .ok c ∧ quads.cellOf 23 2 = .ok d ∧ d < c ∧
      quads.prefixOf c = 23 ∧ quads.suffixOf c = 3 ∧ Cell.next c = .ok (Cell.first 2) ∧
      ∃ cells, Cell.Passes (Cell.first 2) d cells ∧ (cells.length : Int) = 2 := by
  obtain ⟨made, -, ordered, stepped, lengths⟩ := coordinates_spec quads
  have last : quads.OnFaces 23 3 := ⟨by decide, by decide, by decide, by decide⟩
  have middle : quads.OnFaces 23 2 := ⟨by decide, by decide, by decide, by decide⟩
  obtain ⟨c, c_eq, -, -, prefix_eq, suffix_eq⟩ := made 23 3 last
  obtain ⟨d, d_eq, valid, placed, -⟩ := made 23 2 middle
  obtain ⟨e, onward, -, wrapped⟩ := stepped 23 3 c last c_eq
  obtain rfl : e = Cell.first 2 := wrapped rfl (by decide)
  refine ⟨c, d, c_eq, d_eq, ?_, prefix_eq, suffix_eq, onward, ?_⟩
  · exact (ordered 23 2 23 3 d c middle last d_eq c_eq).2 (by decide)
  · obtain ⟨-, -, counted⟩ := lengths d (Cell.first 2) valid placed (by decide +kernel) rfl
    have same : d = Cell.nth 2 94 := Except.ok.inj (d_eq.symm.trans (by decide +kernel))
    refine counted 2 ?_ (by decide)
    rw [same]
    decide +kernel

end Geofence.Format
