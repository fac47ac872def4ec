/-
# Geofence.Proofs.Range.Join -- arcs joined where they touch

Arcs in order are joined where one ends on the start of the next and both have
one value (`joined`).  What comes out lists the same numbers with the same
values in the same order (`flatMap_listed_joined`), is in order, and cannot be
joined further (`apart_joined`).
-/
import Geofence.Proofs.Range.Arc

namespace Geofence.Arc

set_option autoImplicit false

def Has (a : Arc) (k : Nat) (v : Int) : Prop :=
  a.first ≤ k ∧ k < a.past ∧ a.value = v

/-- The numbers of an arc one by one, each with the value. -/
def listed (a : Arc) : List (Nat × Int) :=
  (List.range' a.first a.length).map fun k => (k, a.value)

/-- `a` ends before `b`, and not on its start if both have one value. -/
def Apart (a b : Arc) : Prop :=
  a.Before b ∧ ¬(a.past = b.first ∧ a.value = b.value)

def joinFrom (a : Arc) : List Arc → List Arc
  | [] => [a]
  | b :: rest =>
    if a.past = b.first ∧ a.value = b.value then joinFrom { a with past := b.past } rest
    else a :: joinFrom b rest

/-- The arcs joined where they touch. -/
def joined : List Arc → List Arc
  | [] => []
  | a :: rest => joinFrom a rest

variable {a b c : Arc} {xs : List Arc} {k : Nat} {v : Int}

theorem nonempty_extend (touch : a.past = b.first)
    (nonempty : ∀ c ∈ a :: b :: xs, c.first < c.past) :
    ∀ c ∈ { a with past := b.past } :: xs, c.first < c.past := by
  obtain ⟨own, behind⟩ := List.forall_mem_cons.1 nonempty
  obtain ⟨next, others⟩ := List.forall_mem_cons.1 behind
  exact List.forall_mem_cons.2 ⟨own.trans (touch.trans_lt next), others⟩

theorem ordered_extend (ordered : (a :: b :: xs).Pairwise Before) :
    ({ a with past := b.past } :: xs).Pairwise Before := by
  obtain ⟨before, later⟩ := List.pairwise_cons.1 (List.pairwise_cons.1 ordered).2
  exact List.pairwise_cons.2 ⟨before, later⟩

/-- The first of the joined arcs starts where the open one does, with its value; the others start
behind it. -/
theorem start_of_mem_joinFrom (ordered : (a :: xs).Pairwise Before)
    (nonempty : ∀ b ∈ a :: xs, b.first < b.past) (member : c ∈ joinFrom a xs) :
    (c.first = a.first ∧ c.value = a.value) ∨ a.past ≤ c.first := by
  fun_induction joinFrom a xs with
  | case1 a =>
      rw [List.mem_singleton.1 member]
      exact Or.inl ⟨rfl, rfl⟩
  | case2 a b rest touch ih =>
      have past_le : a.past ≤ b.past := touch.1.trans_le (nonempty b (by simp)).le
      exact (ih (ordered_extend ordered) (nonempty_extend touch.1 nonempty) member).imp_right
        past_le.trans
  | case3 a b rest apart ih =>
      obtain ⟨before, later⟩ := List.pairwise_cons.1 ordered
      obtain ⟨-, next⟩ := List.forall_mem_cons.1 nonempty
      rcases List.mem_cons.1 member with rfl | behind
      · exact Or.inl ⟨rfl, rfl⟩
      · have b_after : a.past ≤ b.first := before b List.mem_cons_self
        rcases ih later next behind with ⟨first_eq, -⟩ | beyond
        · exact Or.inr (b_after.trans_eq first_eq.symm)
        · exact Or.inr (b_after.trans ((next b List.mem_cons_self).le.trans beyond))

theorem mem_listed : (k, v) ∈ a.listed ↔ a.Has k v := by
  simp only [listed, List.mem_map, List.mem_range'_1, Prod.mk.injEq, length, Has]
  constructor
  · rintro ⟨j, bounds, rfl, rfl⟩
    omega
  · rintro ⟨lower, upper, value_eq⟩
    exact ⟨k, by omega, rfl, value_eq⟩

theorem listed_extend (touch : a.past = b.first ∧ a.value = b.value) (own : a.first < a.past)
    (next : b.first < b.past) : listed { a with past := b.past } = a.listed ++ b.listed := by
  obtain ⟨past_eq, value_eq⟩ := touch
  have behind : a.first + (a.past - a.first) = b.first := by omega
  have whole : b.past - a.first = a.past - a.first + (b.past - b.first) := by omega
  simp only [listed, length]
  rw [← value_eq, whole, ← List.range'_append_1, behind, List.map_append]

/-- Joining neither loses nor adds a number, nor changes its value or its place. -/
theorem flatMap_listed_joinFrom (nonempty : ∀ b ∈ a :: xs, b.first < b.past) :
    (joinFrom a xs).flatMap listed = (a :: xs).flatMap listed := by
  fun_induction joinFrom a xs with
  | case1 a => rfl
  | case2 a b rest touch ih =>
      have own := nonempty a (by simp)
      have next := nonempty b (by simp)
      rw [ih (nonempty_extend touch.1 nonempty), List.flatMap_cons, listed_extend touch own next,
        List.append_assoc]
      rfl
  | case3 a b rest apart ih =>
      rw [List.flatMap_cons, ih (List.forall_mem_cons.1 nonempty).2]
      rfl

theorem flatMap_listed_joined (nonempty : ∀ b ∈ xs, b.first < b.past) :
    (joined xs).flatMap listed = xs.flatMap listed := by
  cases xs with
  | nil => rfl
  | cons a rest => exact flatMap_listed_joinFrom nonempty

theorem has_joined (nonempty : ∀ b ∈ xs, b.first < b.past) :
    (∃ c ∈ joined xs, c.Has k v) ↔ ∃ c ∈ xs, c.Has k v := by
  simp only [← mem_listed, ← List.mem_flatMap]
  rw [flatMap_listed_joined nonempty]

theorem nonempty_joinFrom (nonempty : ∀ b ∈ a :: xs, b.first < b.past)
    (member : c ∈ joinFrom a xs) : c.first < c.past := by
  fun_induction joinFrom a xs with
  | case1 a => exact nonempty c member
  | case2 a b rest touch ih => exact ih (nonempty_extend touch.1 nonempty) member
  | case3 a b rest apart ih =>
      obtain ⟨own, next⟩ := List.forall_mem_cons.1 nonempty
      rcases List.mem_cons.1 member with rfl | behind
      · exact own
      · exact ih next behind

theorem nonempty_joined (nonempty : ∀ b ∈ xs, b.first < b.past) :
    ∀ c ∈ joined xs, c.first < c.past := by
  cases xs with
  | nil => simp [joined]
  | cons a rest => exact fun c member => nonempty_joinFrom nonempty member

theorem apart_joinFrom (ordered : (a :: xs).Pairwise Before)
    (nonempty : ∀ b ∈ a :: xs, b.first < b.past) : (joinFrom a xs).Pairwise Apart := by
  fun_induction joinFrom a xs with
  | case1 a => exact List.pairwise_singleton _ a
  | case2 a b rest touch ih =>
      exact ih (ordered_extend ordered) (nonempty_extend touch.1 nonempty)
  | case3 a b rest apart ih =>
      obtain ⟨before, later⟩ := List.pairwise_cons.1 ordered
      obtain ⟨own, next⟩ := List.forall_mem_cons.1 nonempty
      refine List.pairwise_cons.2 ⟨?_, ih later next⟩
      intro c member
      have b_after : a.past ≤ b.first := before b List.mem_cons_self
      have b_nonempty := next b List.mem_cons_self
      rcases start_of_mem_joinFrom later next member with ⟨first_eq, value_eq⟩ | beyond
      · rw [Apart, Before, first_eq, value_eq]
        exact ⟨b_after, apart⟩
      · refine ⟨b_after.trans (b_nonempty.le.trans beyond), ?_⟩
        omega

theorem apart_joined (ordered : xs.Pairwise Before) (nonempty : ∀ b ∈ xs, b.first < b.past) :
    (joined xs).Pairwise Apart := by
  cases xs with
  | nil => exact .nil
  | cons a rest => exact apart_joinFrom ordered nonempty

/-- The number in front of a joined arc does not have its value. -/
theorem Apart.not_has_in_front (apart : xs.Pairwise Apart) (a_member : a ∈ xs) (b_member : b ∈ xs)
    (nonempty : a.first < a.past) (in_front : k + 1 = a.first) : ¬b.Has k a.value := by
  rintro ⟨lower, upper, value_eq⟩
  induction apart with
  | nil => simp at a_member
  | @cons c xs beyond _ ih =>
      rcases List.mem_cons.1 a_member with rfl | a_later <;>
        rcases List.mem_cons.1 b_member with rfl | b_later
      · omega
      · have before : a.past ≤ b.first := (beyond b b_later).1
        omega
      · obtain ⟨before, untouched⟩ := beyond a a_later
        have between : b.past ≤ a.first := before
        exact untouched ⟨by omega, value_eq⟩
      · exact ih a_later b_later

end Geofence.Arc
