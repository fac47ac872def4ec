/-
# Geofence.Proofs.Outcome -- outcomes of steps in a row

What it means that a sequence of steps, each of which may be refused, goes
through: every step went through, and `mapM` relates its input and output item
by item.

A step that may be refused blames someone: the kind of its fault says whom.
`Blames` bounds the kinds that a step can come up with; a sequence of steps
blames no one whom none of its steps blames.
-/
import Geofence.Fault
import Mathlib

set_option autoImplicit false

namespace Geofence.Outcome

variable {ε α β : Type}

theorem bind_eq_ok {x : Except ε α} {step : α → Except ε β} {b : β} :
    (x >>= step) = .ok b ↔ ∃ a, x = .ok a ∧ step a = .ok b := by
  cases x <;> simp [bind, Except.bind]

theorem bind_eq_error {x : Except ε α} {step : α → Except ε β} {e : ε} :
    (x >>= step) = .error e ↔ x = .error e ∨ ∃ a, x = .ok a ∧ step a = .error e := by
  cases x <;> simp [bind, Except.bind]

theorem ok_bind (a : α) (step : α → Except ε β) : ((Except.ok a : Except ε α) >>= step) = step a :=
  rfl

theorem error_bind (e : ε) (step : α → Except ε β) :
    ((Except.error e : Except ε α) >>= step) = .error e :=
  rfl

theorem pure_eq_ok (a : α) : (pure a : Except ε α) = .ok a :=
  rfl

/-- A traversal goes through when every item does. -/
theorem mapM_eq_ok_iff {step : α → Except ε β} {xs : List α} {ys : List β} :
    xs.mapM step = .ok ys ↔ List.Forall₂ (fun x y => step x = .ok y) xs ys := by
  induction xs generalizing ys with
  | nil => cases ys <;> simp [pure_eq_ok]
  | cons x xs ih =>
      rw [List.mapM_cons, bind_eq_ok]
      constructor
      · rintro ⟨y, made, rest⟩
        obtain ⟨zs, others, last⟩ := bind_eq_ok.1 rest
        cases last
        exact .cons made (ih.1 others)
      · intro related
        cases related with
        | cons made others => exact ⟨_, made, bind_eq_ok.2 ⟨_, ih.2 others, rfl⟩⟩

theorem exists_of_mapM_ok {step : α → Except ε β} {xs : List α} {ys : List β} {x : α}
    (made : xs.mapM step = .ok ys) (member : x ∈ xs) : ∃ y, step x = .ok y := by
  rw [mapM_eq_ok_iff] at made
  obtain ⟨i, inside, rfl⟩ := List.mem_iff_getElem.1 member
  exact ⟨_, made.get inside (made.length_eq ▸ inside)⟩

/-- A traversal is refused for one of its items. -/
theorem exists_of_mapM_error {step : α → Except ε β} {xs : List α} {e : ε}
    (refused : xs.mapM step = .error e) : ∃ x ∈ xs, step x = .error e := by
  induction xs with
  | nil => contradiction
  | cons x xs ih =>
      rw [List.mapM_cons] at refused
      rcases bind_eq_error.1 refused with own | ⟨y, -, rest⟩
      · exact ⟨x, List.mem_cons_self, own⟩
      · rcases bind_eq_error.1 rest with later | ⟨ys, -, last⟩
        · obtain ⟨z, member, found⟩ := ih later
          exact ⟨z, List.mem_cons_of_mem _ member, found⟩
        · contradiction

theorem exists_mapM_ok {step : α → Except ε β} {xs : List α}
    (each : ∀ x ∈ xs, ∃ y, step x = .ok y) : ∃ ys, xs.mapM step = .ok ys := by
  induction xs with
  | nil => exact ⟨[], rfl⟩
  | cons x xs ih =>
      obtain ⟨y, made⟩ := each x List.mem_cons_self
      obtain ⟨ys, others⟩ := ih fun z later => each z (List.mem_cons_of_mem _ later)
      rw [mapM_eq_ok_iff] at others
      exact ⟨y :: ys, mapM_eq_ok_iff.2 (.cons made others)⟩

/-- A traversal is refused for the first of its items that is. -/
theorem mapM_append_cons {step : α → Except ε β} {xs zs : List α} {x : α} {e : ε}
    (before : ∀ y ∈ xs, ∃ z, step y = .ok z) (refused : step x = .error e) :
    (xs ++ x :: zs).mapM step = .error e := by
  obtain ⟨ys, made⟩ := exists_mapM_ok before
  rw [List.mapM_append, made, ok_bind, List.mapM_cons, refused, error_bind]
  rfl

/-- A traversal whose steps go through goes through: what holds of every item made holds of
all, and the items are told by what they were made from. -/
theorem exists_mapM_eq_ok {γ : Type} {step : α → Except ε β} {holds : β → Prop} {f : α → γ}
    {g : β → γ} {xs : List α} (each : ∀ x ∈ xs, ∃ y, step x = .ok y ∧ holds y ∧ g y = f x) :
    ∃ ys, xs.mapM step = .ok ys ∧ (∀ y ∈ ys, holds y) ∧ ys.map g = xs.map f := by
  induction xs with
  | nil => exact ⟨[], rfl, by simp, rfl⟩
  | cons x xs ih =>
      obtain ⟨y, made, held, same⟩ := each x List.mem_cons_self
      obtain ⟨ys, others, all, image⟩ := ih fun z later => each z (List.mem_cons_of_mem _ later)
      refine ⟨y :: ys, ?_, List.forall_mem_cons.2 ⟨held, all⟩, ?_⟩
      · rw [mapM_eq_ok_iff] at others ⊢
        exact .cons made others
      · rw [List.map_cons, List.map_cons, same, image]

end Geofence.Outcome

namespace Geofence

/-! ## Whom a step can blame -/

variable {α β : Type} {kinds others : Set Fault.Kind}

/-- If the step is refused, then for a fault of one of these kinds. -/
def Blames (kinds : Set Fault.Kind) (x : Except Fault α) : Prop :=
  ∀ fault, x = .error fault → fault.kind ∈ kinds

namespace Blames

theorem ok (a : α) : Blames kinds (.ok a) :=
  nofun

theorem error {fault : Fault} (member : fault.kind ∈ kinds) :
    Blames kinds (.error fault : Except Fault α) := by
  rintro _ ⟨⟩
  exact member

theorem mono {x : Except Fault α} (blames : Blames kinds x) (more : kinds ⊆ others) :
    Blames others x :=
  fun fault refused => more (blames fault refused)

theorem bind {x : Except Fault α} {step : α → Except Fault β} (first : Blames kinds x)
    (next : ∀ a, x = .ok a → Blames kinds (step a)) : Blames kinds (x >>= step) := by
  intro fault refused
  rcases Outcome.bind_eq_error.1 refused with early | ⟨a, made, late⟩
  · exact first fault early
  · exact next a made fault late

theorem mapM {step : α → Except Fault β} {xs : List α} (each : ∀ x ∈ xs, Blames kinds (step x)) :
    Blames kinds (xs.mapM step) := by
  intro fault refused
  obtain ⟨x, member, own⟩ := Outcome.exists_of_mapM_error refused
  exact each x member fault own

end Blames

end Geofence
