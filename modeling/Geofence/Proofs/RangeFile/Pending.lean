/-
# Geofence.Proofs.RangeFile.Pending -- a source that takes items back is a list

A pending sequence keeps its items in two places, and a look ahead moves an item
from one to the other.  Nothing of that can be seen: a call answers as it would
on the plain list of the items still to come, and leaves what it would leave of
that list (`call_spec`).  So does a run of calls of any length, in whatever order
items are taken, looked at, put back and drained (`answers_as_list`).

On the list every call gives out and leaves just the items that were there or
are put back with it, in order (`given_append_left`).  Over a run the items given
out and the items left are those of the source and those put back, none of them
lost and none of them twice.
-/
import Geofence.RangeFile.Pending

namespace Geofence.Pending

set_option autoImplicit false

variable {α : Type}

inductive Call (α : Type) where
  | next
  | hasNext
  | putBack (x : α)
  | drain
  deriving DecidableEq, Repr

/-- What a call is answered with; there is no item where nothing is left. -/
inductive Answer (α : Type) where
  | item (x : Option α)
  | flag (more : Bool)
  | done
  | items (xs : List α)
  deriving DecidableEq, Repr

/-- The answer to a call, and the sequence after it. -/
def call (p : Pending α) : Call α → Answer α × Pending α
  | .next =>
    match p.next? with
    | some (x, rest) => (.item (some x), rest)
    | none => (.item none, p)
  | .hasNext => (.flag p.hasNext.1, p.hasNext.2)
  | .putBack x => (.done, p.putBack x)
  | .drain => (.items p.drain.1, p.drain.2)

/-- The answer to the same call on a plain list, and the list after it. -/
def listCall (items : List α) : Call α → Answer α × List α
  | .next =>
    match items with
    | x :: rest => (.item (some x), rest)
    | [] => (.item none, [])
  | .hasNext => (.flag (!items.isEmpty), items)
  | .putBack x => (.done, x :: items)
  | .drain => (.items items, [])

/-- The answers to calls made one after the other, and what is left behind them. -/
def run {σ : Type} (step : σ → Call α → Answer α × σ) : σ → List (Call α) → List (Answer α) × σ
  | s, [] => ([], s)
  | s, c :: calls =>
    let (answers, last) := run step (step s c).2 calls
    ((step s c).1 :: answers, last)

def Answer.given : Answer α → List α
  | item x => x.toList
  | flag _ => []
  | done => []
  | items xs => xs

def Call.returned : Call α → List α
  | next => []
  | hasNext => []
  | putBack x => [x]
  | drain => []

/-! ## One call -/

/-- A look ahead tells whether there is an item, and leaves the items as they are. -/
theorem hasNext_spec (p : Pending α) :
    p.hasNext.1 = !p.toList.isEmpty ∧ p.hasNext.2.toList = p.toList := by
  obtain ⟨returned, source⟩ := p
  cases returned with
  | cons x rest => exact ⟨rfl, rfl⟩
  | nil =>
      cases source with
      | cons x rest => exact ⟨rfl, rfl⟩
      | nil => exact ⟨rfl, rfl⟩

theorem drain_spec (p : Pending α) : p.drain.1 = p.toList ∧ p.drain.2.toList = [] := by
  fun_induction drain p with
  | case1 p none_left =>
      have empty := toList_of_next?_eq_none none_left
      exact ⟨empty.symm, empty⟩
  | case2 p x rest taken items last drained ih =>
      rw [drained] at ih
      refine ⟨?_, ih.2⟩
      rw [toList_of_next?_eq_some taken, ← ih.1]

/-- A call answers as on the list of the items to come, and leaves what it leaves of the list. -/
theorem call_spec (p : Pending α) (c : Call α) :
    (p.call c).1 = (listCall p.toList c).1 ∧ (p.call c).2.toList = (listCall p.toList c).2 := by
  cases c with
  | next =>
      cases taken : p.next? with
      | none =>
          have empty := toList_of_next?_eq_none taken
          simp only [call, taken, empty, listCall, and_self]
      | some step =>
          obtain ⟨x, rest⟩ := step
          have items := toList_of_next?_eq_some taken
          simp only [call, taken, items, listCall, and_self]
  | hasNext =>
      obtain ⟨answer, same⟩ := p.hasNext_spec
      simp only [call, listCall, answer, same, and_self]
  | putBack x => exact ⟨rfl, rfl⟩
  | drain =>
      obtain ⟨all, empty⟩ := p.drain_spec
      simp only [call, listCall, all, empty, and_self]

/-- What a call gives out and what it leaves are the items put back with it and those of the list,
in order. -/
theorem given_append_left (items : List α) (c : Call α) :
    (listCall items c).1.given ++ (listCall items c).2 = c.returned ++ items := by
  cases c with
  | next =>
      cases items with
      | nil => rfl
      | cons x rest => rfl
  | hasNext => rfl
  | putBack x => rfl
  | drain => exact List.append_nil items

/-! ## A run of calls -/

theorem run_call_spec (p : Pending α) (calls : List (Call α)) :
    (run call p calls).1 = (run listCall p.toList calls).1 ∧
      (run call p calls).2.toList = (run listCall p.toList calls).2 := by
  induction calls generalizing p with
  | nil => exact ⟨rfl, rfl⟩
  | cons c calls ih =>
      obtain ⟨answer, left⟩ := p.call_spec c
      obtain ⟨answers, last⟩ := ih (p.call c).2
      rw [left] at answers last
      simp only [run]
      exact ⟨by rw [answer, answers], last⟩

/-- A run of calls on a list loses no item and gives out none twice. -/
theorem run_listCall_perm (items : List α) (calls : List (Call α)) :
    ((run listCall items calls).1.flatMap Answer.given ++ (run listCall items calls).2).Perm
      (calls.flatMap Call.returned ++ items) := by
  induction calls generalizing items with
  | nil => exact List.Perm.refl items
  | cons c calls ih =>
      have step := given_append_left items c
      have later := (ih (listCall items c).2).append_left (listCall items c).1.given
      have moved := List.perm_append_comm_assoc (listCall items c).1.given
        (calls.flatMap Call.returned) (listCall items c).2
      rw [step] at moved
      simp only [run, List.flatMap_cons, List.append_assoc]
      exact later.trans (moved.trans (List.perm_append_comm_assoc _ _ _))

/-- Whatever is asked of a pending sequence, and in whichever order, it answers as the plain list of
its items, and what is left is what is left of the list. The items given out and those left are the
items of the source and those put back, each as often as it came in. -/
theorem answers_as_list (items : List α) (calls : List (Call α)) :
    (run call (ofList items) calls).1 = (run listCall items calls).1 ∧
      (run call (ofList items) calls).2.toList = (run listCall items calls).2 ∧
      ((run call (ofList items) calls).1.flatMap Answer.given ++
        (run call (ofList items) calls).2.toList).Perm
          (calls.flatMap Call.returned ++ items) := by
  obtain ⟨answers, left⟩ := run_call_spec (ofList items) calls
  rw [toList_ofList] at answers left
  refine ⟨answers, left, ?_⟩
  rw [answers, left]
  exact run_listCall_perm items calls

end Geofence.Pending
