/-
# Geofence.RangeFile.Pending -- a source that takes items back

Items come from a source, but an item that was taken can be put back, and comes
first again.  Looking whether there is a next item takes it from the source and
puts it back at once, so the source is asked only once for each item.
`Pending.toList` is what a pending sequence amounts to: its items in the order
in which they will come.
-/
namespace Geofence

set_option autoImplicit false

/-- Items put back, the next one first, and the items not asked for yet. -/
structure Pending (α : Type) where
  returned : List α
  source : List α
  deriving DecidableEq, Repr

namespace Pending

variable {α : Type}

def ofList (items : List α) : Pending α where
  returned := []
  source := items

/-- The items still to come, in order. -/
def toList (p : Pending α) : List α :=
  p.returned ++ p.source

def next? (p : Pending α) : Option (α × Pending α) :=
  match p.returned, p.source with
  | x :: rest, _ => some (x, { p with returned := rest })
  | [], x :: rest => some (x, { p with source := rest })
  | [], [] => none

def putBack (p : Pending α) (x : α) : Pending α :=
  { p with returned := x :: p.returned }

/-- Whether an item remains; the item looked at is put back. -/
def hasNext (p : Pending α) : Bool × Pending α :=
  if p.returned.isEmpty then
    match p.next? with
    | some (x, rest) => (true, rest.putBack x)
    | none => (false, p)
  else (true, p)

def size (p : Pending α) : Nat :=
  p.returned.length + p.source.length

theorem size_of_next? {p q : Pending α} {x : α} (h : p.next? = some (x, q)) :
    q.size < p.size := by
  obtain ⟨returned, source⟩ := p
  cases returned with
  | cons y rest => simp only [next?, Option.some.injEq, Prod.mk.injEq] at h; simp [size, ← h.2]
  | nil =>
    cases source with
    | cons y rest => simp only [next?, Option.some.injEq, Prod.mk.injEq] at h; simp [size, ← h.2]
    | nil => simp [next?] at h

/-- All items still to come, taken one by one, and what then remains. -/
def drain (p : Pending α) : List α × Pending α :=
  match _h : p.next? with
  | none => ([], p)
  | some (x, rest) =>
    let (items, last) := drain rest
    (x :: items, last)
termination_by p.size
decreasing_by exact size_of_next? _h

theorem toList_ofList (items : List α) : (ofList items).toList = items := rfl

theorem toList_putBack (p : Pending α) (x : α) : (p.putBack x).toList = x :: p.toList := rfl

theorem toList_foldr_putBack (p : Pending α) (items : List α) :
    (items.foldr (fun x q => q.putBack x) p).toList = items ++ p.toList := by
  induction items with
  | nil => rfl
  | cons x items ih => rw [List.foldr_cons, toList_putBack, ih, List.cons_append]

theorem toList_of_next?_eq_none {p : Pending α} (h : p.next? = none) : p.toList = [] := by
  obtain ⟨returned, source⟩ := p
  cases returned with
  | cons x rest => simp [next?] at h
  | nil =>
    cases source with
    | cons x rest => simp [next?] at h
    | nil => rfl

theorem toList_of_next?_eq_some {p q : Pending α} {x : α} (h : p.next? = some (x, q)) :
    p.toList = x :: q.toList := by
  obtain ⟨returned, source⟩ := p
  cases returned with
  | cons y rest =>
    simp only [next?, Option.some.injEq, Prod.mk.injEq] at h
    rw [← h.1, ← h.2]
    rfl
  | nil =>
    cases source with
    | cons y rest =>
      simp only [next?, Option.some.injEq, Prod.mk.injEq] at h
      rw [← h.1, ← h.2]
      rfl
    | nil => simp [next?] at h

theorem hasNext_of_toList_eq_nil {p : Pending α} (h : p.toList = []) : p.hasNext = (false, p) := by
  obtain ⟨returned, source⟩ := p
  rw [toList, List.append_eq_nil_iff] at h
  obtain ⟨rfl, rfl⟩ := h
  rfl

end Pending

end Geofence
