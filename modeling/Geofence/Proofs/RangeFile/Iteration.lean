/-
# Geofence.Proofs.RangeFile.Iteration -- a walk in steps

A walk over all ranges can be made in steps.  What is still to come of an
iteration is a walk of its own (`Iteration.onward`), which depends on the file
and on how far the iteration has come, not on what the reader did in between.
Each step takes the first range off it, or is refused where it is refused
(`Agrees.next`).
-/
import Geofence.Proofs.RangeFile.Calls
import Geofence.RangeFile.Access

namespace Geofence.RangeFile

set_option autoImplicit false

variable [Container.Compression]

namespace Iteration

/-- The walk that goes on from an iteration, behind the ranges that it gave out. -/
def onward (it : Iteration) (r : Reader) (limit : Nat) (done : Array CellRange) :
    Reader.Walk :=
  let walk := Reader.walkRows r.format it.table (some limit) it.index it.rows done
  if walk.fault.isSome then walk
  else (Reader.walkTables (some limit) it.left it.nextPrefix r walk.ranges).1

def ofTable (b : Block) (nextPrefix left : Nat) : Iteration where
  table := b
  index := 0
  rows := b.rows.toList
  nextPrefix := nextPrefix
  left := left

end Iteration

namespace Reader

variable {r s : Reader} {limit : Nat} {done : Array CellRange}

theorem walk_eq_onward (r : Reader) (limit : Nat) :
    (r.walk (some limit)).1 = (Iteration.start r.format).onward r limit #[] :=
  rfl

/-- Nothing is added to as many ranges as were wanted. -/
theorem onward_of_full (it : Iteration) (full : done.size = limit) :
    it.onward r limit done = { ranges := done, fault := none } := by
  have rows_eq : walkRows r.format it.table (some limit) it.index it.rows done =
      { ranges := done, fault := none } := by
    cases it.rows with
    | nil => rfl
    | cons row rows => rw [walkRows, if_pos (congrArg some full.symm)]
  rw [Iteration.onward, rows_eq]
  cases it.left with
  | zero => rfl
  | succ left => exact congrArg Prod.fst (if_pos (congrArg some full.symm))

/-- What is to come begins with the next row of the table. -/
theorem onward_row (it : Iteration) {row : Row} {rows : List Row} (rows_eq : it.rows = row :: rows)
    (room : done.size < limit) : it.onward r limit done =
      match it.table.rangeOf r.format it.index row with
      | .error fault => { ranges := done, fault := some fault }
      | .ok q => { it with index := it.index + 1, rows := rows }.onward r limit (done.push q) := by
  have some_room : ¬some limit = some done.size := fun full => room.ne' (Option.some.inj full)
  rw [Iteration.onward, rows_eq, walkRows, if_neg some_room]
  cases it.table.rangeOf r.format it.index row with
  | error fault => rfl
  | ok q => rfl

/-- Behind the rows of a table, what is to come begins with those of the next one. -/
theorem onward_table (faithful : r.Faithful) (it : Iteration) {left : Nat} (rows_eq : it.rows = [])
    (left_eq : it.left = left + 1) (room : done.size < limit) : it.onward r limit done =
      match (r.block it.nextPrefix).1 with
      | .error fault => { ranges := done, fault := some fault }
      | .ok b => Iteration.onward (.ofTable b (it.nextPrefix + 1) left) r limit done := by
  have same := ((Agrees.refl faithful).block it.nextPrefix).2
  have some_room : ¬some limit = some done.size := fun full => room.ne' (Option.some.inj full)
  rw [Iteration.onward, rows_eq, left_eq, walkRows]
  dsimp only
  rw [if_neg (by simp), walkTables, if_neg some_room, ← Prod.mk.eta (p := r.block it.nextPrefix)]
  cases (r.block it.nextPrefix).1 with
  | error fault => rfl
  | ok b =>
      -- the reader that goes on has read the table, and walks over the same ranges
      dsimp only
      rw [Iteration.onward, apply_ite Prod.fst, (same.walkTables _ _ _ _).1]
      rfl

/-- What a step of an iteration does: it takes the first range off what is to come, or is refused
where the walk is refused. -/
structure Continues (s : Reader) (it : Iteration)
    (step : Except Fault (Option CellRange) × Iteration × Reader) : Prop where
  agrees : Agrees step.2.2 s
  ended : (∀ q, step.1 ≠ .ok (some q)) → step.2.1 = .ended
  onward_eq : ∀ limit done, done.size < limit → it.onward s limit done =
    match step.1 with
    | .ok (some q) => step.2.1.onward s limit (done.push q)
    | .ok none => { ranges := done, fault := none }
    | .error fault => { ranges := done, fault := some fault }

theorem Agrees.advance_row (agrees : Agrees r s) (left p : Nat) (b : Block) (index : Nat)
    (row : Row) (rows : List Row) : Continues s
      { table := b, index := index, rows := row :: rows, nextPrefix := p, left := left }
      (r.advance left p b index (row :: rows)) := by
  rw [Reader.advance]
  cases range_eq : b.rangeOf r.format index row with
  | error fault =>
      refine ⟨agrees, fun _ => rfl, ?_⟩
      intro limit done room
      rw [onward_row _ rfl room, ← agrees.format_eq, range_eq]
  | ok q =>
      refine ⟨agrees, fun other => absurd rfl (other q), ?_⟩
      intro limit done room
      rw [onward_row _ rfl room, ← agrees.format_eq, range_eq]

theorem Agrees.advance (agrees : Agrees r s) (left p : Nat) (b : Block) (index : Nat)
    (rows : List Row) : Continues s
      { table := b, index := index, rows := rows, nextPrefix := p, left := left }
      (r.advance left p b index rows) := by
  induction left generalizing r p b index rows with
  | zero =>
      cases rows with
      | nil => exact ⟨agrees, fun _ => rfl, fun _ _ _ => rfl⟩
      | cons row rows => exact agrees.advance_row 0 p b index row rows
  | succ left ih =>
      cases rows with
      | cons row rows => exact agrees.advance_row (left + 1) p b index row rows
      | nil =>
          obtain ⟨answer, same⟩ := agrees.block p
          rw [Reader.advance, ← Prod.mk.eta (p := r.block p), answer]
          cases found : (s.block p).1 with
          | error fault =>
              refine ⟨same, fun _ => rfl, ?_⟩
              intro limit done room
              rw [onward_table agrees.others_faithful _ rfl rfl room, found]
          | ok c =>
              obtain ⟨still, ended, onward_eq⟩ := ih same (p + 1) c 0 c.rows.toList
              refine ⟨still, ended, ?_⟩
              intro limit done room
              rw [onward_table agrees.others_faithful _ rfl rfl room, found]
              exact onward_eq limit done room

/-- A reader of the same file steps through what is to come of an iteration. -/
theorem Agrees.next (agrees : Agrees r s) (it : Iteration) : Continues s it (r.next it) :=
  agrees.advance it.left it.nextPrefix it.table it.index it.rows

end Reader

end Geofence.RangeFile
