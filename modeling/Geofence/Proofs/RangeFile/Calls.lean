/-
# Geofence.Proofs.RangeFile.Calls -- a reader and the calls made on it

A reader keeps the table read last, so every call may change it.  The table kept
is the one that would be read again (`Reader.Faithful`), whatever the bytes hold.
So two readers of the same container answer alike, whatever either was asked
before (`Agrees.block`, `Agrees.find`, `Agrees.walk`), and a reader that is still
open agrees with itself as it was when it was opened (`Agrees.after`).
-/
import Geofence.Proofs.Table.Loaded
import Geofence.RangeFile.Reader

namespace Geofence.RangeFile

set_option autoImplicit false

inductive Reader.Call where
  | find (c : Cell)
  | block (p : Int)
  | walk (limit : Option Nat)
  | close
  deriving DecidableEq, Repr

namespace Reader

variable [Container.Compression] {r s t : Reader}

def call (r : Reader) : Call → Reader
  | .find c => (r.find c).2
  | .block p => (r.block p).2
  | .walk limit => (r.walk limit).2
  | .close => r.close

/-- The reader after a run of calls, whether they are answered or refused. -/
def after (r : Reader) (calls : List Call) : Reader :=
  calls.foldl call r

inductive Answer where
  | found (range : Except Fault (Option CellRange))
  | table (b : Except Fault Block)
  | walked (walk : Walk)
  | closed

def answer (r : Reader) : Call → Answer
  | .find c => .found (r.find c).1
  | .block p => .table (r.block p).1
  | .walk limit => .walked (r.walk limit).1
  | .close => .closed

/-- The table kept is the one that would be read again. -/
def Faithful (r : Reader) : Prop :=
  ∀ b, r.last = some b → r.load b.tablePrefix = .ok b

/-- The readers read the same file, and neither keeps a table that is not in it. -/
structure Agrees (r s : Reader) : Prop where
  format_eq : r.format = s.format
  container_eq : r.container = s.container
  faithful : r.Faithful
  others_faithful : s.Faithful

theorem Agrees.refl (faithful : r.Faithful) : Agrees r r :=
  ⟨rfl, rfl, faithful, faithful⟩

theorem Agrees.symm (agrees : Agrees r s) : Agrees s r :=
  ⟨agrees.format_eq.symm, agrees.container_eq.symm, agrees.others_faithful, agrees.faithful⟩

theorem Agrees.trans (agrees : Agrees r s) (others : Agrees s t) : Agrees r t :=
  ⟨agrees.format_eq.trans others.format_eq, agrees.container_eq.trans others.container_eq,
    agrees.faithful, others.others_faithful⟩

theorem Agrees.load_eq (agrees : Agrees r s) (p : Int) : r.load p = s.load p := by
  rw [load, load, agrees.format_eq, agrees.container_eq]

theorem Agrees.closed_eq (agrees : Agrees r s) : r.closed = s.closed := by
  rw [closed, closed, agrees.container_eq]

/-! ## Tables -/

theorem sound_of_load {p : Int} {b : Block} (loaded : r.load p = .ok b) : Block.Sound p b := by
  obtain ⟨stored, -, loaded⟩ := Outcome.bind_eq_ok.1 loaded
  dsimp only at loaded
  split at loaded
  · contradiction
  · exact Block.sound_of_load loaded

/-- A reader answers with the table that is stored, and keeps it. -/
theorem block_eq {p : Int} (faithful : r.Faithful) (open_eq : r.closed = false)
    (inside : 0 ≤ p ∧ p ≤ r.format.greatestPrefix) :
    (r.block p).1 = r.load p ∧ Agrees (r.block p).2 r := by
  rw [block, open_eq, if_neg Bool.false_ne_true, if_neg (not_not.2 inside)]
  cases keeps : r.kept? p with
  | some b =>
      obtain ⟨last, prefix_eq⟩ := Option.filter_eq_some_iff.1 keeps
      have stored := faithful b last
      rw [beq_iff_eq.1 prefix_eq] at stored
      exact ⟨stored.symm, .refl faithful⟩
  | none =>
      cases loaded : r.load p with
      | error fault => exact ⟨rfl, .refl faithful⟩
      | ok b =>
          refine ⟨rfl, rfl, rfl, ?_, faithful⟩
          rintro _ ⟨⟩
          rw [(sound_of_load loaded).tablePrefix_eq]
          exact loaded

theorem Agrees.block (agrees : Agrees r s) (p : Int) :
    (r.block p).1 = (s.block p).1 ∧ Agrees (r.block p).2 s := by
  by_cases closed : r.closed = true
  · have others_closed := agrees.closed_eq ▸ closed
    rw [Reader.block, if_pos closed, Reader.block, if_pos others_closed]
    exact ⟨rfl, agrees⟩
  by_cases inside : 0 ≤ p ∧ p ≤ r.format.greatestPrefix
  · rw [Bool.not_eq_true] at closed
    obtain ⟨answer, same⟩ := block_eq agrees.faithful closed inside
    obtain ⟨others_answer, -⟩ := block_eq agrees.others_faithful
      (agrees.closed_eq ▸ closed) (agrees.format_eq ▸ inside)
    exact ⟨by rw [answer, others_answer, agrees.load_eq], same.trans agrees⟩
  · have others_closed := agrees.closed_eq ▸ closed
    have outside := agrees.format_eq ▸ inside
    rw [Reader.block, if_neg closed, if_pos inside, Reader.block, if_neg others_closed,
      if_pos outside, agrees.format_eq]
    exact ⟨rfl, agrees⟩

/-! ## Lookups and walks -/

/-- A lookup searches the table that is stored for the prefix of the cell. -/
theorem find_eq_load {c : Cell} (faithful : r.Faithful) (open_eq : r.closed = false)
    (valid : Cell.isValid c = true) (depth_eq : Cell.depth c = r.format.level)
    (inside : 0 ≤ r.format.prefixOf c ∧ r.format.prefixOf c ≤ r.format.greatestPrefix) :
    (r.find c).1 = r.load (r.format.prefixOf c) >>= fun b => findIn r.format b c := by
  have answer := (block_eq faithful open_eq inside).1
  rw [find, open_eq, if_neg Bool.false_ne_true, Cell.validate, if_pos valid]
  dsimp only
  rw [if_neg (not_not.2 depth_eq), ← Prod.mk.eta (p := r.block (r.format.prefixOf c)), answer]
  cases r.load (r.format.prefixOf c) <;> rfl

theorem Agrees.find (agrees : Agrees r s) (c : Cell) :
    (r.find c).1 = (s.find c).1 ∧ Agrees (r.find c).2 s := by
  obtain ⟨answer, same⟩ := agrees.block (r.format.prefixOf c)
  rw [Reader.find, Reader.find, agrees.closed_eq]
  split
  · exact ⟨rfl, agrees⟩
  split
  · exact ⟨rfl, agrees⟩
  rw [← agrees.format_eq]
  split
  · exact ⟨rfl, agrees⟩
  rw [← Prod.mk.eta (p := r.block (r.format.prefixOf c)),
    ← Prod.mk.eta (p := s.block (r.format.prefixOf c)), ← answer]
  cases (r.block (r.format.prefixOf c)).1 with
  | error fault => exact ⟨rfl, same⟩
  | ok b => exact ⟨rfl, same⟩

theorem Agrees.walkTables (agrees : Agrees r s) (limit : Option Nat) (count p : Nat)
    (done : Array CellRange) :
    (walkTables limit count p r done).1 = (walkTables limit count p s done).1 ∧
      Agrees (walkTables limit count p r done).2 s := by
  induction count generalizing r s p done with
  | zero => exact ⟨rfl, agrees⟩
  | succ count ih =>
      obtain ⟨answer, same⟩ := agrees.block p
      have others_same := (agrees.symm.block p).2
      rw [Reader.walkTables, Reader.walkTables]
      split
      · exact ⟨rfl, agrees⟩
      rw [← Prod.mk.eta (p := r.block p), ← Prod.mk.eta (p := s.block p), ← answer,
        ← agrees.format_eq]
      cases (r.block p).1 with
      | error fault => exact ⟨rfl, same⟩
      | ok b =>
          dsimp only
          split
          · exact ⟨rfl, same⟩
          · obtain ⟨walked, still⟩ := ih (same.trans (agrees.symm.trans others_same.symm)) (p + 1) _
            exact ⟨walked, still.trans (others_same.trans agrees)⟩

theorem Agrees.walk (agrees : Agrees r s) (limit : Option Nat) :
    (r.walk limit).1 = (s.walk limit).1 ∧ Agrees (r.walk limit).2 s := by
  rw [Reader.walk, Reader.walk, agrees.format_eq]
  exact agrees.walkTables limit _ 0 #[]

/-! ## Runs of calls -/

theorem Agrees.answer (agrees : Agrees r s) (c : Call) : r.answer c = s.answer c := by
  cases c with
  | find c => exact congrArg Answer.found (agrees.find c).1
  | block p => exact congrArg Answer.table (agrees.block p).1
  | walk limit => exact congrArg Answer.walked (agrees.walk limit).1
  | close => rfl

/-- Whatever is asked, the reader goes on agreeing; it may be closed if the other one is. -/
theorem Agrees.call (agrees : Agrees r s) (c : Call)
    (closes : c = .close → s.closed = true) : Agrees (r.call c) s := by
  cases c with
  | find c => exact (agrees.find c).2
  | block p => exact (agrees.block p).2
  | walk limit => exact (agrees.walk limit).2
  | close =>
      have closed : r.container.closed = true := agrees.closed_eq.trans (closes rfl)
      refine ⟨agrees.format_eq, ?_, nofun, agrees.others_faithful⟩
      rw [← agrees.container_eq, Reader.call, Reader.close, Container.Reader.close, ← closed]

theorem walkTables_of_closed (closed : r.closed = true) (limit : Option Nat) (count p : Nat)
    (done : Array CellRange) : (walkTables limit count p r done).2 = r := by
  cases count with
  | zero => rfl
  | succ count =>
      rw [walkTables, block, if_pos closed]
      split <;> rfl

theorem closed_call (closed : r.closed = true) (c : Call) : (r.call c).closed = true := by
  cases c with
  | find c => rwa [call, find, if_pos closed]
  | block p => rwa [call, block, if_pos closed]
  | walk limit => rwa [call, walk, walkTables_of_closed closed]
  | close => rfl

theorem closed_after (closed : r.closed = true) (calls : List Call) :
    (r.after calls).closed = true := by
  induction calls generalizing r with
  | nil => exact closed
  | cons c calls ih => exact ih (closed_call closed c)

theorem Agrees.after_of_not_mem (agrees : Agrees r s) {calls : List Call}
    (stays_open : .close ∉ calls) : Agrees (r.after calls) s := by
  induction calls generalizing r with
  | nil => exact agrees
  | cons c calls ih =>
      rw [List.mem_cons, not_or] at stays_open
      exact ih (agrees.call c fun close => absurd close.symm stays_open.1) stays_open.2

theorem not_mem_of_open_after {calls : List Call} (open_still : (r.after calls).closed = false) :
    .close ∉ calls := by
  intro closing
  obtain ⟨earlier, later, rfl⟩ := List.append_of_mem closing
  have ended : (((r.after earlier).call .close).after later).closed = true := closed_after rfl later
  rw [after, List.foldl_append] at open_still
  exact Bool.false_ne_true (open_still.symm.trans ended)

/-- A reader that is still open agrees with what it was. -/
theorem Agrees.after (agrees : Agrees r s) (calls : List Call)
    (open_still : (r.after calls).closed = false) : Agrees (r.after calls) s :=
  agrees.after_of_not_mem (not_mem_of_open_after open_still)

end Reader

end Geofence.RangeFile
