/-
# Geofence.Proofs.RangeFile.Session -- iterations between other calls

Iterations over all ranges can be started on a reader at any time and asked for
their next range between any other calls, those of other iterations included.
They share the table that the reader keeps, and yet none of them notices: what an
iteration gave out when it was asked `n` times is the walk over the first `n`
ranges of a reader of the same file that was asked nothing else
(`Session.Follows.after`).  So all calls up to the closing are answered as on a
fresh reader, and every lookup, table and new iteration behind it is refused
(`answers_as_fresh`).
-/
import Geofence.Proofs.RangeFile.Iteration
import Geofence.Proofs.RangeFile.Untrusted

namespace Geofence.RangeFile

set_option autoImplicit false

namespace Reader

/-- A walk with the answer to one step more. -/
def Walk.extend (walk : Walk) : Except Fault (Option CellRange) → Walk
  | .ok (some q) => { walk with ranges := walk.ranges.push q }
  | .ok none => walk
  | .error fault => { walk with fault := some fault }

end Reader

/-- An iteration, how often it was asked for a range, and what it gave out. -/
structure Started where
  iteration : Iteration
  asked : Nat
  given : Reader.Walk

/-- A reader and the iterations that were started on it. -/
structure Session where
  reader : Reader
  started : List Started

inductive Session.Call where
  | ask (c : Reader.Call)
  | start
  | next (i : Nat)
  deriving DecidableEq, Repr

def Started.fresh (f : Format) : Started where
  iteration := .start f
  asked := 0
  given := { ranges := #[], fault := none }

def Session.of (r : Reader) : Session where
  reader := r
  started := []

section

variable [Container.Compression]

def Started.next (x : Started) (r : Reader) : Started where
  iteration := (r.next x.iteration).2.1
  asked := x.asked + 1
  given := x.given.extend (r.next x.iteration).1

namespace Session

def call (u : Session) : Call → Session
  | .ask c => { u with reader := u.reader.call c }
  | .start => { u with started := u.started ++ [.fresh u.reader.format] }
  | .next i =>
    match u.started[i]? with
    | none => u
    | some x =>
      { reader := (u.reader.next x.iteration).2.2, started := u.started.set i (x.next u.reader) }

def after (u : Session) (calls : List Call) : Session :=
  calls.foldl call u

end Session

variable {r s : Reader}

/-! ## One iteration -/

/-- What an iteration gave out and what is to come of it make up the walk of a reader: it is over, or
under way with as many ranges as it was asked for. -/
inductive Started.Follows (s : Reader) : Started → Prop where
  | finished {asked : Nat} {given : Reader.Walk}
      (walk_eq : ∀ limit, asked ≤ limit → (s.walk (some limit)).1 = given) :
      Follows s { iteration := .ended, asked, given }
  | underway {it : Iteration} {ranges : Array CellRange}
      (walk_eq : ∀ limit, ranges.size ≤ limit →
        (s.walk (some limit)).1 = it.onward s limit ranges) :
      Follows s { iteration := it, asked := ranges.size, given := { ranges, fault := none } }

namespace Started

theorem follows_fresh (format_eq : r.format = s.format) : Follows s (.fresh r.format) := by
  have begins : ∀ limit, (#[] : Array CellRange).size ≤ limit →
      (s.walk (some limit)).1 = (Iteration.start s.format).onward s limit #[] := by
    intro limit _
    exact Reader.walk_eq_onward s limit
  rw [format_eq]
  exact .underway begins

/-- An iteration gave out the first ranges of the walk. -/
theorem Follows.given_eq {x : Started} (follows : Follows s x) :
    x.given = (s.walk (some x.asked)).1 := by
  cases follows with
  | finished walk_eq => exact (walk_eq _ le_rfl).symm
  | underway walk_eq => rw [walk_eq _ le_rfl, Reader.onward_of_full _ rfl]

theorem Follows.next {x : Started} (follows : Follows s x) (agrees : Reader.Agrees r s) :
    Follows s (x.next r) := by
  obtain ⟨-, ended, onward_eq⟩ := agrees.next x.iteration
  unfold Started.next
  cases follows with
  | finished walk_eq =>
      -- an iteration that is over is asked in vain
      exact .finished fun limit later => walk_eq limit (Nat.le_of_succ_le later)
  | @underway it ranges walk_eq =>
      dsimp only at ended onward_eq ⊢
      cases answer : (r.next it).1 with
      | error fault =>
          rw [ended (by simp [answer])]
          apply Follows.finished
          intro limit later
          rw [walk_eq limit (Nat.le_of_succ_le later), onward_eq limit ranges later, answer]
          rfl
      | ok found =>
          cases found with
          | none =>
              rw [ended (by simp [answer])]
              apply Follows.finished
              intro limit later
              rw [walk_eq limit (Nat.le_of_succ_le later), onward_eq limit ranges later, answer]
              rfl
          | some q =>
              have size_eq : (ranges.push q).size = ranges.size + 1 := Array.size_push q
              rw [← size_eq]
              apply Follows.underway
              intro limit later
              have room : ranges.size < limit := by omega
              rw [walk_eq limit room.le, onward_eq limit ranges room, answer]

end Started

/-! ## Runs of calls -/

namespace Session

/-- The reader is one of the same file, and the iterations from the `n`-th on are walks over it. -/
structure Follows (s : Reader) (n : Nat) (u : Session) : Prop where
  agrees : Reader.Agrees u.reader s
  bound : n ≤ u.started.length
  started : ∀ x ∈ u.started.drop n, x.Follows s

variable {u : Session} {n : Nat}

theorem Follows.call (follows : Follows s n u) (c : Call)
    (closes : c = .ask .close → s.closed = true) : Follows s n (u.call c) := by
  obtain ⟨agrees, bound, started⟩ := follows
  cases c with
  | ask c => exact ⟨agrees.call c fun close => closes (congrArg Call.ask close), bound, started⟩
  | start =>
      refine ⟨agrees, ?_, ?_⟩
      · exact bound.trans (by simp [Session.call])
      · intro x member
        dsimp only [Session.call] at member
        rw [List.drop_append_of_le_length bound, List.mem_append, List.mem_singleton] at member
        rcases member with earlier | rfl
        · exact started x earlier
        · exact Started.follows_fresh agrees.format_eq
  | next i =>
      unfold Session.call
      dsimp only
      cases found : u.started[i]? with
      | none => exact ⟨agrees, bound, started⟩
      | some x =>
          refine ⟨(agrees.next x.iteration).agrees, by simpa using bound, ?_⟩
          intro y member
          dsimp only at member
          rw [List.drop_set] at member
          split at member
          · -- the iteration asked is one in front of the `n`-th, and only moves the reader
            exact started y member
          · rename_i later
            rcases List.mem_or_eq_of_mem_set member with other | rfl
            · exact started y other
            · refine (started x ?_).next agrees
              rw [List.mem_iff_getElem?]
              refine ⟨i - n, ?_⟩
              rw [List.getElem?_drop, Nat.add_sub_cancel' (not_lt.1 later), found]

/-- Iterations are walks over a reader of the same file, whatever is called between their steps. -/
theorem Follows.after (follows : Follows s n u) (calls : List Call)
    (closes : .ask .close ∈ calls → s.closed = true) : Follows s n (u.after calls) := by
  induction calls generalizing u with
  | nil => exact follows
  | cons c calls ih =>
      refine ih (follows.call c fun close => closes ?_) fun later => closes ?_
      · exact close ▸ List.mem_cons_self
      · exact List.mem_cons_of_mem c later

theorem after_append (u : Session) (calls later : List Call) :
    u.after (calls ++ later) = (u.after calls).after later :=
  List.foldl_append

theorem closed_after {calls : List Call} (closing : .ask .close ∈ calls) :
    (u.after calls).reader.closed = true ∧ (u.after calls).reader.Faithful := by
  obtain ⟨earlier, later, rfl⟩ := List.append_of_mem closing
  have follows : Follows (u.after earlier).reader.close (u.after earlier).started.length
      ((u.after earlier).call (.ask .close)) := ⟨.refl nofun, le_rfl, by simp [call]⟩
  have agrees := (follows.after later fun _ => rfl).agrees
  rw [after_append]
  exact ⟨agrees.closed_eq, agrees.faithful⟩

end Session

/-- The reader refuses to look up, to give out tables and to iterate. -/
structure Reader.Refuses (r : Reader) (fault : Fault) : Prop where
  find : ∀ c, (r.find c).1 = .error fault
  block : ∀ p, (r.block p).1 = .error fault
  walk : ∀ limit, limit ≠ some 0 → (r.walk limit).1 = { ranges := #[], fault := some fault }

theorem Reader.refuses_of_closed (closed : r.closed = true) : r.Refuses .rangeReaderClosed where
  find := fun c => by rw [Reader.find, if_pos closed]
  block := fun p => by rw [Reader.block, if_pos closed]
  walk := fun limit wanted => by
    have some_wanted : ¬limit = some (#[] : Array CellRange).size := wanted
    have some_tables : 0 < r.format.tableCount :=
      (Nat.zero_le _).trans_lt r.format.livePrefixes_lt_tableCount
    obtain ⟨count, count_eq⟩ := Nat.exists_eq_succ_of_ne_zero some_tables.ne'
    rw [Reader.walk, count_eq, walkTables, if_neg some_wanted, Reader.block, if_pos closed]

/-- Every call up to the closing of a reader is answered as on a reader that was just opened on the
same bytes, and every iteration gives out what it would give out there.  Behind the closing every
lookup and every table is refused, and so are the iterations that are started then: the call is to
blame. -/
theorem answers_as_fresh {path other : String} {bytes : ByteArray} {expected others : Expected}
    {r fresh : Reader} (opened : Reader.ofBytes path bytes expected = .ok r)
    (opened_again : Reader.ofBytes other bytes others = .ok fresh) (calls : List Session.Call) :
    (.ask .close ∉ calls →
      (∀ c, ((Session.of r).after calls).reader.answer c = fresh.answer c) ∧
      ∀ x ∈ ((Session.of r).after calls).started, x.given = (fresh.walk (some x.asked)).1) ∧
    (.ask .close ∈ calls →
      Fault.rangeReaderClosed.kind = .argument ∧
      ((Session.of r).after calls).reader.Refuses .rangeReaderClosed ∧
      ∀ later, ∀ x ∈ ((Session.of r).after (calls ++ later)).started.drop
          ((Session.of r).after calls).started.length,
        0 < x.asked → x.given = { ranges := #[], fault := some .rangeReaderClosed }) := by
  obtain rfl := Reader.ofBytes_unique opened opened_again
  have faithful := Reader.faithful_of_ofBytes opened
  constructor
  · intro still_open
    have begun : Session.Follows r 0 (.of r) := ⟨.refl faithful, le_rfl, nofun⟩
    have follows := begun.after calls fun closing => absurd closing still_open
    constructor
    · intro c
      exact follows.agrees.answer c
    · intro x member
      exact (follows.started x member).given_eq
  · intro closing
    obtain ⟨closed, faithful_still⟩ := Session.closed_after (u := .of r) closing
    have refuses := Reader.refuses_of_closed closed
    refine ⟨rfl, refuses, ?_⟩
    intro later x member asked
    -- what is started from here on follows the reader as it was closed
    have begun : Session.Follows ((Session.of r).after calls).reader
        ((Session.of r).after calls).started.length ((Session.of r).after calls) :=
      ⟨.refl faithful_still, le_rfl, by simp⟩
    have follows := begun.after later fun _ => closed
    rw [Session.after_append] at member
    rw [(follows.started x member).given_eq]
    exact refuses.walk _ fun nothing => asked.ne' (Option.some.inj nothing)

end

/-- An iteration and a lookup share the table that is kept, in a file with a table that no writer
makes; then the reader is closed. -/
theorem answers_as_fresh_small : ∃ (w : Writer) (r : Reader),
    Writer.create smallFormat false = .ok w ∧
    Reader.ofBytes "small" ({ w with
      tables := #[strayTable, [], [], [], [], [], [], []] }).close.2.contents Expected.nothing =
        .ok r ∧
    (∃ u, (Session.of r).after [.start, .next 0, .ask (.block 1), .next 0] = u ∧
      (∀ c, u.reader.answer c = r.answer c) ∧
      ∀ x ∈ u.started, x.given = (r.walk (some x.asked)).1) ∧
    ((Session.of r).after [.start, .next 0, .ask .close]).reader.Refuses .rangeReaderClosed := by
  have session : (do
      let w ← Writer.create smallFormat false
      let r ← Reader.ofBytes "small" ({ w with
        tables := #[strayTable, [], [], [], [], [], [], []] }).close.2.contents Expected.nothing
      return r.closed) = .ok false := by decide +kernel
  obtain ⟨w, created, session⟩ := Outcome.bind_eq_ok.1 session
  obtain ⟨r, opened, -⟩ := Outcome.bind_eq_ok.1 session
  refine ⟨w, r, created, opened, ?_, ?_⟩
  · exact ⟨_, rfl, (answers_as_fresh opened opened _).1 (by decide)⟩
  · exact ((answers_as_fresh opened opened _).2 (by decide)).2.1

end Geofence.RangeFile
