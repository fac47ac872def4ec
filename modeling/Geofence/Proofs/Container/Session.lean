/-
# Geofence.Proofs.Container.Session -- a writer and the calls made on it

A writer is used by a run of calls: blocks are added, and it is closed or given
up, in any order and any number of times.  All that matters is what was added
before the first call that ends the writing, and which call that was
(`after_eq`): later calls change nothing (`after_of_closed`).  So the file of a
run that is over can be read just when that first call was a closing that went
through, and then it holds the blocks that were added (`session_reads_back`).
-/
import Geofence.Proofs.Container.Frame
import Geofence.Proofs.Container.Reader

namespace Geofence.Container

set_option autoImplicit false

inductive Call where
  | add (item : Item)
  | close
  | abort
  deriving DecidableEq, Repr

def Call.ends : Call → Bool
  | add _ => false
  | close => true
  | abort => true

/-- The first call that ends the writing stands behind the calls that added items. -/
theorem Call.first_end (items : List Item) {last : Call} (ends : last.ends = true)
    (rest : List Call) :
    (items.map Call.add ++ last :: rest).find? Call.ends = some last ∧
      (items.map Call.add ++ last :: rest).takeWhile (fun c => !c.ends) = items.map Call.add := by
  induction items with
  | nil => simp [ends]
  | cons item items ih => simpa [Call.ends] using ih

theorem Reader.not_opened_of_zeros {bytes : ByteArray} {rest : List UInt8}
    (zeros : bytes.data.toList = List.replicate headerSize 0 ++ rest) (path : String)
    (magic : List UInt8) (version : Int) : ¬∃ r, ofBytes path bytes magic version = .ok r := by
  obtain ⟨fault, refused⟩ := ofBytes_refused_of_zeros zeros path magic version
  rw [refused]
  nofun

section

variable [Compression]

namespace Writer

/-- What a call answers, a block id if one was added, and the writer after it. -/
def call (w : Writer) : Call → Except Fault (Option Nat) × Writer
  | .add item =>
    match w.add item.type item.extra item.payload with
    | .ok (id, v) => (.ok (some id), v)
    | .error fault => (.error fault, w)
  | .close => (w.close.1.map fun _ => none, w.close.2)
  | .abort => (.ok none, w.abort)

/-- The writer after a run of calls, whether they go through or are refused. -/
def after (w : Writer) (calls : List Call) : Writer :=
  calls.foldl (fun v c => (v.call c).2) w

/-- The items of the calls of a run that added a block. -/
def added (w : Writer) : List Call → List Item
  | [] => []
  | .add item :: rest =>
    match w.add item.type item.extra item.payload with
    | .ok (_, v) => item :: v.added rest
    | .error _ => w.added rest
  | c :: rest => (w.call c).2.added rest

variable {w : Writer} {calls : List Call}

/-! ## Behind the end -/

theorem call_of_closed (closed : w.closed = true) (c : Call) : (w.call c).2 = w := by
  cases c with
  | add item => rw [call, add, if_pos closed]
  | close => rw [call, close, if_pos closed]
  | abort => rw [call, abort, if_pos closed]

theorem after_of_closed (closed : w.closed = true) (calls : List Call) : w.after calls = w := by
  induction calls with
  | nil => rfl
  | cons c calls ih =>
      change (w.call c).2.after calls = w
      rwa [call_of_closed closed]

theorem added_of_closed (closed : w.closed = true) (calls : List Call) : w.added calls = [] := by
  induction calls with
  | nil => rfl
  | cons c calls ih =>
      cases c with
      | add item => rwa [added, add, if_pos closed]
      | close => rwa [added, call_of_closed closed]; nofun
      | abort => rwa [added, call_of_closed closed]; nofun

/-! ## Up to the end -/

theorem call_add (unsealed : w.sealed = none) (item : Item) :
    w.call (.add item) = (.ok (some w.blockCount), w.appendItem item) := by
  rw [call, add, if_neg (by simp [closed, unsealed])]
  rfl

theorem closed_call_of_ends (c : Call) (ends : c.ends = true) : (w.call c).2.closed = true := by
  cases c with
  | add item => contradiction
  | close =>
      change w.close.2.closed = true
      unfold close
      split
      · assumption
      · split
        · rfl
        · split <;> rfl
  | abort =>
      change w.abort.closed = true
      unfold abort
      split
      · assumption
      · rfl

/-- A call that ends the writing adds nothing, and nothing is added behind it. -/
theorem added_cons_of_ends {c : Call} (ends : c.ends = true) (calls : List Call) :
    w.added (c :: calls) = [] := by
  have ended := closed_call_of_ends (w := w) c ends
  cases c with
  | add item => contradiction
  | close => rw [added, added_of_closed ended]; nofun
  | abort => rw [added, added_of_closed ended]; nofun

/-- A run that is finished: items were added, then a call ended the writing. -/
theorem after_eq (unsealed : w.sealed = none) (finished : (w.after calls).closed = true) :
    ∃ (last : Call) (rest : List Call), last.ends = true ∧
      calls = (w.added calls).map Call.add ++ last :: rest ∧
      w.after calls = ((w.appendAll (w.added calls)).call last).2 := by
  induction calls generalizing w with
  | nil =>
      rw [after, List.foldl_nil, closed, unsealed] at finished
      contradiction
  | cons c calls ih =>
      have step : w.after (c :: calls) = (w.call c).2.after calls := rfl
      by_cases ends : c.ends = true
      · refine ⟨c, calls, ends, ?_, ?_⟩
        · rw [added_cons_of_ends ends]
          rfl
        · rw [added_cons_of_ends ends, step, after_of_closed (closed_call_of_ends c ends)]
          rfl
      · cases c with
        | add item =>
            rw [call_add unsealed] at step
            have added_eq :
                w.added (.add item :: calls) = item :: (w.appendItem item).added calls := by
              rw [added, add, if_neg (by simp [closed, unsealed])]
              rfl
            rw [step] at finished
            obtain ⟨last, rest, last_ends, calls_eq, later_eq⟩ :=
              ih (w := w.appendItem item) unsealed finished
            refine ⟨last, rest, last_ends, ?_, ?_⟩
            · rw [added_eq, List.map_cons, List.cons_append, ← calls_eq]
            · rw [added_eq, step, later_eq]
              rfl
        | close => exact absurd rfl ends
        | abort => exact absurd rfl ends

theorem after_map_add (unsealed : w.sealed = none) (items : List Item) :
    w.after (items.map Call.add) = w.appendAll items := by
  induction items generalizing w with
  | nil => rfl
  | cons item items ih =>
      have step : w.after ((item :: items).map Call.add) =
          (w.call (.add item)).2.after (items.map Call.add) := rfl
      rw [step, call_add unsealed]
      exact ih (w := w.appendItem item) unsealed

theorem exists_create {magic : List UInt8} (four : magic.length = 4) (version : Int)
    (compressed : Bool) : ∃ w, create magic version compressed = .ok w ∧ w.magic = magic ∧
      w.version = version ∧ w.compressed = compressed ∧ w.sealed = none ∧ w.Holds [] :=
  ⟨_, if_neg (not_not.2 four), rfl, rfl, rfl, rfl, List.Forall₂.nil⟩

end Writer

/-- The call that ends the writing decides: a closing that goes through makes a file of the blocks,
and nothing else makes one. -/
theorem Reader.opened_iff_of_ends {w : Writer} {items : List Item} {last : Call}
    (roundTrips : w.compressed = true → Compression.RoundTrips) (unsealed : w.sealed = none)
    (four : w.magic.length = 4) (holds : w.Holds items) (ends : last.ends = true)
    (path : String) :
    ((∃ r, ofBytes path (w.call last).2.contents w.magic w.version = .ok r) ↔
      last = .close ∧ w.close.1 = .ok ()) ∧
    ∀ r, ofBytes path (w.call last).2.contents w.magic w.version = .ok r → r.Holds items := by
  cases last with
  | add item => contradiction
  | abort =>
      have shut := not_opened_of_zeros (Writer.contents_abort unsealed) path w.magic w.version
      exact ⟨iff_of_false shut nofun, fun r opened => absurd ⟨r, opened⟩ shut⟩
  | close =>
      have closing : w.close = (w.close.1, w.close.2) := rfl
      cases result : w.close.1 with
      | error fault =>
          rw [result] at closing
          obtain ⟨rest, zeros⟩ := Writer.exists_of_close_refused unsealed closing
          have shut := not_opened_of_zeros zeros path w.magic w.version
          exact ⟨iff_of_false shut nofun, fun r opened => absurd ⟨r, opened⟩ shut⟩
      | ok u =>
          rw [result] at closing
          obtain ⟨r, opened, read⟩ :=
            ofBytes_close roundTrips unsealed four holds closing path
          refine ⟨iff_of_true ⟨r, opened⟩ ⟨rfl, rfl⟩, ?_⟩
          intro s again
          obtain rfl := Except.ok.inj (opened.symm.trans again)
          exact read

/-- The container of a finished run of calls reads back: it is opened just when the first call that
ends the writing is a closing that goes through, and then its blocks are those that were added. -/
theorem session_reads_back {magic : List UInt8} {version : Int} {compressed : Bool}
    (roundTrips : compressed = true → Compression.RoundTrips) (four : magic.length = 4) :
    ∃ w, Writer.create magic version compressed = .ok w ∧
      ∀ calls : List Call, (w.after calls).closed = true → ∀ path : String,
        ((∃ r, Reader.ofBytes path (w.after calls).contents magic version = .ok r) ↔
          calls.find? Call.ends = some .close ∧
            (w.after (calls.takeWhile fun c => !c.ends)).close.1 = .ok ()) ∧
        ∀ r, Reader.ofBytes path (w.after calls).contents magic version = .ok r →
          r.blockCount = (w.added calls).length ∧
          ∀ (i : Nat) (item : Item), (w.added calls)[i]? = some item → r.read i = .ok
            { id := i, type := item.type, extra := item.extra, payload := item.payload } := by
  obtain ⟨w, created, rfl, rfl, rfl, unsealed, none_yet⟩ :=
    Writer.exists_create four version compressed
  refine ⟨w, created, ?_⟩
  intro calls finished path
  obtain ⟨last, rest, ends, calls_eq, after_eq⟩ := Writer.after_eq unsealed finished
  generalize w.added calls = items at calls_eq after_eq ⊢
  obtain ⟨first, before⟩ := Call.first_end items ends rest
  obtain ⟨magic_eq, version_eq, compressed_eq, sealed_eq⟩ := w.appendAll_frame items
  have holds : (w.appendAll items).Holds items := none_yet.appendAll items
  obtain ⟨opened_iff, held⟩ := Reader.opened_iff_of_ends (by rwa [compressed_eq])
    (sealed_eq.trans unsealed) (by rwa [magic_eq]) holds ends path
  rw [magic_eq, version_eq] at opened_iff held
  rw [calls_eq, first, before, Writer.after_map_add unsealed, ← calls_eq, after_eq]
  refine ⟨by rw [opened_iff, Option.some_inj], ?_⟩
  intro r opened
  exact ⟨(held r opened).blockCount_eq, (held r opened).read_eq⟩

end

/-- Two blocks, of which one is empty, are added and stored; what comes later is refused. -/
def smallRun : List Call :=
  [.add { type := 7, extra := [1], payload := [2, 3] },
    .add { type := 8, extra := [], payload := [] }, .close,
    .add { type := 9, extra := [], payload := [4] }, .abort]

/-- The two blocks read back; without the closing there is nothing to be read. -/
theorem session_reads_back_small : ∃ w, Writer.create rangeMagic 1 true = .ok w ∧
    (∃ r, Reader.ofBytes "small" (w.after smallRun).contents rangeMagic 1 = .ok r ∧
      r.blockCount = 2 ∧
      r.read 0 = .ok { id := 0, type := 7, extra := [1], payload := [2, 3] } ∧
      r.read 1 = .ok { id := 1, type := 8, extra := [], payload := [] }) ∧
    ¬∃ r, Reader.ofBytes "small" (w.after (smallRun.eraseIdx 2)).contents rangeMagic 1 = .ok r := by
  obtain ⟨w, created, reads⟩ :=
    @session_reads_back _ rangeMagic 1 true (fun _ => Frame.roundTrips) (by decide)
  have finished : (do
      let w ← Writer.create rangeMagic 1 true
      return ((w.after smallRun).closed, (w.after (smallRun.eraseIdx 2)).closed,
        w.added smallRun)) = .ok (true, true, [
          { type := 7, extra := [1], payload := [2, 3] },
          { type := 8, extra := [], payload := [] }]) := by decide +kernel
  have stored : (do
      let w ← Writer.create rangeMagic 1 true
      (w.after (smallRun.takeWhile fun c => !c.ends)).close.1) = .ok () := by decide +kernel
  rw [created] at finished stored
  obtain ⟨finished, given_up, added_eq⟩ : _ ∧ _ ∧ _ := by simpa using Except.ok.inj finished
  obtain ⟨readable_iff, blocks⟩ := reads smallRun finished "small"
  obtain ⟨r, opened⟩ := readable_iff.2 ⟨rfl, stored⟩
  obtain ⟨blockCount_eq, read_eq⟩ := blocks r opened
  rw [added_eq] at blockCount_eq read_eq
  refine ⟨w, created, ⟨r, opened, blockCount_eq, read_eq 0 _ rfl, read_eq 1 _ rfl⟩, ?_⟩
  intro readable
  have first_end := ((reads (smallRun.eraseIdx 2) given_up "small").1.1 readable).1
  contradiction

end Geofence.Container
