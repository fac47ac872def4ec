/-
# Geofence.RangeFile.Access -- what a range file is asked for

Decisions: in an allowed list a cell is allowed when a range holds it; in a
disallowed list it is allowed when none does.  Besides, the range that holds a
cell may carry a value.

Ranges: they can be asked for one by one.  An iteration that is under way holds
the table that it is in, but not the reader: between two ranges the reader may
be asked for anything else, or be closed.  The next table is read when the rows
of the last one are used up.  An iteration that was refused is over.

Texts: a dump is a text for the header and one for every table that is not
empty, each under a name of its own.  The text that a fault interrupts is kept
as far as it went.
-/
import Geofence.RangeFile.Reader

set_option autoImplicit false

namespace Geofence.RangeFile.Reader

/-! ## Decisions -/

variable [Container.Compression]

/-- What follows for a cell from whether a range holds it. -/
def decision (f : Format) (found : Bool) : Bool :=
  if f.isAllowedList then found else !found

def isAllowed (r : Reader) (c : Cell) : Except Fault Bool × Reader :=
  match r.find c with
  | (.ok found, s) => (.ok (decision r.format found.isSome), s)
  | (.error fault, s) => (.error fault, s)

/-- The value of the range that holds a cell, in files with values. -/
def valueAt (r : Reader) (c : Cell) : Except Fault (Option Int) × Reader :=
  if r.format.valueSize = 0 then (.ok none, r)
  else
    match r.find c with
    | (.ok found, s) => (.ok (found.map (·.value)), s)
    | (.error fault, s) => (.error fault, s)

end Geofence.RangeFile.Reader

namespace Geofence.RangeFile

/-! ## All ranges, one at a time -/

/-- How far an iteration has come. -/
structure Iteration where
  /-- The table whose rows are given out. -/
  table : Block
  /-- The index of its next row. -/
  index : Nat
  /-- Its rows that are still to come. -/
  rows : List Row
  /-- The prefix of the table that is read next. -/
  nextPrefix : Nat
  /-- The number of tables that are still to be read. -/
  left : Nat

namespace Iteration

def start (f : Format) : Iteration where
  table := .empty 0
  index := 0
  rows := []
  nextPrefix := 0
  left := f.tableCount

def ended : Iteration where
  table := .empty 0
  index := 0
  rows := []
  nextPrefix := 0
  left := 0

end Iteration

namespace Reader

variable [Container.Compression]

/-- The range of the next of `rows`, the rows of `b` from `index` on; behind them come `left`
tables from prefix `p` on. -/
def advance : Nat → Nat → Block → Nat → List Row → Reader →
    Except Fault (Option CellRange) × Iteration × Reader
  | left, p, b, index, row :: rows, r =>
    match b.rangeOf r.format index row with
    | .error fault => (.error fault, .ended, r)
    | .ok q => (.ok (some q), { table := b, index := index + 1, rows, nextPrefix := p, left }, r)
  | 0, _, _, _, [], r => (.ok none, .ended, r)
  | left + 1, p, _, _, [], r =>
    match r.block p with
    | (.error fault, s) => (.error fault, .ended, s)
    | (.ok b, s) => advance left (p + 1) b 0 b.rows.toList s

def next (r : Reader) (it : Iteration) : Except Fault (Option CellRange) × Iteration × Reader :=
  r.advance it.left it.nextPrefix it.table it.index it.rows

end Reader

end Geofence.RangeFile

namespace Geofence.RangeFile.Dump

/-! ## Dumps -/

variable [Container.Compression]

structure Page where
  name : String
  text : String
  deriving DecidableEq, Repr

/-- The pages of a dump in order, and the fault that ended it early. -/
structure Pages where
  pages : Array Page
  fault : Option Fault
  deriving DecidableEq

/-- The digits of base sixteen for a prefix. -/
def hexWidth (f : Format) : Nat :=
  (f.prefixBits + 3) / 4

def headerPage (f : Format) : Page where
  name := "header.txt"
  text :=
    "level=" ++ toString f.level ++ "\n"
    ++ "prefix_bit_count=" ++ toString f.prefixBits ++ "\n"
    ++ "suffix_bit_count=" ++ toString f.suffixBits ++ "\n"
    ++ "suffix_table_block_id_offset=" ++ toString f.firstTable ++ "\n"
    ++ "table_entry_bit_count=" ++ toString f.rowBits ++ "\n"
    ++ "is_allowed_list=" ++ Text.flag f.isAllowedList ++ "\n"
    ++ "entry_value_size=" ++ toString f.valueSize ++ "\n"
    ++ "version=" ++ toString f.version ++ "\n"

def tableName (f : Format) (p : Int) : String :=
  "suffixtable_" ++ Text.hex (hexWidth f) p ++ ".txt"

def rowLine (index : Nat) (r : CellRange) : String :=
  "Entry[" ++ toString index ++ "]=" ++ r.text ++ "\n"

/-- The page of a table, and the fault that ended it early. -/
def tablePage (f : Format) (b : Block) : Page × Option Fault :=
  let p := b.tablePrefix
  let head :=
    "Prefix value=" ++ Text.binary f.prefixBits p ++ " (" ++ Text.hex (hexWidth f) p ++ ")\n"
    ++ "Entry count=" ++ toString b.rows.size ++ "\n"
  let walk := Reader.walkRows f b none 0 b.rows.toList #[]
  let lines := String.join (walk.ranges.toList.zipIdx.map fun (r, i) => rowLine i r)
  let foot :=
    if walk.fault.isSome then ""
    else "Entry value count=" ++ toString b.valueCount ++ "\n"
  ({ name := tableName f p, text := head ++ lines ++ foot }, walk.fault)

/-- The pages of the next `count` tables from prefix `p` on, behind those made so far. -/
def tablePages : Nat → Nat → Reader → Array Page → Pages × Reader
  | 0, _, r, done => ({ pages := done, fault := none }, r)
  | count + 1, p, r, done =>
    match r.block p with
    | (.error fault, s) => ({ pages := done, fault := some fault }, s)
    | (.ok b, s) =>
      if b.isEmpty then tablePages count (p + 1) s done
      else
        let (page, fault) := tablePage r.format b
        if fault.isSome then ({ pages := done.push page, fault }, s)
        else tablePages count (p + 1) s (done.push page)

def pages (r : Reader) : Pages × Reader :=
  tablePages r.format.tableCount 0 r #[headerPage r.format]

end Geofence.RangeFile.Dump
