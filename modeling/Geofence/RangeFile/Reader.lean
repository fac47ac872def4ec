/-
# Geofence.RangeFile.Reader -- looking up cells in a range file

Opening reads the header block and checks that there is a table for every
prefix.  A lookup goes to the table of the cell's prefix and searches its rows.
The table read last is kept, so that further lookups with its prefix need not
decode it again.
-/
import Geofence.RangeFile.Writer

namespace Geofence.RangeFile

set_option autoImplicit false

/-- What a caller wants the header of a file to say; what is absent is not checked. -/
structure Expected where
  level : Option Int
  isAllowedList : Option Bool
  valueSize : Option Int
  version : Option Int
  deriving DecidableEq, Repr

namespace Expected

def nothing : Expected where
  level := none
  isAllowedList := none
  valueSize := none
  version := none

def checkNumber (field : String) (found : Nat) (wanted : Option Int) : Except Fault Unit :=
  match wanted with
  | some n => if (found : Int) = n then .ok () else .error (.unexpectedNumber field found n)
  | none => .ok ()

def checkFlag (field : String) (found : Bool) (wanted : Option Bool) : Except Fault Unit :=
  match wanted with
  | some b => if found = b then .ok () else .error (.unexpectedFlag field found b)
  | none => .ok ()

def check (e : Expected) (f : Format) : Except Fault Unit := do
  checkNumber "level" f.level e.level
  checkFlag "allowed_list" f.isAllowedList e.isAllowedList
  checkNumber "entry_value_size" f.valueSize e.valueSize
  checkNumber "version" f.version e.version

end Expected

/-- A range file that is open for lookups, or was. -/
structure Reader where
  format : Format
  container : Container.Reader
  /-- The table read last. -/
  last : Option Block

namespace Reader

variable [Container.Compression]

def ofContainer (container : Container.Reader) : Except Fault Reader := do
  let header ← container.read 0
  let format ← Header.decode header.type header.payload
  let expected := format.firstTable + format.tableCount
  if container.blockCount ≠ expected then throw (.blockCount container.blockCount expected)
  return { format, container, last := none }

/-- Opens a range file; `path` names it in faults. -/
def ofBytes (path : String) (bytes : ByteArray) (expected : Expected) : Except Fault Reader := do
  let container ←
    Container.Reader.ofBytes path bytes Container.rangeMagic Container.rangeVersion
  let reader ← ofContainer container
  expected.check reader.format
  return reader

def closed (r : Reader) : Bool :=
  r.container.closed

def close (r : Reader) : Reader :=
  { r with container := r.container.close, last := none }

/-- The table of a prefix as it is stored. -/
def load (r : Reader) (p : Int) : Except Fault Block := do
  let stored ← r.container.read (r.format.firstTable + p)
  if stored.type ≠ tableType then throw (.notTableBlock stored.id stored.type)
  Block.load r.format p stored.id stored.payload

def kept? (r : Reader) (p : Int) : Option Block :=
  r.last.filter fun b => b.tablePrefix == p

def block (r : Reader) (p : Int) : Except Fault Block × Reader :=
  if r.closed then (.error .rangeReaderClosed, r)
  else if ¬(0 ≤ p ∧ p ≤ r.format.greatestPrefix) then
    (.error (.prefixOutside p r.format.greatestPrefix), r)
  else
    match r.kept? p with
    | some b => (.ok b, r)
    | none =>
      match r.load p with
      | .ok b => (.ok b, { r with last := some b })
      | .error fault => (.error fault, r)

def findIn (f : Format) (b : Block) (c : Cell) : Except Fault (Option CellRange) := do
  match ← b.find f c with
  | none => return none
  | some i =>
    let row ← b.row i
    let range ← b.rangeOf f i row
    return some range

/-- The range that holds a cell, which must have the level of the file. -/
def find (r : Reader) (c : Cell) : Except Fault (Option CellRange) × Reader :=
  if r.closed then (.error .rangeReaderClosed, r)
  else
    match Cell.validate c with
    | .error fault => (.error fault, r)
    | .ok _ =>
      if Cell.depth c ≠ r.format.level then
        (.error (.lookupLevel c (Cell.depth c) r.format.level), r)
      else
        match r.block (r.format.prefixOf c) with
        | (.error fault, s) => (.error fault, s)
        | (.ok b, s) => (findIn r.format b c, s)

/-! ## All ranges -/

/-- Ranges produced one after the other, and the fault that ended them early. -/
structure Walk where
  ranges : Array CellRange
  fault : Option Fault
  deriving DecidableEq

/-- The ranges of rows, from row `index` on, behind those produced so far; at most `limit`
ranges in all. -/
def walkRows (f : Format) (b : Block) (limit : Option Nat) :
    Nat → List Row → Array CellRange → Walk
  | _, [], done => { ranges := done, fault := none }
  | index, row :: rows, done =>
    if limit = some done.size then { ranges := done, fault := none }
    else
      match b.rangeOf f index row with
      | .error fault => { ranges := done, fault := some fault }
      | .ok r => walkRows f b limit (index + 1) rows (done.push r)

def walkTables (limit : Option Nat) :
    Nat → Nat → Reader → Array CellRange → Walk × Reader
  | 0, _, r, done => ({ ranges := done, fault := none }, r)
  | count + 1, p, r, done =>
    if limit = some done.size then ({ ranges := done, fault := none }, r)
    else
      match r.block p with
      | (.error fault, s) => ({ ranges := done, fault := some fault }, s)
      | (.ok b, s) =>
        let walk := walkRows r.format b limit 0 b.rows.toList done
        if walk.fault.isSome then (walk, s) else walkTables limit count (p + 1) s walk.ranges

/-- The stored ranges in order of their cells: all of them, or the first `limit`. -/
def walk (r : Reader) (limit : Option Nat) : Walk × Reader :=
  walkTables limit r.format.tableCount 0 r #[]

def ranges (r : Reader) : Except Fault (List CellRange) × Reader :=
  let (walk, s) := r.walk none
  match walk.fault with
  | some fault => (.error fault, s)
  | none => (.ok walk.ranges.toList, s)

def blocksFrom : Nat → Nat → Reader → Array Block → Except Fault (Array Block) × Reader
  | 0, _, r, done => (.ok done, r)
  | count + 1, p, r, done =>
    match r.block p with
    | (.error fault, s) => (.error fault, s)
    | (.ok b, s) => blocksFrom count (p + 1) s (done.push b)

def blocks (r : Reader) : Except Fault (Array Block) × Reader :=
  blocksFrom r.format.tableCount 0 r #[]

end Reader

end Geofence.RangeFile
