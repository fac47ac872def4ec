/-
# Geofence.RangeFile.Writer -- writing range files

A range file is a container with the header block, empty blocks up to the first
table, and one table for every prefix, so that the table of prefix `p` is block
`firstTable + p`.  The tables are made from sorted ranges at once and kept until
the file is closed.  A file that is closed before any table was made has an
empty table for every prefix.

Ranges are cut in two steps.  First by prefix: a range that runs into later
prefixes is cut where its prefix ends, and its rest, one piece per prefix, is put
back in front of the ranges still to come.  Then by length: what stays in a
prefix is cut from its start into runs of `Format.longest` cells, the last one
shorter or as long.

Order is checked on the way.  A range must not start in a prefix that has been
passed, and inside a prefix every range must start behind the end of the one
before.
-/
import Geofence.Container.Basic
import Geofence.Format.Header
import Geofence.RangeFile.Pending
import Geofence.Table.Block

set_option autoImplicit false

namespace Geofence.Partition

/-! ## Sorted ranges as tables -/

variable (f : Format)

/-- The number of prefixes on the six faces. -/
def livePrefixes : Nat :=
  6 * 2 ^ (f.prefixBits - 3)

/-- The prefixes behind `p` and before `q`, where 0 stands behind the last face. -/
def prefixesBetween (p q : Int) : List Int :=
  let stop := if q = 0 then (livePrefixes f : Int) else q
  (List.range (stop - p - 1).toNat).map fun (i : Nat) => p + 1 + i

def wholePrefix (value p : Int) : Except Fault CellRange := do
  let start ← f.cellOf p 0
  let stop ← f.cellPastPrefix p
  CellRange.of start stop value

/-- The part of a range in its first prefix, and the parts in later prefixes. -/
def cutAtPrefixes (r : CellRange) : Except Fault (CellRange × List CellRange) := do
  let p := f.prefixOf r.start
  let q := f.prefixOf r.stop
  let past ← f.cellPastPrefix p
  let head ← CellRange.of r.start past r.value
  let middle ← (prefixesBetween f p q).mapM (wholePrefix f r.value)
  let tailStart ← f.cellOf q 0
  if tailStart ≠ r.stop then
    let tail ← CellRange.of tailStart r.stop r.value
    return (head, middle ++ [tail])
  else return (head, middle)

/-- Takes the ranges that start in prefix `current`, up to the end of the prefix. -/
def collect (current : Int) (pending : Pending CellRange) :
    Except Fault (List CellRange × Pending CellRange) :=
  match _h : pending.next? with
  | none => .ok ([], pending)
  | some (r, rest) =>
    if Cell.depth r.start ≠ f.level then .error (.rangeOfOtherLevel r.toSpan f.level)
    else
      let p := f.prefixOf r.start
      if p < current then .error (.prefixOutOfOrder current p r.toSpan)
      else if p ≠ current then .ok ([], rest.putBack r)
      else if f.prefixOf r.stop = p then do
        let (more, last) ← collect current rest
        return (r :: more, last)
      else do
        let (head, others) ← cutAtPrefixes f r
        return ([head], others.foldr (fun piece q => q.putBack piece) rest)
termination_by pending.size
decreasing_by exact Pending.size_of_next? _h

/-- Every range starts behind the end of the one before. -/
def checkOrder : List CellRange → Except Fault Unit
  | r :: s :: rest =>
    if s.start < r.start then .error (.outOfOrder s.toSpan r.toSpan)
    else if r.overlaps s then .error (.overlapping r.toSpan s.toSpan)
    else checkOrder (s :: rest)
  | _ => .ok ()

/-- A range inside one prefix as ranges that fit a row. -/
def cutToRows (r : CellRange) : Except Fault (List CellRange) := do
  let length ← f.rangeLength r.start r.stop
  let rows := (length.toNat + f.longest - 1) / f.longest
  let starts := (List.range rows).map fun (i : Nat) => Cell.advance r.start (i * f.longest)
  let stops := starts.tail ++ [r.stop]
  (starts.zip stops).mapM fun (bounds : Cell × Cell) => CellRange.of bounds.1 bounds.2 r.value

/-- The stored table of a prefix with its ranges: no bytes when there is none. -/
def encodeTable (p : Int) (ranges : List CellRange) : Except Fault (List UInt8) :=
  if ranges.isEmpty then .ok []
  else do
    checkOrder ranges
    let rows ← ranges.mapM (cutToRows f)
    Block.encode f p rows.flatten

/-- The stored tables of the next `count` prefixes from `current` on, behind those made so
far.  A fault leaves the tables made before it. -/
def fill : Nat → Nat → Pending CellRange → Array (List UInt8) →
    Array (List UInt8) × Except Fault (Pending CellRange)
  | 0, _, pending, tables => (tables, .ok pending)
  | count + 1, current, pending, tables =>
    let table := do
      let (ranges, rest) ← collect f current pending
      let payload ← encodeTable f current ranges
      return (payload, rest)
    match table with
    | .error fault => (tables, .error fault)
    | .ok (payload, rest) => fill count (current + 1) rest (tables.push payload)

/-- The stored tables of all prefixes for a list of ranges, up to the first fault. -/
def tables (ranges : List CellRange) : Array (List UInt8) × Except Fault Unit :=
  match fill f f.tableCount 0 (.ofList ranges) #[] with
  | (made, .error fault) => (made, .error fault)
  | (made, .ok pending) =>
    match pending.hasNext with
    | (true, q) =>
      match q.next? with
      | some (r, _) => (made, .error (.leftOver r.toSpan))
      | none => (made, .ok ())
    | (false, _) => (made, .ok ())

end Geofence.Partition

namespace Geofence.RangeFile

/-! ## The file -/

/-- The type of the empty blocks in front of the tables. -/
def paddingType : Nat := 2

def tableType : Nat := 3

/-- A range file that is being written, or was. -/
structure Writer where
  format : Format
  /-- The header block. -/
  header : List UInt8
  /-- The tables made so far, by prefix. -/
  tables : Array (List UInt8)
  container : Container.Writer

namespace Writer

variable [Container.Compression]

def create (format : Format) (compressed : Bool) : Except Fault Writer := do
  let container ← Container.Writer.create Container.rangeMagic Container.rangeVersion compressed
  let header ← Header.encode format
  return { format, header, tables := #[], container }

/-- What is left of a file whose writer could not be made: the header of a container that was
never closed. -/
def stillborn : ByteArray :=
  Container.Writer.placeholder

def contents (w : Writer) : ByteArray :=
  w.container.contents

/-- Makes the tables for sorted ranges.  After a fault the tables made before it are kept. -/
def put (w : Writer) (ranges : List CellRange) : Except Fault Unit × Writer :=
  if !w.tables.isEmpty then (.error .alreadyCreated, w)
  else
    let (tables, result) := Partition.tables w.format ranges
    (result, { w with tables })

def blocks (w : Writer) : Container.Writer :=
  let headed := w.container.append Header.blockType [] w.header
  let padded := (List.range (w.format.firstTable - 1)).foldl
    (fun c _ => c.append paddingType [] []) headed
  w.tables.foldl (fun c table => c.append tableType [] table) padded

/-- Writes all blocks and closes the file; closing it again does nothing. -/
def close (w : Writer) : Except Fault Unit × Writer :=
  if w.container.closed then (.ok (), w)
  else
    match if w.tables.isEmpty then w.put [] else (.ok (), w) with
    | (.error fault, filled) => (.error fault, filled)
    | (.ok _, filled) =>
      let (result, container) := filled.blocks.close
      (result, { filled with container })

/-- Gives the file up: it has no blocks and cannot be read. -/
def abort (w : Writer) : Writer :=
  { w with container := w.container.abort }

end Writer

end Geofence.RangeFile
