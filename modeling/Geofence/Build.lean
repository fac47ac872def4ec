/-
# Geofence.Build -- range files from cell lists

A cell list is brought to a level, merged into ranges, written as a range file
and read back: every listed cell must be found with its value, and the cells
just before the first and just behind the last must not be found.

A build that fails leaves the output as it was, or as a file that cannot be
read, or -- when only the check fails -- as it was written.
-/
import Geofence.CellList.Merge
import Geofence.CellList.Normal
import Geofence.CellList.Text
import Geofence.Format.Preset
import Geofence.Storage

namespace Geofence.Build

set_option autoImplicit false

variable [Container.Compression]

/-- What to build from what. -/
structure Request where
  input : String
  output : String
  level : Int
  isAllowedList : Bool
  valueSize : Int
  version : Int
  compressed : Bool
  deriving DecidableEq, Repr

/-! ## Checking -/

/-- Every entry is found, with its value in files with values. -/
def checkListed (path : String) (valueSize : Int) :
    List Listed → RangeFile.Reader → Except Fault RangeFile.Reader
  | [], r => .ok r
  | x :: rest, r =>
    match r.find x.cell with
    | (.error fault, _) => .error fault
    | (.ok none, _) => .error (.missingCell x.cell path)
    | (.ok (some range), s) =>
      if valueSize ≠ 0 ∧ range.value ≠ x.value then
        .error (.wrongValue x.cell range.value x.value)
      else checkListed path valueSize rest s

/-- None of the cells that are valid and not listed is found. -/
def checkUnlisted (path : String) (listed : List Listed) :
    List Cell → RangeFile.Reader → Except Fault Unit
  | [], _ => .ok ()
  | c :: rest, r =>
    if Cell.isValid c && !listed.any fun x => x.cell == c then
      match r.find c with
      | (.error fault, _) => .error fault
      | (.ok (some _), _) => .error (.unexpectedCell c path)
      | (.ok none, s) => checkUnlisted path listed rest s
    else checkUnlisted path listed rest r

/-- The cells just before the first entry and just behind the last. -/
def neighbours (listed : List Listed) : Except Fault (List Cell) :=
  match listed.head?, listed.getLast? with
  | some first, some last => do
    let next ← Cell.next last.cell
    return [Cell.prev first.cell, next]
  | _, _ => .ok []

/-- The range file at a path holds a sorted cell list. -/
def verify (d : Disk) (path : String) (listed : List Listed) (isAllowedList : Bool)
    (valueSize : Int) : Except Fault Unit := do
  let reader ← d.openRangeFile path
    { RangeFile.Expected.nothing with isAllowedList := isAllowedList, valueSize := valueSize }
  let reader ← checkListed path valueSize listed reader
  let around ← neighbours listed
  checkUnlisted path listed around reader

/-! ## Building -/

/-- The entries at the level asked for and the format of the file. -/
def plan (d : Disk) (q : Request) : Except Fault (List Listed × Format) := do
  let bytes ← d.read q.input
  let entries ← CellList.ofBytes bytes
  let listed ← CellList.normalize q.level entries
  let format ← Format.ofPreset q.level q.isAllowedList q.valueSize q.version
  return (listed, format)

/-- Writes ranges through a fresh writer, which is closed, or given up after a fault. -/
def finish (w : RangeFile.Writer) (ranges : Except Fault (List CellRange)) :
    Except Fault Unit × RangeFile.Writer :=
  match ranges with
  | .error fault => (.error fault, w.abort)
  | .ok ranges =>
    match w.put ranges with
    | (.error fault, filled) => (.error fault, filled.abort)
    | (.ok _, filled) => filled.close

def create (d : Disk) (q : Request) : Except Fault Unit × Disk :=
  match plan d q with
  | .error fault => (.error fault, d)
  | .ok (listed, format) =>
    match d.startRangeFile q.output format q.compressed with
    | (.error fault, e) => (.error fault, e)
    | (.ok w, e) =>
      let (result, written) := finish w (CellList.toRanges q.level listed)
      let e := e.put q.output written.contents
      match result with
      | .error fault => (.error fault, e)
      | .ok _ => (verify e q.output listed q.isAllowedList q.valueSize, e)

/-! ## The sample file -/

/-- The bounds and values of the sample: two ranges in a prefix of face 4 and one in a prefix
of face 5, as prefix, suffixes of start and stop, and value. -/
def sampleRows : List (Int × Int × Int × Int) :=
  [(0b10011111111, 1000, 2000, 1),
   (0b10011111111, 2000, 3000, 2),
   (0b10111111111, 1000, 2000, 3)]

def sampleRanges (f : Format) : Except Fault (List CellRange) :=
  sampleRows.mapM fun (p, first, past, value) => do
    let start ← f.cellOf p first
    let stop ← f.cellOf p past
    CellRange.of start stop value

/-- Writes a small range file for trying out readers. -/
def createSample (d : Disk) (output : String) : Except Fault Format × Disk :=
  let plan := do
    let format ← Format.ofPreset 12 true 4 1
    let ranges ← sampleRanges format
    return (format, ranges)
  match plan with
  | .error fault => (.error fault, d)
  | .ok (format, ranges) =>
    match d.startRangeFile output format false with
    | (.error fault, e) => (.error fault, e)
    | (.ok w, e) =>
      let (result, written) := finish w (.ok ranges)
      (result.map fun _ => format, e.put output written.contents)

end Geofence.Build
