/-
# Geofence.Table.Block -- the table of one prefix

A table block holds the ranges whose first cell has its prefix.  It is stored as
no bytes at all when there is none, and otherwise as a packed table: one row per
range, the suffix of its first cell as key and its length as value, with the
prefix and the values of the ranges as shared data.  A range may end on the
first cell of the next prefix.

The shared data hold the prefix and the value of every row, in row order.
Formats without values store the prefix and a zero.  Stored form: the prefix and
the number of values in four bytes each, then the values, each as wide as the
format says.
-/
import Geofence.CellRange
import Geofence.Format.Basic
import Geofence.Table.Packed

namespace Geofence

set_option autoImplicit false

/-! ## What the rows of a table share -/

/-- The prefix of a table and the values of its rows. -/
structure SharedData where
  tablePrefix : Int
  values : Array Int
  deriving DecidableEq, Repr

namespace SharedData

/-- The value of a row: 0 where there are no values, and otherwise the value at that index,
negative indices counted from the end. -/
def value (d : SharedData) (i : Int) : Except Fault Int :=
  if d.values.isEmpty then .ok 0
  else
    let j := if i < 0 then i + d.values.size else i
    if h : 0 ≤ j ∧ j < d.values.size then
      have bound : j.toNat < d.values.size := by omega
      .ok d.values[j.toNat]
    else .error .valueIndexOutside

def encodeValue (f : Format) (value : Int) : Except Fault (List UInt8) :=
  if 0 ≤ value ∧ value ≤ f.greatestValue then .ok (Bytes.bigEndian f.valueSize value.toNat)
  else .error (.valueTooWide value f.valueSize)

/-- The stored form of shared data; without room for values they are left out. -/
def encode (f : Format) (d : SharedData) : Except Fault (List UInt8) := do
  let values := if f.valueSize = 0 then [] else d.values.toList
  let tablePrefix ← Bytes.bigField 4 d.tablePrefix
  let count ← Bytes.bigField 4 values.length
  let stored ← values.mapM (encodeValue f)
  return tablePrefix ++ count ++ stored.flatten

/-- The next `count` values of `size` bytes each, behind the values read so far. -/
def readValues (size : Nat) : Nat → List UInt8 → Array Int → Array Int
  | 0, _, done => done
  | count + 1, bytes, done =>
    readValues size count (bytes.drop size) (done.push (Bytes.ofBigEndian (bytes.take size)))

def decode (f : Format) (data : List UInt8) : Except Fault SharedData :=
  if data.length < 8 then .error (.valuesTruncated data.length)
  else
    let tablePrefix := Bytes.ofBigEndian (data.take 4)
    let count := Bytes.ofBigEndian ((data.drop 4).take 4)
    if count ≠ 0 ∧ f.valueSize = 0 then .error (.valuesUnexpected count)
    else if data.length ≠ 8 + count * f.valueSize then
      .error (.valuesSize data.length count f.valueSize)
    else .ok { tablePrefix, values := readValues f.valueSize count (data.drop 8) #[] }

theorem size_readValues (size count : Nat) (bytes : List UInt8) (done : Array Int) :
    (readValues size count bytes done).size = done.size + count := by
  induction count generalizing bytes done with
  | zero => simp [readValues]
  | succ count ih => simp only [readValues, ih, Array.size_push]; omega

end SharedData

/-! ## Tables -/

inductive Block where
  | empty (tablePrefix : Int)
  | populated (table : PackedTable) (shared : SharedData)
  deriving DecidableEq

namespace Block

def tablePrefix : Block → Int
  | empty p => p
  | populated _ shared => shared.tablePrefix

def isEmpty : Block → Bool
  | empty _ => true
  | populated .. => false

def rows : Block → Array Row
  | empty _ => #[]
  | populated table _ => table.rows

def valueCount : Block → Nat
  | empty _ => 0
  | populated _ shared => shared.values.size

def text (b : Block) : String :=
  let kind := if b.isEmpty then "empty" else toString b.rows.size ++ " entries"
  "SuffixTableBlock(prefix=" ++ toString b.tablePrefix ++ ", " ++ kind ++ ")"

/-! ## Reading -/

/-- The populated table of stored bytes; `id` names them in faults. -/
def decode (f : Format) (id : Int) (payload : List UInt8) : Except Fault Block :=
  if payload.isEmpty then .error (.emptyPayload id)
  else do
    let table ← PackedTable.decode payload
    if table.layout.keyBits ≠ f.suffixBits ∨ table.layout.rowSize ≠ f.rowSize then
      throw (.rowLayout id)
    let shared ← SharedData.decode f table.shared
    if shared.values.size ≠ 0 ∧ shared.values.size ≠ table.rows.size then
      throw (.valueCount id table.rows.size shared.values.size)
    return populated table shared

def load (f : Format) (p id : Int) (payload : List UInt8) : Except Fault Block :=
  if payload.isEmpty then .ok (empty p)
  else do
    let b ← decode f id payload
    if b.tablePrefix ≠ p then throw (.storedPrefix id b.tablePrefix p)
    return b

def rangeOf (f : Format) (b : Block) (index : Nat) (row : Row) : Except Fault CellRange := do
  let p := b.tablePrefix
  if f.greatestSuffix < row.key then throw (.startTooWide row.key f.greatestSuffix)
  let length := (f.lengthOfRowValue row.value).toNat
  if length = 0 then throw (.zeroLength index p)
  let start ← f.cellOf p row.key
  let stopSuffix := row.key + length
  if f.greatestSuffix + 1 < stopSuffix then
    throw (.pastPrefix start f.prefixBits f.suffixBits length)
  let stop ←
    if stopSuffix ≤ f.greatestSuffix then f.cellOf p stopSuffix else f.cellPastPrefix p
  let value ←
    match b with
    | empty _ => throw (.valueOfEmptyTable index)
    | populated _ shared => shared.value index
  CellRange.of start stop value

def row (b : Block) (i : Int) : Except Fault Row :=
  match b with
  | empty _ => .error (.rowOfEmptyTable i)
  | populated table _ => table.row i

def value (b : Block) (i : Int) : Except Fault Int :=
  match b with
  | empty _ => .error (.valueOfEmptyTable i)
  | populated _ shared => shared.value i

/-- The index of the row whose range holds a cell, which must have the level of the file and
the prefix of the table. -/
def find (f : Format) (b : Block) (c : Cell) : Except Fault (Option Nat) := do
  let _ ← Cell.validate c
  if Cell.depth c ≠ f.level then throw (.cellOfOtherLevel c f.level)
  if f.prefixOf c ≠ b.tablePrefix then
    throw (.cellOfOtherPrefix c f.prefixBits f.suffixBits b.tablePrefix)
  match b with
  | empty _ => return none
  | populated table _ =>
    return (table.search (.span (fun v => f.lengthOfRowValue v) (f.suffixOf c))).found

/-! ## Writing -/

/-- The table with one more row, for a range that starts in prefix `p`. -/
def pushRange (f : Format) (p : Int) (table : PackedTable) (r : CellRange) :
    Except Fault PackedTable := do
  if f.prefixOf r.start ≠ p then throw (.rangeOfOtherPrefix r.toSpan p)
  let length ← f.rangeLength r.start r.stop
  let low ← f.rowValue length
  table.push (f.suffixOf r.start) low

/-- The stored form of the table of prefix `p` with a row for each of `ranges`. -/
def encode (f : Format) (p : Int) (ranges : List CellRange) : Except Fault (List UInt8) := do
  let shared ← SharedData.encode f { tablePrefix := p, values := (ranges.map (·.value)).toArray }
  let layout ← RowLayout.of f.rowSize f.suffixBits
  let table ← ranges.foldlM (pushRange f p) (PackedTable.empty layout shared)
  table.encode

end Block

end Geofence
