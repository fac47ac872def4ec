/-
# Geofence.Table.Packed -- tables of fixed-width rows

A packed table is a list of rows and some bytes that they share.  A row is a key
in the high bits and a value in the low bits of `rowSize` bytes.  `push` keeps
the keys strictly ascending; a stored table is read as it stands, sorted or not.

Stored form: the row size, the key bits and two zero bytes; the number of shared
bytes and the number of rows in four bytes each; the shared bytes; the rows.

A search is driven by a guide that says of a row whether the target lies before
it, after it or in it.  The window halves around its middle row, the lower one
of two, until the guide finds the target or the window is empty.  The rows that
the guide was asked about are kept, in order.
-/
import Geofence.Bytes

namespace Geofence

set_option autoImplicit false

/-- How a row splits into key and value. -/
structure RowLayout where
  /-- The bytes of a row. -/
  rowSize : Nat
  keyBits : Nat
  rowSize_pos : 1 ≤ rowSize
  rowSize_le : rowSize ≤ 8
  keyBits_pos : 0 < keyBits
  keyBits_lt : keyBits < 8 * rowSize

namespace RowLayout

instance : DecidableEq RowLayout := fun l m =>
  decidable_of_iff (l.rowSize = m.rowSize ∧ l.keyBits = m.keyBits) (by cases l; cases m; simp)

def of (rowSize keyBits : Int) : Except Fault RowLayout :=
  if hs : 1 ≤ rowSize ∧ rowSize ≤ 8 then
    if hk : 0 < keyBits ∧ keyBits < 8 * rowSize then
      .ok {
        rowSize := rowSize.toNat
        keyBits := keyBits.toNat
        rowSize_pos := by omega
        rowSize_le := by omega
        keyBits_pos := by omega
        keyBits_lt := by omega }
    else .error (.keyBitsOutside keyBits (8 * rowSize))
  else .error (.rowSizeOutside rowSize)

def valueBits (l : RowLayout) : Nat :=
  8 * l.rowSize - l.keyBits

end RowLayout

structure Row where
  key : Nat
  value : Nat
  deriving DecidableEq, Repr, Inhabited

namespace Row

/-- The row as one number: the key in front of the value. -/
def word (l : RowLayout) (r : Row) : Nat :=
  r.key * 2 ^ l.valueBits + r.value

def ofWord (l : RowLayout) (n : Nat) : Row where
  key := n / 2 ^ l.valueBits
  value := n % 2 ^ l.valueBits

def encode (l : RowLayout) (r : Row) : List UInt8 :=
  Bytes.bigEndian l.rowSize (r.word l)

def decode (l : RowLayout) (bytes : List UInt8) : Row :=
  ofWord l (Bytes.ofBigEndian bytes)

end Row

/-- Rows of one layout and the bytes that they share. -/
structure PackedTable where
  layout : RowLayout
  shared : List UInt8
  rows : Array Row
  deriving DecidableEq

namespace PackedTable

/-- The bytes in front of the shared bytes. -/
def headerSize : Nat := 12

def empty (layout : RowLayout) (shared : List UInt8) : PackedTable where
  layout := layout
  shared := shared
  rows := #[]

/-- The table with one more row, whose key and value must fit and whose key must be greater
than the last. -/
def push (t : PackedTable) (key value : Int) : Except Fault PackedTable :=
  if ¬(0 ≤ key ∧ key < 2 ^ t.layout.keyBits) then
    .error (.keyTooWide key t.layout.keyBits)
  else if ¬(0 ≤ value ∧ value < 2 ^ t.layout.valueBits) then
    .error (.rowValueTooWide value t.layout.valueBits)
  else
    match t.rows.back? with
    | some last =>
      if key ≤ last.key then .error (.keyNotAscending key last.key)
      else .ok { t with rows := t.rows.push ⟨key.toNat, value.toNat⟩ }
    | none => .ok { t with rows := t.rows.push ⟨key.toNat, value.toNat⟩ }

def encode (t : PackedTable) : Except Fault (List UInt8) := do
  let rowSize ← Bytes.bigField 1 t.layout.rowSize
  let keyBits ← Bytes.bigField 1 t.layout.keyBits
  let sharedSize ← Bytes.bigField 4 t.shared.length
  let rowCount ← Bytes.bigField 4 t.rows.size
  return rowSize ++ keyBits ++ [0, 0] ++ sharedSize ++ rowCount ++ t.shared
    ++ t.rows.toList.flatMap (Row.encode t.layout)

/-- The next `count` rows of stored bytes, behind the rows read so far. -/
def readRows (l : RowLayout) : Nat → List UInt8 → Array Row → Array Row
  | 0, _, done => done
  | count + 1, bytes, done =>
    readRows l count (bytes.drop l.rowSize) (done.push (Row.decode l (bytes.take l.rowSize)))

def decode (data : List UInt8) : Except Fault PackedTable :=
  if data.length < headerSize then .error (.tableTruncated data.length)
  else
    let rowSize := Bytes.ofBigEndian (data.take 1)
    let keyBits := Bytes.ofBigEndian ((data.drop 1).take 1)
    let sharedSize := Bytes.ofBigEndian ((data.drop 4).take 4)
    let rowCount := Bytes.ofBigEndian ((data.drop 8).take 4)
    match RowLayout.of rowSize keyBits with
    | .error cause => .error (.tableLayout cause)
    | .ok l =>
      if headerSize + sharedSize + rowCount * rowSize ≠ data.length then
        .error (.tableSize data.length rowCount rowSize)
      else
        let rest := data.drop headerSize
        .ok {
          layout := l
          shared := rest.take sharedSize
          rows := readRows l rowCount (rest.drop sharedSize) #[] }

def row (t : PackedTable) (i : Int) : Except Fault Row :=
  if h : 0 ≤ i ∧ i < t.rows.size then
    have bound : i.toNat < t.rows.size := by omega
    .ok t.rows[i.toNat]
  else .error (.rowOutside i t.rows.size)

theorem readRows_eq_append (l : RowLayout) (count : Nat) (bytes : List UInt8) (done : Array Row) :
    readRows l count bytes done = done ++ readRows l count bytes #[] := by
  induction count generalizing bytes done with
  | zero => simp [readRows]
  | succ count ih =>
    simp only [readRows]
    rw [ih, ih _ (#[].push _), ← Array.append_assoc]
    simp

theorem size_readRows (l : RowLayout) (count : Nat) (bytes : List UInt8) (done : Array Row) :
    (readRows l count bytes done).size = done.size + count := by
  induction count generalizing bytes done with
  | zero => simp [readRows]
  | succ count ih => simp only [readRows, ih, Array.size_push]; omega

end PackedTable

/-! ## Binary search -/

/-- Where the target of a search lies as seen from a row: before it, in it or after it. -/
abbrev Guide := Row → Ordering

/-- The outcome of a search: the rows looked at and the row found, by index. -/
structure Search where
  probes : List Nat
  found : Option Nat
  deriving DecidableEq, Repr

namespace Search

def within (rows : Array Row) (guide : Guide) (lo hi : Nat) (bound : hi ≤ rows.size) : Search :=
  if h : lo < hi then
    let mid := (lo + hi - 1) / 2
    have : mid < rows.size := by omega
    match guide rows[mid] with
    | .lt =>
      let rest := within rows guide lo mid (by omega)
      { rest with probes := mid :: rest.probes }
    | .gt =>
      let rest := within rows guide (mid + 1) hi bound
      { rest with probes := mid :: rest.probes }
    | .eq => { probes := [mid], found := some mid }
  else { probes := [], found := none }
termination_by hi - lo

end Search

namespace PackedTable

def search (t : PackedTable) (guide : Guide) : Search :=
  Search.within t.rows guide 0 t.rows.size (Nat.le_refl _)

end PackedTable

namespace Guide

def key (t : Int) : Guide :=
  fun r => compare t r.key

/-- Leads to the row whose cells, as many as `length` says of its value, hold `t` when counted
from its key. -/
def span (length : Nat → Int) (t : Int) : Guide :=
  fun r =>
    if t < r.key then .lt
    else if r.key + length r.value ≤ t then .gt
    else .eq

end Guide

end Geofence
