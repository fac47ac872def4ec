/-
# Geofence.Cell.Basic -- cell ids

A cell id packs a face and a path into 64 bits: three bits of face, two bits per
level of the path, then a single one -- the sentinel -- and zeros.  The sentinel
is the lowest set bit, so an id alone tells its level: the path of a cell at
level `l` leaves `2 * (30 - l)` zeros behind the sentinel.

An id is any integer.  `Cell.isValid` says which integers name a cell: those
inside 64 bits on one of the six faces whose sentinel stands on an even
position of level 0 to 30.

Cells of one level lie `2 * sentinel` apart, face after face.  Walking forward
past the last cell of face 5 leads to the first cell of face 0; walking backward
and jumping are arithmetic modulo `2 ^ 64` and may leave the six faces.  The
children of a cell at a deeper level are a run of consecutive cells, from
`firstChild` up to `childrenEnd`, which for the last cell of face 5 is the first
cell of face 0.
-/
import Geofence.Fault

namespace Geofence

set_option autoImplicit false

/-- A cell id, valid or not. -/
abbrev Cell := Int

namespace Cell

def deepest : Nat := 30

def wordCount : Int := 2 ^ (64 : Nat)

/-- The bits behind the face. -/
def pathBits : Nat := 61

def lastFace : Nat := 5

/-- The largest power of two that divides `c`, that is its lowest set bit; 0 for 0. -/
def sentinel (c : Cell) : Int :=
  if c = 0 then 0 else ((c.natAbs.gcd (2 ^ c.natAbs.log2) : Nat) : Int)

/-- The position of the sentinel: the number of zeros behind it. -/
def sentinelPos (c : Cell) : Nat :=
  (sentinel c).natAbs.log2

/-- The zeros behind the sentinel of a cell at `level`. -/
def zerosAt (level : Int) : Nat :=
  (2 * (deepest - level)).toNat

/-- The sentinel of every cell at `level`, for a level of at most 30. -/
def unit (level : Int) : Int :=
  2 ^ zerosAt level

/-- `unit`, refused for levels below the deepest. -/
def unit? (level : Int) : Except Fault Int :=
  if level ≤ deepest then .ok (unit level) else .error .negativeShift

/-- The face of an id: what stands in front of the path bits. -/
def face (c : Cell) : Int :=
  c / 2 ^ pathBits

/-- The level that the sentinel of `c` marks. -/
def depth (c : Cell) : Int :=
  (deepest : Int) - (sentinelPos c / 2 : Nat)

/-- `c` is a nonzero word of 64 bits. -/
def isWord (c : Cell) : Bool :=
  0 < c && c < wordCount

/-- The level of a nonzero word whose sentinel stands on an even position. -/
def level (c : Cell) : Except Fault Int :=
  if !isWord c then .error (.notWord c)
  else if sentinelPos c % 2 = 1 then .error (.noLevel c)
  else .ok (depth c)

def isValid (c : Cell) : Bool :=
  isWord c && face c ≤ lastFace && sentinelPos c % 2 == 0 && sentinelPos c ≤ 2 * deepest

def validate (c : Cell) : Except Fault Cell :=
  if isValid c then .ok c else .error (.invalidCell c)

/-! ## Neighbours, children and ancestors -/

def setBit (x : Int) (k : Nat) : Int :=
  if x / 2 ^ k % 2 = 1 then x else x + 2 ^ k

def firstOfFace (face level : Int) : Except Fault Cell := do
  let _ ← unit? level
  return setBit (face * 2 ^ pathBits) (zerosAt level)

def first (level : Int) : Cell :=
  unit level

/-- `c` where it lies on the six faces, and otherwise the first cell at `level`. -/
def wrap (c : Cell) (level : Int) : Cell :=
  if wordCount ≤ c ∨ lastFace < face c then first level else c

def firstChild (c : Cell) (level : Int) : Except Fault Cell := do
  let u ← unit? level
  return c - sentinel c + u

/-- The cell that follows the last of the cells at `level` inside `c`. -/
def childrenEnd (c : Cell) (level : Int) : Except Fault Cell := do
  let u ← unit? level
  return wrap (c + sentinel c + u) level

/-- The cell at `level` around `c`: the bits in front of that level's sentinel are kept. -/
def ancestor (c : Cell) (level : Int) : Except Fault Cell := do
  let u ← unit? level
  return c / (2 * u) * (2 * u) + u

/-- The next cell of the same level; after the last of face 5, the first of face 0. -/
def next (c : Cell) : Except Fault Cell := do
  let l ← level c
  return wrap (c + 2 * sentinel c) l

/-- The id one step back, modulo `2 ^ 64`. -/
def prev (c : Cell) : Cell :=
  (c - 2 * sentinel c) % wordCount

/-- The id `n` steps on, modulo `2 ^ 64`. -/
def advance (c : Cell) (n : Int) : Cell :=
  (c + n * (2 * sentinel c)) % wordCount

/-- `stop` is what follows the last cell of face 5 at the level of `start`, which lies on
face 5. -/
def wrapsTo (start stop : Cell) : Bool :=
  face start == lastFace && stop == first (depth start)

/-- `wrapsTo`, refused where the level of a start on face 5 cannot be told. -/
def wrapsTo? (start stop : Cell) : Except Fault Bool :=
  if face start ≠ lastFace then .ok false
  else do
    let l ← level start
    return stop == first l

end Cell

end Geofence
