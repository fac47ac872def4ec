/-
# Geofence.Format.Basic -- the layout of a range file

The significant bits of a cell at the level of a file are its face and its path,
`3 + 2 * level` bits.  A format splits them into a prefix, which selects a table,
and a suffix, which is stored in that table.  A row of a table is `rowSize` bytes
wide: the suffix of a range's first cell in the high bits and the number of its
cells in the remaining ones, of which there is at least one.  Tables are the
blocks from `firstTable` on, and every row may carry a value of `valueSize`
bytes.

A `Format` carries the proofs of these rules; `Format.ofFields` checks them in
order and names the first that fails.

A prefix is the high bits of an id and a suffix the bits behind it, down to the
sentinel.  Prefixes are walked in order and end with the last face: behind the
last prefix of face 5 comes prefix 0.  The length of a range that starts in a
prefix can be told when it ends in the same prefix or on the first cell of the
next one.
-/
import Geofence.Cell.Literal

set_option autoImplicit false

namespace Geofence

structure Format where
  level : Nat
  prefixBits : Nat
  suffixBits : Nat
  /-- The block that holds the table of prefix 0. -/
  firstTable : Nat
  /-- The bytes of a row. -/
  rowSize : Nat
  isAllowedList : Bool
  /-- The bytes of a value; 0 when rows carry none. -/
  valueSize : Nat
  version : Nat
  level_pos : 1 ≤ level
  level_le : level ≤ 30
  prefixBits_ge : 3 ≤ prefixBits
  suffixBits_pos : 1 ≤ suffixBits
  bits_eq : prefixBits + suffixBits = 3 + 2 * level
  firstTable_pos : 1 ≤ firstTable
  rowSize_le : rowSize ≤ 8
  suffixBits_lt : suffixBits < 8 * rowSize
  valueSize_le : valueSize ≤ 4
  deriving DecidableEq

namespace Format

/-- The eight numbers of a format, before they are checked. -/
structure Fields where
  level : Int
  prefixBits : Int
  suffixBits : Int
  firstTable : Int
  rowBits : Int
  isAllowedList : Bool
  valueSize : Int
  version : Int
  deriving DecidableEq, Repr

/-- The format of eight numbers, with the first rule that they break otherwise. -/
def ofFields (f : Fields) : Except Fault Format :=
  if hl : 1 ≤ f.level ∧ f.level ≤ 30 then
    if hp : 3 ≤ f.prefixBits then
      if hs : 1 ≤ f.suffixBits then
        if hb : f.prefixBits + f.suffixBits = 3 + 2 * f.level then
          if ht : 1 ≤ f.firstTable then
            if hr : f.rowBits % 8 = 0 ∧ 8 ≤ f.rowBits ∧ f.rowBits ≤ 64 then
              if hw : f.suffixBits < f.rowBits then
                if hv : 0 ≤ f.valueSize ∧ f.valueSize ≤ 4 then
                  if 0 ≤ f.version then
                    .ok {
                      level := f.level.toNat
                      prefixBits := f.prefixBits.toNat
                      suffixBits := f.suffixBits.toNat
                      firstTable := f.firstTable.toNat
                      rowSize := (f.rowBits / 8).toNat
                      isAllowedList := f.isAllowedList
                      valueSize := f.valueSize.toNat
                      version := f.version.toNat
                      level_pos := by omega
                      level_le := by omega
                      prefixBits_ge := by omega
                      suffixBits_pos := by omega
                      bits_eq := by omega
                      firstTable_pos := by omega
                      rowSize_le := by omega
                      suffixBits_lt := by omega
                      valueSize_le := by omega }
                  else .error (.negativeVersion f.version)
                else .error (.valueSizeOutside f.valueSize)
              else .error (.rowWithoutLength f.rowBits)
            else .error (.rowNotWholeBytes f.rowBits)
          else .error .noRoomForHeader
        else .error (.splitDisagrees f.prefixBits f.suffixBits (3 + 2 * f.level) f.level)
      else .error (.suffixTooNarrow f.suffixBits)
    else .error (.prefixTooNarrow f.prefixBits)
  else .error (.levelOutside f.level)

def rowBits (f : Format) : Nat :=
  8 * f.rowSize

def fields (f : Format) : Fields where
  level := f.level
  prefixBits := f.prefixBits
  suffixBits := f.suffixBits
  firstTable := f.firstTable
  rowBits := f.rowBits
  isAllowedList := f.isAllowedList
  valueSize := f.valueSize
  version := f.version

theorem rowSize_pos (f : Format) : 1 ≤ f.rowSize := by
  have := f.suffixBits_lt
  omega

theorem ofFields_fields (f : Format) : ofFields f.fields = .ok f := by
  have h₁ := f.level_pos
  have h₂ := f.level_le
  have h₃ := f.prefixBits_ge
  have h₄ := f.suffixBits_pos
  have h₅ := f.bits_eq
  have h₆ := f.firstTable_pos
  have h₇ := f.rowSize_le
  have h₈ := f.suffixBits_lt
  have h₉ := f.valueSize_le
  have h₀ := f.rowSize_pos
  unfold ofFields fields rowBits
  dsimp only
  rw [dif_pos (by omega), dif_pos (by omega), dif_pos (by omega), dif_pos (by omega),
    dif_pos (by omega), dif_pos (by omega), dif_pos (by omega), dif_pos (by omega),
    if_pos (by omega)]
  cases f
  simp

end Format

end Geofence

namespace Geofence.Format

/-! ## Prefixes, suffixes and lengths -/

variable (f : Format)

/-- The number of prefixes, hence of tables. -/
def tableCount : Nat :=
  2 ^ f.prefixBits

def greatestPrefix : Nat :=
  2 ^ f.prefixBits - 1

def greatestSuffix : Nat :=
  2 ^ f.suffixBits - 1

/-- The bits that a row has for a length. -/
def lengthBits : Nat :=
  f.rowBits - f.suffixBits

/-- The greatest length that a row can hold. -/
def longest : Nat :=
  2 ^ f.lengthBits - 1

def greatestValue : Nat :=
  2 ^ (8 * f.valueSize) - 1

def prefixShift : Nat :=
  64 - f.prefixBits

/-- The bits of an id behind its suffix, the sentinel among them. -/
def suffixShift : Nat :=
  64 - f.prefixBits - f.suffixBits

def prefixOf (c : Cell) : Int :=
  c / 2 ^ f.prefixShift

def suffixOf (c : Cell) : Int :=
  c / 2 ^ f.suffixShift % 2 ^ f.suffixBits

def faceOfPrefix (p : Int) : Int :=
  p / 2 ^ (f.prefixBits - 3)

def cellOf (p s : Int) : Except Fault Cell :=
  if ¬(0 ≤ p ∧ p ≤ f.greatestPrefix) then .error (.prefixTooWide p f.prefixBits)
  else if ¬(0 ≤ s ∧ s ≤ f.greatestSuffix) then .error (.suffixTooWide s f.suffixBits)
  else .ok (p * 2 ^ f.prefixShift + s * 2 ^ f.suffixShift + 2 ^ (f.suffixShift - 1))

/-- The prefix behind `p`; behind the last of face 5, prefix 0. -/
def nextPrefix (p : Int) : Int :=
  if 5 < f.faceOfPrefix (p + 1) then 0 else p + 1

/-- The first cell behind the cells with prefix `p`. -/
def cellPastPrefix (p : Int) : Except Fault Cell :=
  f.cellOf (f.nextPrefix p) 0

def rangeLength (start stop : Cell) : Except Fault Int :=
  if f.prefixOf stop = f.prefixOf start then .ok (f.suffixOf stop - f.suffixOf start)
  else do
    let past ← f.cellPastPrefix (f.prefixOf start)
    if stop = past then return f.greatestSuffix + 1 - f.suffixOf start
    else throw (.notSamePrefix start stop)

/-- The low part of the row of a range with `length` cells. -/
def rowValue (length : Int) : Except Fault Int :=
  if 0 < length ∧ length ≤ f.longest then .ok length else .error (.lengthOutside length f.longest)

def lengthOfRowValue (value : Int) : Int :=
  value % 2 ^ f.lengthBits

end Geofence.Format

namespace Geofence.Cell

/-- A cell with its prefix and suffix spelled out: `token[prefix|suffix]` in base two. -/
def splitText (c : Cell) (prefixBits suffixBits : Nat) : String :=
  token c ++ "[" ++ Text.binary prefixBits (c / 2 ^ (64 - prefixBits)) ++ "|"
    ++ Text.binary suffixBits (c / 2 ^ (64 - prefixBits - suffixBits) % 2 ^ suffixBits) ++ "]"

end Geofence.Cell
