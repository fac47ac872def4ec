/-
# Geofence.Format.Preset -- the formats files are built with

Three levels have a settled layout.  The prefix covers the first four, five or
six levels of the path, a row has four bytes, and the tables start with block 5.
-/
import Geofence.Format.Basic

namespace Geofence

set_option autoImplicit false

/-- A settled layout. -/
structure Preset where
  level : Nat
  /-- The level that a prefix reaches. -/
  prefixLevel : Nat
  rowBits : Nat
  firstTable : Nat
  deriving DecidableEq, Repr

namespace Preset

def all : List Preset :=
  [{ level := 12, prefixLevel := 4, rowBits := 32, firstTable := 5 },
   { level := 14, prefixLevel := 5, rowBits := 32, firstTable := 5 },
   { level := 16, prefixLevel := 6, rowBits := 32, firstTable := 5 }]

def find? (level : Int) : Option Preset :=
  all.find? fun p => (p.level : Int) == level

end Preset

namespace Format

def ofPreset (level : Int) (isAllowedList : Bool) (valueSize version : Int) :
    Except Fault Format :=
  match Preset.find? level with
  | none => .error (.noPreset level)
  | some p =>
    ofFields {
      level := level
      prefixBits := 3 + 2 * p.prefixLevel
      suffixBits := 2 * (level - p.prefixLevel)
      firstTable := p.firstTable
      rowBits := p.rowBits
      isAllowedList, valueSize, version }

end Format

end Geofence
