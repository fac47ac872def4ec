/-
# Geofence.Format.Header -- the format as the first block of a file

The header block holds the eight numbers of a format in twelve bytes, most
significant byte first: one byte each, but two for the first table and four for
the version.  Reading it back checks the numbers again, so stored bytes either
describe a format or are corrupt.
-/
import Geofence.Bytes
import Geofence.Format.Basic

namespace Geofence.Header

set_option autoImplicit false

def blockType : Nat := 1

def size : Nat := 12

def encode (f : Format) : Except Fault (List UInt8) := do
  let level ← Bytes.bigField 1 f.level
  let prefixBits ← Bytes.bigField 1 f.prefixBits
  let suffixBits ← Bytes.bigField 1 f.suffixBits
  let firstTable ← Bytes.bigField 2 f.firstTable
  let rowBits ← Bytes.bigField 1 f.rowBits
  let flag ← Bytes.bigField 1 (if f.isAllowedList then 1 else 0)
  let valueSize ← Bytes.bigField 1 f.valueSize
  let version ← Bytes.bigField 4 f.version
  return level ++ prefixBits ++ suffixBits ++ firstTable ++ rowBits ++ flag ++ valueSize ++ version

/-- The eight numbers in twelve bytes, the flag still a number. -/
def fieldsOf (data : List UInt8) (flag : Nat) : Format.Fields where
  level := Bytes.ofBigEndian (data.take 1)
  prefixBits := Bytes.ofBigEndian ((data.drop 1).take 1)
  suffixBits := Bytes.ofBigEndian ((data.drop 2).take 1)
  firstTable := Bytes.ofBigEndian ((data.drop 3).take 2)
  rowBits := Bytes.ofBigEndian ((data.drop 5).take 1)
  isAllowedList := flag == 1
  valueSize := Bytes.ofBigEndian ((data.drop 7).take 1)
  version := Bytes.ofBigEndian ((data.drop 8).take 4)

def decode (type : Int) (data : List UInt8) : Except Fault Format :=
  if type ≠ blockType then .error (.notHeaderBlock type)
  else if data.length ≠ size then .error (.headerSize data.length)
  else
    let flag := Bytes.ofBigEndian ((data.drop 6).take 1)
    if 1 < flag then .error (.headerFlag flag)
    else
      match Format.ofFields (fieldsOf data flag) with
      | .ok f => .ok f
      | .error cause => .error (.headerFormat cause)

end Geofence.Header
