/-
# Geofence.CellList.Text -- reading a cell list

A cell list is a UTF-8 text with a cell on every line that is not blank.  Faults
name their line, counted from 1 with the blank ones.

A line feed, a carriage return, or a carriage return followed by a line feed ends
a line; nothing else does.  What stands behind the last end is a line too unless
it is empty.  A line carries its end as a single line feed.

A file is decoded in pieces of 8192 bytes, and the text of a piece is available
before the next piece is looked at.  A byte that cannot continue the text rules
out the piece it stands in, so the text of the pieces in front of it is all that
is seen before the failure.  Bytes that end inside a character fail only at the
end, after all the text in front of them.
-/
import Geofence.Cell.Literal

set_option autoImplicit false

namespace Geofence.Text

/-! ## Lines -/

/-- The lines of a text that are ended, without their ends, and what follows the last. -/
structure Lines where
  ended : List (List Char)
  rest : List Char
  deriving DecidableEq, Repr

namespace Lines

def consEnd (lines : Lines) : Lines :=
  { lines with ended := [] :: lines.ended }

def consChar (c : Char) (lines : Lines) : Lines :=
  match lines.ended with
  | [] => { lines with rest := c :: lines.rest }
  | first :: later => { lines with ended := (c :: first) :: later }

def ofText : List Char → Lines
  | [] => { ended := [], rest := [] }
  | '\r' :: '\n' :: s => (ofText s).consEnd
  | c :: s => if c = '\n' ∨ c = '\r' then (ofText s).consEnd else (ofText s).consChar c

def withEnds (lines : Lines) : List (List Char) :=
  lines.ended.map (· ++ ['\n'])

def all (lines : Lines) : List (List Char) :=
  lines.withEnds ++ if lines.rest.isEmpty then [] else [lines.rest]

end Lines

/-- The lines, with their ends, that are ended whatever follows: a carriage return at the end
of `s` may be the first half of an end. -/
def settledLines (s : List Char) : List (List Char) :=
  (Lines.ofText (if s.getLast? = some '\r' then s.dropLast else s)).withEnds

def lines (s : List Char) : List (List Char) :=
  (Lines.ofText s).all

end Geofence.Text

namespace Geofence.Text.Utf8

/-! ## Decoding piece by piece -/

def pieceSize : Nat := 8192

/-- The bounds of the bytes that may follow the first byte of a character of several bytes;
none for a byte that starts no such character. -/
def continuations (lead : UInt8) : List (Nat × Nat) :=
  let n := lead.toNat
  let tail := (0x80, 0xBF)
  if 0xC2 ≤ n ∧ n ≤ 0xDF then [tail]
  else if n = 0xE0 then [(0xA0, 0xBF), tail]
  else if n = 0xED then [(0x80, 0x9F), tail]
  else if 0xE1 ≤ n ∧ n ≤ 0xEF then [tail, tail]
  else if n = 0xF0 then [(0x90, 0xBF), tail, tail]
  else if 0xF1 ≤ n ∧ n ≤ 0xF3 then [tail, tail, tail]
  else if n = 0xF4 then [(0x80, 0x8F), tail, tail]
  else []

/-- The number of leading bytes that keep within their bounds. -/
def keptWithin : List (Nat × Nat) → List UInt8 → Nat
  | (low, high) :: bounds, b :: bytes =>
    if low ≤ b.toNat ∧ b.toNat ≤ high then keptWithin bounds bytes + 1 else 0
  | _, _ => 0

/-- The number of leading bytes that may still become a character. -/
def startSize : List UInt8 → Nat
  | [] => 0
  | lead :: bytes =>
    match continuations lead with
    | [] => 0
    | bounds => keptWithin bounds bytes + 1

/-- The characters from byte `i` on, behind those decoded so far, and the byte where decoding
stops. -/
def scan (bytes : ByteArray) (i : Nat) (done : Array Char) : Array Char × Nat :=
  match _h : bytes.utf8DecodeChar? i with
  | some c => scan bytes (i + c.utf8Size) (done.push c)
  | none => (done, i)
termination_by bytes.size - i
decreasing_by
  have h₁ : i < bytes.size := ByteArray.lt_size_of_isSome_utf8DecodeChar? (by rw [_h]; rfl)
  have h₂ := c.utf8Size_pos
  omega

/-- The text seen in bytes, and whether decoding them failed after it. -/
structure Decoded where
  text : List Char
  failed : Bool
  deriving DecidableEq, Repr

/-- The text of bytes that decode, and otherwise what is seen before the failure. -/
def decode (bytes : ByteArray) : Decoded :=
  match bytes.utf8Decode? with
  | some text => { text := text.toList, failed := false }
  | none =>
    let (text, i) := scan bytes 0 #[]
    let stop := i + startSize ((bytes.extract i (i + 4)).data.toList)
    if stop = bytes.size then { text := text.toList, failed := true }
    else
      let seen := bytes.extract 0 (stop / pieceSize * pieceSize)
      { text := (scan seen 0 #[]).1.toList, failed := true }

end Geofence.Text.Utf8

namespace Geofence.CellList

/-! ## Cells -/

def isBlankLine (line : List Char) : Bool :=
  (Text.trim line).isEmpty

/-- The lines that are not blank, with their numbers. -/
def numbered (lines : List (List Char)) : List (List Char × Nat) :=
  (lines.zipIdx 1).filter fun line => !isBlankLine line.1

def ofLines (lines : List (List Char)) : Except Fault (List Listed) :=
  (numbered lines).mapM fun line => Listed.ofLine line.2 line.1

/-- The cells of a file; a line that was seen before a failure to decode is read first. -/
def ofBytes (bytes : ByteArray) : Except Fault (List Listed) :=
  let decoded := Text.Utf8.decode bytes
  if decoded.failed then do
    let _ ← ofLines (Text.settledLines decoded.text)
    throw .notUtf8
  else ofLines (Text.lines decoded.text)

end Geofence.CellList
