/-
# Geofence.Cell.Literal -- cells in writing

A token is the id in base sixteen without its trailing zeros.  A path is the
face, a slash and one digit from 0 to 3 per level.

Read are two forms.  On a command line a cell is named by an integer literal; a
negative one is the two's complement of an id, so it is read modulo `2 ^ 64`.
In a list of cells a line names a cell and its value, two integers with a comma
between them: the id as a signed or as an unsigned word of 64 bits, the value
with 32 bits.
-/
import Geofence.Cell.Basic
import Geofence.Text.Integer

set_option autoImplicit false

namespace Geofence.Cell

/-! ## Tokens and paths -/

/-- The token as characters: sixteen digits of base sixteen, trailing zeros taken off. -/
def tokenChars (c : Cell) : List Char :=
  if c = 0 then ['X']
  else ((Text.numeral 16 16 c).reverse.dropWhile (· == '0')).reverse

/-- The token of an id; `X` for 0. -/
def token (c : Cell) : String :=
  String.ofList (tokenChars c)

/-- The digit of level `i` on the path of `c`, for `i` from 1. -/
def pathDigit (c : Cell) (i : Nat) : Nat :=
  (c / 2 ^ (pathBits - 2 * i) % 4).toNat

def pathDigits (c : Cell) : List Nat :=
  (List.range (depth c).toNat).map fun i => pathDigit c (i + 1)

/-- `face/digits` of a valid cell; the sixteen digits of any other id. -/
def path (c : Cell) : String :=
  if isValid c then
    toString (face c) ++ "/" ++ String.ofList ((pathDigits c).map Nat.digitChar)
  else "Invalid: " ++ Text.hex 16 c

/-! ## Literals -/

def ofLiteral (s : List Char) : Except Fault Cell := do
  let n ← Text.Integer.literal s
  return if n < 0 then n % wordCount else n

end Geofence.Cell

namespace Geofence

/-! ## Lines of a list -/

structure Listed where
  cell : Cell
  value : Int
  deriving DecidableEq, Repr, Inhabited

namespace Listed

/-- The number of values of 32 bits. -/
def valueCount : Int := 2 ^ (32 : Nat)

def ofLine (number : Int) (line : List Char) : Except Fault Listed :=
  match (Text.trim line).splitOn ',' with
  | [left, right] =>
    match Text.Integer.decimal? left, Text.Integer.decimal? right with
    | some cell, some value =>
      if -Cell.wordCount / 2 ≤ cell ∧ cell < Cell.wordCount ∧ 0 ≤ value ∧ value < valueCount then
        .ok { cell := cell % Cell.wordCount, value }
      else .error (.lineOutside number line)
    | _, _ => .error (.malformedLine number line)
  | _ => .error (.malformedLine number line)

end Listed

end Geofence
