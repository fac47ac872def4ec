/-
# Geofence.Text.Integer -- integers in writing

A numeral is the digits of the magnitude with a minus sign in front of a
negative number.  Padding puts zeros between sign and digits, and the sign
counts towards the width.

What is read is more generous.  An integer is an optional sign and digits, with
blanks around it; a single underscore may stand between two digits, and the
decimal digits and blanks of every script count.  A literal is an integer whose
digits may also be marked as base 16, 8 or 2 by `0x`, `0o` or `0b`; without a
mark it is decimal and has no leading zeros unless it is zero.  Decimal digits
are limited in number.

Blanks come in two classes: the blanks of every script together with the four
information separators, which are trimmed from the ends of a line, and the six
blanks of ASCII that may surround an integer.  Each script that has decimal
digits has ten of them in a row, so the zeros alone fix the values of all.
-/
import Geofence.Fault

set_option autoImplicit false

namespace Geofence.Text

/-! ## Numerals -/

/-- The digits of `n` in `base`, at least one, lower-case letters after `9`. -/
def digits (base n : Nat) : List Char :=
  Nat.toDigits base n

def zeroPad (width : Nat) (digits : List Char) : List Char :=
  List.replicate (width - digits.length) '0' ++ digits

/-- `n` in `base` with at least `width` characters, the sign among them. -/
def numeral (base width : Nat) (n : Int) : List Char :=
  if n < 0 then '-' :: zeroPad (width - 1) (digits base n.natAbs)
  else zeroPad width (digits base n.natAbs)

def hex (width : Nat) (n : Int) : String :=
  String.ofList (numeral 16 width n)

def binary (width : Nat) (n : Int) : String :=
  String.ofList (numeral 2 width n)

def flag (b : Bool) : String :=
  if b then "True" else "False"

theorem length_zeroPad (width : Nat) (ds : List Char) :
    (zeroPad width ds).length = max width ds.length := by
  simp [zeroPad]; omega

/-! ## Blanks -/

/-- A blank of ASCII: tab, line feed, vertical tab, form feed, carriage return or space. -/
def isAsciiBlank (c : Char) : Bool :=
  (0x09 ≤ c.toNat && c.toNat ≤ 0x0D) || c.toNat == 0x20

def isWideBlank (c : Char) : Bool :=
  c.toNat == 0x85 || c.toNat == 0xA0 || c.toNat == 0x1680
    || (0x2000 ≤ c.toNat && c.toNat ≤ 0x200A) || c.toNat == 0x2028 || c.toNat == 0x2029
    || c.toNat == 0x202F || c.toNat == 0x205F || c.toNat == 0x3000

/-- A blank of any script, or one of the four information separators. -/
def isBlank (c : Char) : Bool :=
  isAsciiBlank c || (0x1C ≤ c.toNat && c.toNat ≤ 0x1F) || isWideBlank c

def trimBy (p : Char → Bool) (s : List Char) : List Char :=
  ((s.dropWhile p).reverse.dropWhile p).reverse

def trim (s : List Char) : List Char :=
  trimBy isBlank s

/-! ## Digits of every script -/

/-- The zeros of the scripts above ASCII. -/
def digitZeros : List Nat := [
  0x660, 0x6F0, 0x7C0, 0x966, 0x9E6, 0xA66, 0xAE6, 0xB66, 0xBE6, 0xC66, 0xCE6, 0xD66, 0xDE6,
   0xE50, 0xED0, 0xF20, 0x1040, 0x1090, 0x17E0, 0x1810, 0x1946, 0x19D0, 0x1A80, 0x1A90, 0x1B50,
   0x1BB0, 0x1C40, 0x1C50, 0xA620, 0xA8D0, 0xA900, 0xA9D0, 0xA9F0, 0xAA50, 0xABF0, 0xFF10,
   0x104A0, 0x10D30, 0x11066, 0x110F0, 0x11136, 0x111D0, 0x112F0, 0x11450, 0x114D0, 0x11650,
   0x116C0, 0x11730, 0x118E0, 0x11950, 0x11C50, 0x11D50, 0x11DA0, 0x16A60, 0x16AC0, 0x16B50,
   0x1D7CE, 0x1D7D8, 0x1D7E2, 0x1D7EC, 0x1D7F6, 0x1E140, 0x1E2F0, 0x1E950, 0x1FBF0]

/-- The value of a decimal digit of any script but ASCII. -/
def decimalDigit? (c : Char) : Option Nat :=
  digitZeros.findSome? fun first =>
    if first ≤ c.toNat ∧ c.toNat < first + 10 then some (c.toNat - first) else none

end Geofence.Text

namespace Geofence.Text.Integer

/-! ## Reading -/

def digitLimit : Nat := 4300

/-- The value of a digit below `base`, letters of either case after `9`. -/
def digitValue? (base : Nat) (c : Char) : Option Nat :=
  let n := c.toNat
  let value :=
    if 48 ≤ n ∧ n ≤ 57 then n - 48
    else if 97 ≤ n ∧ n ≤ 122 then n - 87
    else if 65 ≤ n ∧ n ≤ 90 then n - 55
    else base
  if value < base then some value else none

/-- The values of one or more digits, single underscores between them allowed. -/
def digitRun? (base : Nat) : List Char → Option (List Nat)
  | [] => none
  | [c] => (digitValue? base c).map fun d => [d]
  | c :: '_' :: rest => do
    let d ← digitValue? base c
    let ds ← digitRun? base rest
    return d :: ds
  | c :: rest => do
    let d ← digitValue? base c
    let ds ← digitRun? base rest
    return d :: ds

/-- The number that digits spell, most significant first. -/
def ofDigits (base : Nat) (ds : List Nat) : Nat :=
  ds.foldl (fun n d => n * base + d) 0

/-- A digit or blank of another script as its ASCII counterpart. -/
def toAscii (c : Char) : Char :=
  if c.toNat < 0x80 then c
  else if isWideBlank c then ' '
  else
    match decimalDigit? c with
    | some d => Nat.digitChar d
    | none => c

/-- The text in ASCII digits, without the blanks around it. -/
def bare (s : List Char) : List Char :=
  trimBy isAsciiBlank (s.map toAscii)

/-- The sign in front, as whether it is a minus, and what follows. -/
def splitSign : List Char → Bool × List Char
  | '-' :: rest => (true, rest)
  | '+' :: rest => (false, rest)
  | rest => (false, rest)

def withSign (minus : Bool) (n : Nat) : Int :=
  if minus then -(n : Int) else n

def decimal? (s : List Char) : Option Int := do
  let (minus, body) := splitSign (bare s)
  let ds ← digitRun? 10 body
  if digitLimit < ds.length then none
  else return withSign minus (ofDigits 10 ds)

/-- The base that a mark in front of digits names, and the digits; one underscore may follow
the mark. -/
def splitMark? : List Char → Option (Nat × List Char)
  | '0' :: mark :: rest =>
    let digits := if rest.head? = some '_' then rest.drop 1 else rest
    if mark = 'x' ∨ mark = 'X' then some (16, digits)
    else if mark = 'o' ∨ mark = 'O' then some (8, digits)
    else if mark = 'b' ∨ mark = 'B' then some (2, digits)
    else none
  | _ => none

/-- An integer literal.  The digits in front are counted before what follows them is looked at. -/
def literal (s : List Char) : Except Fault Int :=
  let (minus, body) := splitSign (bare s)
  match splitMark? body with
  | some (base, digits) =>
    match digitRun? base digits with
    | some ds => .ok (withSign minus (ofDigits base ds))
    | none => .error (.notInteger s)
  | none =>
    let run := body.takeWhile fun c => c.isDigit || c == '_'
    match digitRun? 10 run with
    | none => .error (.notInteger s)
    | some ds =>
      if digitLimit < ds.length then .error (.tooManyDigits ds.length)
      else if run.length < body.length ∨ (body.head? = some '0' ∧ ofDigits 10 ds ≠ 0) then
        .error (.notInteger s)
      else .ok (withSign minus (ofDigits 10 ds))

end Geofence.Text.Integer
