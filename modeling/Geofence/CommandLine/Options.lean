/-
# Geofence.CommandLine.Options -- settings and operands

An argument that starts with a dash names a setting, unless it is a lone dash, a
negative decimal number or holds a space.  A long name may be cut short as long
as one setting is meant.  A setting with a value takes it from behind `=` or
from the next argument.  After `--` every argument is an operand.

Settings and operands may be mixed.  The operands between two settings go to the
slots still open, as many of them as these operands can fill.  Whatever fills no
slot is surplus, and so is an unknown setting.

Arguments are read from the first to the last, and the first that cannot be read
or asks for help decides.  Whether something is missing or left over is asked at
the end.
-/
import Geofence.Cell.Literal

namespace Geofence.CommandLine

set_option autoImplicit false

/-- What an operand or the value of a setting spells. -/
inductive Kind where
  | text
  | integer
  | cell
  deriving DecidableEq, Repr

/-- The argument spells something of the kind. -/
def Kind.admits (kind : Kind) (arg : String) : Bool :=
  match kind with
  | text => true
  | integer => (Text.Integer.decimal? arg.toList).isSome
  | cell => (Cell.ofLiteral arg.toList).isOk

/-- What may stand in front of or between operands. -/
structure Setting where
  id : String
  names : List String
  /-- The kind of its value, if it takes one. -/
  value : Option Kind
  /-- The settings that must not stand in front of it. -/
  excludes : List String
  deriving DecidableEq, Repr

/-- The place of one operand, or of one and all that follow. -/
structure Slot where
  kind : Kind
  many : Bool
  deriving DecidableEq, Repr

/-- Why no command comes of the arguments. -/
inductive Refusal where
  | usage
  | help
  deriving DecidableEq, Repr

/-- An argument by its part in the command line. -/
inductive Item where
  | setting (s : Setting) (attached : Option String)
  | unknown
  | operand (text : String)
  | separator
  deriving DecidableEq, Repr

namespace Item

def isOperand : Item → Bool
  | operand _ => true
  | separator => true
  | _ => false

/-- The argument as it was written, for operands and separators. -/
def text : Item → String
  | operand t => t
  | separator => "--"
  | _ => ""

end Item

/-! ## Arguments as items -/

/-- A decimal digit of any script. -/
def isDigit (c : Char) : Bool :=
  c.isDigit || (Text.decimalDigit? c).isSome

/-- A minus, digits, and possibly a point and more digits; a line feed may follow. -/
def isNegativeNumber (s : List Char) : Bool :=
  match if s.getLast? = some '\n' then s.dropLast else s with
  | '-' :: body =>
    let whole := body.takeWhile isDigit
    match body.dropWhile isDigit with
    | [] => !whole.isEmpty
    | '.' :: places => !places.isEmpty && places.all isDigit
    | _ => false
  | _ => false

/-- The text in front of the first `=` and, if there is one, the text behind it. -/
def splitAtEquals (s : List Char) : String × Option String :=
  let front := s.takeWhile (· ≠ '=')
  match s.dropWhile (· ≠ '=') with
  | [] => (String.ofList front, none)
  | _ :: value => (String.ofList front, some (String.ofList value))

def named? (settings : List Setting) (name : String) : Option Setting :=
  settings.find? fun s => s.names.contains name

/-- The settings that an argument may mean, once per name, with the value it carries. -/
def meant (settings : List Setting) (s : List Char) : List (Setting × Option String) :=
  let names := settings.flatMap fun setting => setting.names.map fun name => (name, setting)
  if s.take 2 = ['-', '-'] then
    let (front, value) := splitAtEquals s
    (names.filter fun entry => entry.1.startsWith front).map fun entry => (entry.2, value)
  else
    names.filterMap fun entry =>
      if entry.1.toList = s.take 2 then some (entry.2, some (String.ofList (s.drop 2)))
      else if entry.1.startsWith (String.ofList s) then some (entry.2, none)
      else none

/-- An argument in front of `--` as an item. -/
def itemOf (settings : List Setting) (arg : String) : Except Refusal Item :=
  let s := arg.toList
  if s.head? ≠ some '-' then .ok (.operand arg)
  else
    match named? settings arg with
    | some setting => .ok (.setting setting none)
    | none =>
      if s.length = 1 then .ok (.operand arg)
      else
        let (front, value) := splitAtEquals s
        match if value.isSome then named? settings front else none with
        | some setting => .ok (.setting setting value)
        | none =>
          match meant settings s with
          | [(setting, attached)] => .ok (.setting setting attached)
          | _ :: _ => .error .usage
          | [] =>
            if isNegativeNumber s || s.contains ' ' then .ok (.operand arg) else .ok .unknown

def itemsOf (settings : List Setting) : List String → Except Refusal (List Item)
  | [] => .ok []
  | arg :: args =>
    if arg = "--" then .ok (.separator :: args.map .operand)
    else do
      let item ← itemOf settings arg
      let items ← itemsOf settings args
      return item :: items

/-! ## Operands in slots -/

/-- One operand with the separators around it. -/
def takeOne? (run : List Item) : Option (List String × List Item) :=
  let isSeparator := fun (i : Item) => i == .separator
  let before := run.takeWhile isSeparator
  match run.dropWhile isSeparator with
  | [] => none
  | operand :: rest =>
    let after := rest.takeWhile isSeparator
    some ((before ++ operand :: after).map Item.text, rest.dropWhile isSeparator)

def takeAll? : List Slot → List Item → Option (List (List String) × List Item)
  | [], run => some ([], run)
  | slot :: slots, run => do
    let (texts, rest) ← takeOne? run
    if slot.many then return ([run.map Item.text], [])
    let (more, last) ← takeAll? slots rest
    return (texts :: more, last)

/-- Operands for as many of the first slots as possible. -/
def takeMost (slots : List Slot) (run : List Item) : List (List String) × List Item :=
  ((List.range slots.length).reverse.findSome? fun i => takeAll? (slots.take (i + 1)) run).getD
    ([], run)

structure Reading where
  /-- The values given, by the setting; a setting without a value has an empty one. -/
  values : List (String × String)
  /-- What the slots filled so far hold. -/
  filled : List (List String)
  surplus : Bool
  deriving DecidableEq, Repr

/-- What a slot holds, without the first `--` put into it. -/
def texts (slot : List String) : List String :=
  slot.erase "--"

def Reading.fill (slots : List Slot) (r : Reading) (run : List Item) : Except Refusal Reading :=
  let free := slots.drop r.filled.length
  let (taken, rest) := takeMost free run
  let taken := taken.map texts
  if (free.zip taken).all fun (slot, operands) => operands.all slot.kind.admits then
    .ok { r with filled := r.filled ++ taken, surplus := r.surplus || !rest.isEmpty }
  else .error .usage

def Reading.has (r : Reading) (id : String) : Bool :=
  r.values.any fun value => value.1 == id

/-- The value that a setting was given last. -/
def Reading.value? (r : Reading) (id : String) : Option String :=
  (r.values.filter fun value => value.1 == id).getLast?.map (·.2)

def Reading.give (r : Reading) (s : Setting) (value : String) : Except Refusal Reading :=
  if s.excludes.any r.has then .error .usage
  else .ok { r with values := r.values ++ [(s.id, value)] }

/-- The operands in front of the first setting, and behind each setting. -/
def segments : List Item → List Item × List (Item × List Item)
  | [] => ([], [])
  | item :: items =>
    let (run, later) := segments items
    if item.isOperand then (item :: run, later) else ([], (item, run) :: later)

def Reading.step (slots : List Slot) (r : Reading) (segment : Item × List Item) :
    Except Refusal Reading :=
  match segment with
  | (.setting s attached, run) =>
    match s.value, attached, run with
    | some kind, some value, _ =>
      if kind.admits value then do (← r.give s value).fill slots run else .error .usage
    | some kind, none, .operand value :: rest =>
      if kind.admits value then do (← r.give s value).fill slots rest else .error .usage
    | some _, none, _ => .error .usage
    | none, some _, _ => .error .usage
    | none, none, _ =>
      if s.id = "help" then .error .help else do (← r.give s "").fill slots run
  | (_, run) => { r with surplus := true }.fill slots run

/-- Reads a command line, which must fill every slot and leave nothing over. -/
def read (settings : List Setting) (slots : List Slot) (args : List String) :
    Except Refusal Reading := do
  let items ← itemsOf settings args
  let (front, later) := segments items
  let start : Reading := { values := [], filled := [], surplus := false }
  let r ← later.foldlM (Reading.step slots) (← start.fill slots front)
  if r.filled.length < slots.length ∨ r.surplus then throw .usage
  return r

end Geofence.CommandLine
