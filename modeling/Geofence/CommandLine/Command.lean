/-
# Geofence.CommandLine.Command -- the commands

Four commands: build a range file from a cell list, write the sample file, look
up cells, and dump a file as texts.  `Invocation.ofArguments` reads a command
line and `run` carries the command out on a disk, with payloads packed as frames.

Two variables of the environment stand in for settings that a command line leaves
out: `S2RANGE_LOG_LEVEL` for `--log-level`, and `S2RANGE_COMPRESS` for
`--compress`, which it asks for when it is `1` and only then.  A command line
cannot take that back.
-/
import Geofence.Build
import Geofence.CommandLine.Options

namespace Geofence.CommandLine

set_option autoImplicit false

inductive Command where
  | create (request : Build.Request)
  | createSample (output : String)
  | lookup (file : String) (cells : List Cell)
  | dump (file folder : String)
  deriving DecidableEq, Repr

structure Invocation where
  logLevel : String
  command : Command
  deriving DecidableEq, Repr

/-- What holds where a command line says nothing. -/
structure Environment where
  logLevel : String
  compressed : Bool
  deriving DecidableEq, Repr

/-- The values of `S2RANGE_LOG_LEVEL` and `S2RANGE_COMPRESS`, each of which may be unset. -/
def Environment.ofVariables (logLevel compress : Option String) : Environment where
  logLevel := logLevel.getD "INFO"
  compressed := compress == some "1"

def Environment.unset : Environment :=
  .ofVariables none none

/-! ## Reading -/

/-- A setting that is given or not. -/
def flagSetting (id : String) (names excludes : List String) : Setting :=
  { id, names, value := none, excludes }

def valueSetting (id name : String) (kind : Kind) : Setting :=
  { id, names := [name], value := some kind, excludes := [] }

def helpSetting : Setting :=
  flagSetting "help" ["-h", "--help"] []

/-- The settings in front of the command. -/
def mainSettings : List Setting :=
  [helpSetting, valueSetting "log-level" "--log-level" .text]

def createSettings : List Setting :=
  [helpSetting,
   valueSetting "level" "--level" .integer,
   flagSetting "allowed-list" ["--allowed-list"] ["disallowed-list"],
   flagSetting "disallowed-list" ["--disallowed-list"] ["allowed-list"],
   valueSetting "entry-value-size" "--entry-value-size" .integer,
   valueSetting "version" "--version" .integer,
   flagSetting "compress" ["--compress"] []]

def pathSlot : Slot :=
  { kind := .text, many := false }

def cellSlot : Slot :=
  { kind := .cell, many := true }

/-- The integer that a setting was given last. -/
def Reading.number? (r : Reading) (id : String) : Option Int :=
  (r.value? id).bind fun text => Text.Integer.decimal? text.toList

def readCreate (env : Environment) (args : List String) : Except Refusal Command := do
  let r ← read createSettings [pathSlot, pathSlot] args
  match r.filled, r.number? "level" with
  | [[input], [output]], some level =>
    if !(r.has "allowed-list" || r.has "disallowed-list") then throw .usage
    return .create {
      input, output, level
      isAllowedList := r.has "allowed-list"
      valueSize := (r.number? "entry-value-size").getD 0
      version := (r.number? "version").getD 0
      compressed := env.compressed || r.has "compress" }
  | _, _ => throw .usage

def readCreateSample (args : List String) : Except Refusal Command := do
  let r ← read [helpSetting] [pathSlot] args
  match r.filled with
  | [[output]] => return .createSample output
  | _ => throw .usage

def readLookup (args : List String) : Except Refusal Command := do
  let r ← read [helpSetting] [pathSlot, cellSlot] args
  match r.filled with
  | [[file], cells] =>
    return .lookup file (cells.filterMap fun text => (Cell.ofLiteral text.toList).toOption)
  | _ => throw .usage

def readDump (args : List String) : Except Refusal Command := do
  let r ← read [helpSetting] [pathSlot, pathSlot] args
  match r.filled with
  | [[file], [folder]] => return .dump file folder
  | _ => throw .usage

def readCommand (env : Environment) (name : String) (args : List String) :
    Except Refusal Command :=
  if name = "create" then readCreate env args
  else if name = "create-test" then readCreateSample args
  else if name = "lookup" then readLookup args
  else if name = "dump" then readDump args
  else .error .usage

/-- Reads the settings in front of the command, then the command with all that follows it. -/
def readMain (env : Environment) (logLevel : String) (surplus : Bool) :
    List (Item × String) → Except Refusal Invocation
  | [] => .error .usage
  | (.operand name, _) :: rest => do
    let command ← readCommand env name (rest.map (·.2))
    if surplus then throw .usage
    return { logLevel, command }
  | (.separator, _) :: _ => .error .usage
  | (.unknown, _) :: rest => readMain env logLevel true rest
  | (.setting s (some value), _) :: rest =>
    if s.value.isSome then readMain env value surplus rest else .error .usage
  | (.setting s none, _) :: rest =>
    if s.value.isSome then
      match rest with
      | (.operand value, _) :: later => readMain env value surplus later
      | _ => .error .usage
    else .error .help

def Invocation.ofArguments (env : Environment) (args : List String) :
    Except Refusal Invocation := do
  let items ← itemsOf mainSettings args
  readMain env env.logLevel false (items.zip args)

/-! ## Carrying out -/

/-- The files that a command reads, if they are there. -/
def Command.inputs : Command → List String
  | create request => [request.input]
  | createSample _ => []
  | lookup file _ => [file]
  | dump file _ => [file]

/-- The files that a command writes to folders that have to be there. -/
def Command.outputs : Command → List String
  | create request => [request.output]
  | createSample output => [output]
  | lookup .. => []
  | dump .. => []

/-- How a command ended: what it printed, and its exit code or the fault that stopped it. -/
structure Outcome where
  output : String
  result : Except Fault Nat

def logLevels : List String :=
  ["CRITICAL", "FATAL", "ERROR", "WARN", "WARNING", "INFO", "DEBUG", "NOTSET"]

def lookupLine (f : Format) (c : Cell) (found : Option CellRange) : String :=
  let value := match found with | some r => toString r.value | none => "-"
  toString c ++ " " ++ Cell.path c ++ " allowed="
    ++ Text.flag (RangeFile.Reader.decision f found.isSome) ++ " entry_value=" ++ value ++ "\n"

/-- The lines for cells, behind those printed so far. -/
def lookupLines : List Cell → RangeFile.Reader → String → Outcome
  | [], _, output => { output, result := .ok 0 }
  | c :: cells, r, output =>
    match r.find c with
    | (.error fault, _) => { output, result := .error fault }
    | (.ok found, s) => lookupLines cells s (output ++ lookupLine r.format c found)

def Command.run (d : Disk) : Command → Outcome × Disk
  | create request =>
    let (result, e) := Build.create d request
    ({ output := "", result := result.map fun _ => 0 }, e)
  | createSample output =>
    let (result, e) := Build.createSample d output
    ({ output := "", result := result.map fun _ => 0 }, e)
  | lookup file cells =>
    match d.openRangeFile file .nothing with
    | .error fault => ({ output := "", result := .error fault }, d)
    | .ok r => (lookupLines cells r "", d)
  | dump file folder =>
    match d.openRangeFile file .nothing with
    | .error fault => ({ output := "", result := .error fault }, d)
    | .ok r =>
      let (pages, _, e) := d.dump folder r
      match pages.fault with
      | some fault => ({ output := "", result := .error fault }, e)
      | none => ({ output := "", result := .ok 0 }, e)

/-- Carries out an invocation, whose level of logging must be one of `logLevels` in upper or
lower case. -/
def Invocation.run (d : Disk) (i : Invocation) : Outcome × Disk :=
  let logLevel := i.logLevel.toUpper
  if logLevels.contains logLevel then i.command.run d
  else ({ output := "", result := .error (.unknownLogLevel logLevel) }, d)

/-- Carries out a command line: exit code 2 when it is not understood, 0 when it asks for
help. -/
def runIn (env : Environment) (d : Disk) (args : List String) : Outcome × Disk :=
  match Invocation.ofArguments env args with
  | .ok invocation => invocation.run d
  | .error .usage => ({ output := "", result := .ok 2 }, d)
  | .error .help => ({ output := "", result := .ok 0 }, d)

/-- Carries out a command line where neither variable is set. -/
def run (d : Disk) (args : List String) : Outcome × Disk :=
  runIn .unset d args

end Geofence.CommandLine
