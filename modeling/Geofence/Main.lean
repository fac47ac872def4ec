/-
# Geofence.Main -- the program

The files that a command names are loaded, the command is carried out on them,
and what it changed is saved.  A fault is told on standard error and ends the
program with exit code 1.
-/
import Geofence.CommandLine.Command
import Geofence.Fault.Message

namespace Geofence.Program

set_option autoImplicit false

def usage : String :=
  "usage: geofence [--log-level LEVEL] COMMAND ...\n"
  ++ "  create INPUT OUTPUT --level N (--allowed-list | --disallowed-list)\n"
  ++ "         [--entry-value-size N] [--version N] [--compress]\n"
  ++ "  create-test OUTPUT\n"
  ++ "  lookup FILE CELL...\n"
  ++ "  dump FILE FOLDER\n"

/-- The disk with the file at a path, if there is one. -/
def loadFile (d : Disk) (path : String) : IO Disk := do
  match ← (IO.FS.readBinFile path).toBaseIO with
  | .ok bytes => return d.put path bytes
  | .error _ => return d

/-- The disk with the folder of a path, if it is there. -/
def loadFolder (d : Disk) (path : String) : IO Disk := do
  match ← (IO.FS.realPath (Path.folder path)).toBaseIO with
  | .ok _ => return d.makeFolder (Path.folder path)
  | .error _ => return d

def load (command : CommandLine.Command) : IO Disk := do
  command.outputs.foldlM loadFolder (← command.inputs.foldlM loadFile .empty)

def save (old new : Disk) : IO Unit := do
  (new.newFolders old).forM fun folder => IO.FS.createDirAll folder
  (new.changes old).reverse.forM fun file => IO.FS.writeBinFile file.1 file.2

def environment : IO CommandLine.Environment := do
  return .ofVariables (← IO.getEnv "S2RANGE_LOG_LEVEL") (← IO.getEnv "S2RANGE_COMPRESS")

/-- Runs the program and returns its exit code. -/
def run (args : List String) : IO UInt32 := do
  let env ← environment
  let old ←
    match CommandLine.Invocation.ofArguments env args with
    | .ok invocation => load invocation.command
    | .error _ =>
      IO.eprint usage
      pure Disk.empty
  let (outcome, new) := CommandLine.runIn env old args
  save old new
  IO.print outcome.output
  match outcome.result with
  | .ok code => return code.toUInt32
  | .error fault =>
    IO.eprintln ("geofence: " ++ fault.message)
    return 1

end Geofence.Program

def main (args : List String) : IO UInt32 :=
  Geofence.Program.run args
