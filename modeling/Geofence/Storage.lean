/-
# Geofence.Storage -- containers and range files on a disk

A disk holds files in folders.  A path is a list of steps between slashes, and
empty steps and `.` lead nowhere.  A file can be read where it is, and written
where its folder is.

A container or range file that is being written is there from the start and
empty, and gets its contents when its writer ends, however that comes about.
-/
import Geofence.RangeFile.Access

set_option autoImplicit false

namespace Geofence

namespace Path

def steps (path : String) : List String :=
  ((path.toList.splitOn '/').map String.ofList).filter fun s => s ≠ "" ∧ s ≠ "."

/-- A path of steps, below the root of the disk when `rooted`. -/
def ofSteps (rooted : Bool) (steps : List String) : String :=
  let joined := String.intercalate "/" steps
  if rooted then "/" ++ joined else if steps.isEmpty then "." else joined

def isRooted (path : String) : Bool :=
  path.startsWith "/"

/-- The path without steps that lead nowhere. -/
def clean (path : String) : String :=
  ofSteps (isRooted path) (steps path)

def folder (path : String) : String :=
  ofSteps (isRooted path) (steps path).dropLast

/-- The last step of a path. -/
def name (path : String) : String :=
  (steps path).getLast?.getD ""

def join (folder name : String) : String :=
  ofSteps (isRooted folder) (steps folder ++ steps name)

end Path

/-- The files of a disk by their clean paths, and its folders besides the two roots. -/
structure Disk where
  files : List (String × ByteArray)
  folders : List String

namespace Disk

def empty : Disk where
  files := []
  folders := []

def hasFolder (d : Disk) (path : String) : Bool :=
  let p := Path.clean path
  p == "." || p == "/" || d.folders.contains p

def get? (d : Disk) (path : String) : Option ByteArray :=
  d.files.lookup (Path.clean path)

def read (d : Disk) (path : String) : Except Fault ByteArray :=
  match d.get? path with
  | some bytes => .ok bytes
  | none => .error .fileNotFound

def put (d : Disk) (path : String) (bytes : ByteArray) : Disk :=
  let p := Path.clean path
  { d with files := (p, bytes) :: d.files.filter fun file => file.1 != p }

/-- The disk with a file at a path whose folder is there. -/
def write (d : Disk) (path : String) (bytes : ByteArray) : Except Fault Disk :=
  if d.hasFolder (Path.folder path) then .ok (d.put path bytes) else .error .fileNotFound

/-- The disk with a folder at a path, and the folders that lead to it. -/
def makeFolder (d : Disk) (path : String) : Disk :=
  let steps := Path.steps path
  let paths := (List.range steps.length).map fun i =>
    Path.ofSteps (Path.isRooted path) (steps.take (i + 1))
  { d with folders := d.folders ++ paths.filter fun p => !d.folders.contains p }

/-- The files of `d` that are not in `old`, or not with the same bytes. -/
def changes (d old : Disk) : List (String × ByteArray) :=
  d.files.filter fun file => old.files.lookup file.1 != some file.2

def newFolders (d old : Disk) : List String :=
  d.folders.filter fun p => !old.folders.contains p

/-- The files of a folder by name, sorted. -/
def list (d : Disk) (path : String) : Except Fault (List (String × ByteArray)) :=
  if d.hasFolder path then
    let here := d.files.filter fun file => Path.folder file.1 == Path.clean path
    .ok ((here.map fun file => (Path.name file.1, file.2)).mergeSort fun x y => x.1 ≤ y.1)
  else .error .fileNotFound

end Disk

end Geofence

namespace Geofence.Disk

/-! ## Containers, range files and dumps -/

variable [Container.Compression]

def startContainer (d : Disk) (path : String) (magic : List UInt8) (version : Int)
    (compressed : Bool) : Except Fault Container.Writer × Disk :=
  match Container.Writer.create magic version compressed with
  | .error fault => (.error fault, d)
  | .ok w =>
    match d.write path .empty with
    | .error fault => (.error fault, d)
    | .ok e => (.ok w, e)

/-- Starts a range file at a path.  A format that does not fit a header leaves a file that
cannot be read. -/
def startRangeFile (d : Disk) (path : String) (format : Format) (compressed : Bool) :
    Except Fault RangeFile.Writer × Disk :=
  match d.write path .empty with
  | .error fault => (.error fault, d)
  | .ok e =>
    match RangeFile.Writer.create format compressed with
    | .error fault => (.error fault, e.put path RangeFile.Writer.stillborn)
    | .ok w => (.ok w, e)

def openContainer (d : Disk) (path : String) (magic : List UInt8) (version : Int) :
    Except Fault Container.Reader := do
  let bytes ← d.read path
  Container.Reader.ofBytes (Path.clean path) bytes magic version

def openRangeFile (d : Disk) (path : String) (expected : RangeFile.Expected) :
    Except Fault RangeFile.Reader := do
  let bytes ← d.read path
  RangeFile.Reader.ofBytes (Path.clean path) bytes expected

/-- Writes the dump of a range file into a folder, which is made if need be. -/
def dump (d : Disk) (folder : String) (reader : RangeFile.Reader) :
    RangeFile.Dump.Pages × RangeFile.Reader × Disk :=
  let (pages, reader) := RangeFile.Dump.pages reader
  let filled := pages.pages.foldl
    (fun d page => d.put (Path.join folder page.name) page.text.toUTF8) (d.makeFolder folder)
  (pages, reader, filled)

end Geofence.Disk
