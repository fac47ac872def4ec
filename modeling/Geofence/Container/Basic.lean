/-
# Geofence.Container.Basic -- block containers

A container is a header, the blocks one behind the other, and an index with a
record for each block.  The header names the kind of file by four bytes of
magic, its version and flags, the number of blocks and where the index starts.
A record tells a block's type, where it starts, and how long its payload is as
stored and as read, and its extra bytes, which come first.  All numbers are
stored least significant byte first.

A writer appends blocks behind a header of zeros and remembers a record for
each.  Closing appends the index and then replaces the zeros by the header, so a
container that was not closed, or whose closing failed because a number does not
fit its field, starts with zeros, which no reader takes for a magic.

Opening checks the size, the magic, the version, that the index lies inside the
file, and that no block reaches into it.  Blocks are then read by id.
-/
import Geofence.Container.Compression

namespace Geofence.Container

set_option autoImplicit false

/-! ## Records and headers -/

def headerSize : Nat := 24

def recordSize : Nat := 22

def rangeMagic : List UInt8 := [0x53, 0x32, 0x52, 0x46]

def rangeVersion : Nat := 1

/-- What the index holds about a block. -/
structure Record where
  type : Int
  offset : Nat
  /-- The payload bytes in the file. -/
  stored : Nat
  /-- The payload bytes once read. -/
  raw : Nat
  /-- The extra bytes in front of the payload. -/
  extra : Nat
  deriving DecidableEq, Repr, Inhabited

namespace Record

def encode (r : Record) : Except Fault (List UInt8) := do
  let type ← Bytes.littleField 4 r.type
  let offset ← Bytes.littleField 8 r.offset
  let stored ← Bytes.littleField 4 r.stored
  let raw ← Bytes.littleField 4 r.raw
  let extra ← Bytes.littleField 2 r.extra
  return type ++ offset ++ stored ++ raw ++ extra

def decode (bytes : List UInt8) : Record where
  type := Bytes.ofLittleEndian (bytes.take 4)
  offset := Bytes.ofLittleEndian ((bytes.drop 4).take 8)
  stored := Bytes.ofLittleEndian ((bytes.drop 12).take 4)
  raw := Bytes.ofLittleEndian ((bytes.drop 16).take 4)
  extra := Bytes.ofLittleEndian ((bytes.drop 20).take 2)

/-- Where the block ends, in the arithmetic of words of 64 bits. -/
def stop (r : Record) : Nat :=
  (r.offset + r.extra + r.stored) % 2 ^ (64 : Nat)

end Record

structure Head where
  magic : List UInt8
  version : Int
  flags : Nat
  blockCount : Nat
  indexStart : Nat
  deriving DecidableEq, Repr

namespace Head

/-- The stored form of a header, filled up with zeros. -/
def encode (h : Head) : Except Fault (List UInt8) := do
  let version ← Bytes.littleField 2 h.version
  let flags ← Bytes.littleField 2 h.flags
  let blockCount ← Bytes.littleField 4 h.blockCount
  let indexStart ← Bytes.littleField 8 h.indexStart
  return h.magic ++ version ++ flags ++ blockCount ++ indexStart ++ List.replicate 4 0

def decode (bytes : List UInt8) : Head where
  magic := bytes.take 4
  version := Bytes.ofLittleEndian ((bytes.drop 4).take 2)
  flags := Bytes.ofLittleEndian ((bytes.drop 6).take 2)
  blockCount := Bytes.ofLittleEndian ((bytes.drop 8).take 4)
  indexStart := Bytes.ofLittleEndian ((bytes.drop 12).take 8)

end Head

/-! ## Writing -/

/-- A container that is being written, or was. -/
structure Writer where
  magic : List UInt8
  version : Int
  compressed : Bool
  /-- The blocks, behind the header. -/
  body : ByteArray
  records : Array Record
  /-- What the file holds in the end, once the writer is closed. -/
  sealed : Option ByteArray

namespace Writer

variable [Compression]

def create (magic : List UInt8) (version : Int) (compressed : Bool) : Except Fault Writer :=
  if magic.length ≠ 4 then .error (.magicLength magic)
  else .ok { magic, version, compressed, body := .empty, records := #[], sealed := none }

/-- The header before the container is closed. -/
def placeholder : ByteArray :=
  (List.replicate headerSize 0).toByteArray

def closed (w : Writer) : Bool :=
  w.sealed.isSome

def blockCount (w : Writer) : Nat :=
  w.records.size

/-- The header and the blocks as they stand before the container is closed. -/
def unfinished (w : Writer) : ByteArray :=
  placeholder ++ w.body

/-- What the file holds if nothing more is written. -/
def contents (w : Writer) : ByteArray :=
  w.sealed.getD w.unfinished

def pack (w : Writer) (payload : List UInt8) : List UInt8 :=
  if w.compressed && !payload.isEmpty then Compression.compress payload else payload

def append (w : Writer) (type : Int) (extra payload : List UInt8) : Writer :=
  let stored := w.pack payload
  { w with
    body := w.body ++ (extra ++ stored).toByteArray
    records := w.records.push {
      type
      offset := headerSize + w.body.size
      stored := stored.length
      raw := payload.length
      extra := extra.length } }

/-- Appends a block, whose id is the number of blocks before it. -/
def add (w : Writer) (type : Int) (extra payload : List UInt8) : Except Fault (Nat × Writer) :=
  if w.closed then .error .containerWriterClosed
  else .ok (w.blockCount, w.append type extra payload)

/-- The index behind the records written so far, up to the first that does not fit. -/
def writeIndex (index : ByteArray) : List Record → ByteArray × Except Fault Unit
  | [] => (index, .ok ())
  | r :: records =>
    match r.encode with
    | .ok bytes => writeIndex (index ++ bytes.toByteArray) records
    | .error fault => (index, .error fault)

def head (w : Writer) : Head where
  magic := w.magic
  version := w.version
  flags := if w.compressed then 1 else 0
  blockCount := w.blockCount
  indexStart := headerSize + w.body.size

/-- Closes the container; closing it again does nothing. -/
def close (w : Writer) : Except Fault Unit × Writer :=
  if w.closed then (.ok (), w)
  else
    match writeIndex .empty w.records.toList with
    | (index, .error fault) => (.error fault, { w with sealed := some (w.unfinished ++ index) })
    | (index, .ok _) =>
      match w.head.encode with
      | .error fault => (.error fault, { w with sealed := some (w.unfinished ++ index) })
      | .ok head => (.ok (), { w with sealed := some (head.toByteArray ++ w.body ++ index) })

/-- Ends the container without an index and a header. -/
def abort (w : Writer) : Writer :=
  if w.closed then w else { w with sealed := some w.unfinished }

end Writer

/-! ## Reading -/

structure StoredBlock where
  id : Int
  type : Int
  extra : List UInt8
  payload : List UInt8
  deriving DecidableEq, Repr

/-- A container that is open for reading, or was. -/
structure Reader where
  bytes : ByteArray
  version : Nat
  flags : Nat
  index : Array Record
  closed : Bool

namespace Reader

variable [Compression]

def records (bytes : ByteArray) (indexStart count : Nat) : List Record :=
  (List.range count).map fun i =>
    Record.decode (Bytes.slice bytes (indexStart + recordSize * i) recordSize)

/-- Opens a container; `path` names it in faults. -/
def ofBytes (path : String) (bytes : ByteArray) (magic : List UInt8) (version : Int) :
    Except Fault Reader :=
  if bytes.size < headerSize then .error (.tooShort path)
  else
    let head := Head.decode (Bytes.slice bytes 0 headerSize)
    if head.magic ≠ magic then .error (.wrongMagic head.magic)
    else if head.version ≠ version then .error (.containerVersion head.version.toNat version)
    else if bytes.size < head.indexStart + head.blockCount * recordSize
        ∨ head.indexStart < headerSize then .error (.indexOutside path)
    else
      let index := records bytes head.indexStart head.blockCount
      if index.any fun r => head.indexStart < r.stop then .error (.indexOverlapped path)
      else
        .ok {
          bytes
          version := head.version.toNat
          flags := head.flags
          index := index.toArray
          closed := false }

def blockCount (r : Reader) : Nat :=
  r.index.size

/-- Payloads that are not empty are packed. -/
def compressed (r : Reader) : Bool :=
  r.flags % 2 == 1

/-- The payload of a block of `raw` bytes as it is stored. -/
def unpack (r : Reader) (id : Int) (raw : Nat) (stored : List UInt8) :
    Except Fault (List UInt8) :=
  if r.compressed then
    if raw = 0 then .ok []
    else
      match Compression.decompress? raw stored with
      | some payload => .ok payload
      | none => .error (.undecodable id)
  else .ok stored

def read (r : Reader) (id : Int) : Except Fault StoredBlock :=
  if r.closed then .error .containerReaderClosed
  else if h : 0 ≤ id ∧ id < r.index.size then
    have bound : id.toNat < r.index.size := by omega
    let record := r.index[id.toNat]
    let stored := Bytes.slice r.bytes (record.offset + record.extra) record.stored
    match r.unpack id record.raw stored with
    | .error fault => .error fault
    | .ok payload =>
      if payload.length ≠ record.raw then
        .error (.blockSize id payload.length record.raw)
      else
        .ok {
          id
          type := record.type
          extra := Bytes.slice r.bytes record.offset record.extra
          payload }
  else .error (.blockOutside id r.index.size)

def blocks (r : Reader) : Except Fault (List StoredBlock) :=
  (List.range r.blockCount).mapM fun (id : Nat) => r.read id

def close (r : Reader) : Reader :=
  { r with closed := true }

end Reader

end Geofence.Container
