/-
# Geofence.Container.Compression -- how payloads are packed

A compressed container keeps every payload that is not empty in packed form.
How it is packed is not the container's concern: it asks for a function that
packs a payload and one that unpacks it when told its size.  Everything said
about containers and range files is said of any such pair.  `RoundTrips` is all
that reading a compressed container relies on.

The pair that the program runs with keeps a payload as one Zstandard frame.
Frames are written with their content size and blocks of plain bytes.  Read are
frames of plain blocks and of blocks that repeat one byte, with or without a
content size; checksums, dictionaries and entropy-coded blocks are not decoded.

A frame that states its content size must hold exactly that many bytes, and
where it states zero, nothing behind its header is looked at.  Without a content
size the caller's limit bounds the output, the blocks are bounded by the window,
and the window by `greatestWindow`.
-/
import Geofence.Bytes

set_option autoImplicit false

namespace Geofence.Container

/-- How payloads are packed and unpacked. -/
class Compression where
  /-- The packed form of a payload. -/
  compress : List UInt8 → List UInt8
  /-- The payload of at most `limit` bytes that packed bytes hold, if they hold one. -/
  decompress? : (limit : Nat) → List UInt8 → Option (List UInt8)

/-- A payload of a container, which has fewer than `2 ^ 32` bytes, reads back at its size. -/
def Compression.RoundTrips [Compression] : Prop :=
  ∀ payload : List UInt8, payload ≠ [] → payload.length < 2 ^ (32 : Nat) →
    decompress? payload.length (compress payload) = some payload

end Geofence.Container

namespace Geofence.Container.Frame

def magic : List UInt8 := [0x28, 0xB5, 0x2F, 0xFD]

def greatestBlock : Nat := 131072

/-- The greatest window of a frame without a content size. -/
def greatestWindow : Nat := 134217729

/-! ## Writing frames -/

def plainHeader (last : Bool) (size : Nat) : List UInt8 :=
  Bytes.littleEndian 3 (size * 8 + if last then 1 else 0)

def plainBlocks (payload : List UInt8) : List UInt8 :=
  if payload.length ≤ greatestBlock then plainHeader true payload.length ++ payload
  else
    plainHeader false greatestBlock ++ payload.take greatestBlock
      ++ plainBlocks (payload.drop greatestBlock)
termination_by payload.length
decreasing_by
  simp only [List.length_drop, greatestBlock] at *
  omega

/-- The frame of a payload: a content size of eight bytes and a window as large. -/
def encode (payload : List UInt8) : List UInt8 :=
  magic ++ [0xE0] ++ Bytes.littleEndian 8 payload.length ++ plainBlocks payload

/-! ## Reading frames -/

/-- What a frame says before its blocks. -/
structure Head where
  contentSize : Option Nat
  window : Nat
  deriving DecidableEq, Repr

/-- The window that a descriptor byte stands for, within the range of the format. -/
def windowOf? (descriptor : Nat) : Option Nat :=
  let exponent := descriptor / 8
  let base := 2 ^ (10 + exponent)
  if exponent ≤ 21 then some (base + base / 8 * (descriptor % 8)) else none

/-- The first `count` bytes and the others, if there are as many. -/
def split? (count : Nat) (bytes : List UInt8) : Option (List UInt8 × List UInt8) :=
  if count ≤ bytes.length then some (bytes.take count, bytes.drop count) else none

theorem length_of_split? {count : Nat} {bytes front rest : List UInt8}
    (h : split? count bytes = some (front, rest)) : front.length = count ∧
      rest.length + count = bytes.length := by
  unfold split? at h
  split at h
  · simp only [Option.some.injEq, Prod.mk.injEq] at h
    simp only [← h.1, ← h.2, List.length_take, List.length_drop]
    omega
  · simp at h

/-- The header of a frame, without its magic, and the bytes of its blocks. -/
def head? (bytes : List UInt8) : Option (Head × List UInt8) := do
  let (flags, rest) ← split? 1 bytes
  let flag := Bytes.ofLittleEndian flags
  let single := flag / 32 % 2 == 1
  let (descriptor, rest) ← split? (if single then 0 else 1) rest
  let dictionarySize := [0, 1, 2, 4].getD (flag % 4) 0
  let (dictionary, rest) ← split? dictionarySize rest
  let sizeSize := [if single then 1 else 0, 2, 4, 8].getD (flag / 64) 0
  let (size, rest) ← split? sizeSize rest
  if flag / 4 % 4 ≠ 0 ∨ Bytes.ofLittleEndian dictionary ≠ 0 then none
  else
    let content := Bytes.ofLittleEndian size + if sizeSize = 2 then 256 else 0
    let window ← if single then some content else windowOf? (Bytes.ofLittleEndian descriptor)
    return ({ contentSize := if sizeSize = 0 then none else some content, window }, rest)

/-- The output of the blocks of a frame: at most `room` bytes, no block above `greatest`. -/
def blocks? (greatest : Nat) (room : Nat) (bytes : List UInt8) : Option (List UInt8) :=
  match _h : split? 3 bytes with
  | none => none
  | some (header, rest) =>
    let n := Bytes.ofLittleEndian header
    let size := n / 8
    let type := n / 2 % 4
    if greatest < size ∨ room < size then none
    else
      match _h' : split? (if type = 0 then size else 1) rest with
      | none => none
      | some (stored, rest') =>
        let output :=
          if type = 0 then some stored
          else if type = 1 then some (stored.flatMap (List.replicate size))
          else none
        match output with
        | none => none
        | some output =>
          if n % 2 = 1 then some output
          else (blocks? greatest (room - size) rest').map (output ++ ·)
termination_by bytes.length
decreasing_by
  have h₁ := length_of_split? _h
  have h₂ := length_of_split? _h'
  omega

/-- The payload of the frame that bytes start with; frames to be skipped hold none. -/
def decode? (limit : Nat) (bytes : List UInt8) : Option (List UInt8) :=
  let tag := Bytes.ofLittleEndian (bytes.take 4)
  if 8 ≤ bytes.length ∧ tag / 16 = 0x184D2A5 then some []
  else if bytes.take 4 ≠ magic then none
  else do
    let (head, rest) ← head? (bytes.drop 4)
    match head.contentSize with
    | some 0 => return []
    | some size =>
      let payload ← blocks? size size rest
      if payload.length = size then return payload else none
    | none =>
      if greatestWindow < head.window then none
      else blocks? (min head.window greatestBlock) limit rest

/-- Payloads are packed as frames. -/
instance : Compression where
  compress := encode
  decompress? := decode?

end Geofence.Container.Frame
