/-
# Geofence.Fault -- what can go wrong, by cause

Every refusal of the library is a cause with the numbers that a reader needs to
find the culprit; a range is blamed as a `Span`, the three integers that it was
handed over as.  `Fault.kind` sorts the causes by whom they blame: the caller,
the list of ranges or cells handed over, the stored bytes, or a file that is
sound but not the one expected.  `Fault.message` (in `Geofence.Fault.Message`)
holds the wording.

Prefixes, suffixes, lengths and words are counted in powers of two.  Inside this
library `x ^ n` is always the built-in power of `Nat` and `Int`, also where a
richer algebra is in scope, so that a definition and a theorem about it speak of
the same power.
-/

namespace Geofence

set_option autoImplicit false

attribute [scoped instance (high)] instPowNat

/-- The first cell of a range, the cell just past it, and the value it carries. -/
structure Span where
  start : Int
  stop : Int
  value : Int
  deriving DecidableEq, Repr, Inhabited

inductive Fault where
  -- cells
  | notWord (cell : Int)
  | noLevel (cell : Int)
  | invalidCell (cell : Int)
  | negativeShift
  -- formats
  | levelOutside (level : Int)
  | prefixTooNarrow (bits : Int)
  | suffixTooNarrow (bits : Int)
  | splitDisagrees (prefixBits suffixBits total level : Int)
  | noRoomForHeader
  | rowNotWholeBytes (bits : Int)
  | rowWithoutLength (bits : Int)
  | valueSizeOutside (size : Int)
  | negativeVersion (version : Int)
  | prefixTooWide (value : Int) (bits : Nat)
  | suffixTooWide (value : Int) (bits : Nat)
  | notSamePrefix (start stop : Int)
  | lengthOutside (length : Int) (longest : Nat)
  | noPreset (level : Int)
  -- ranges
  | levelsDiffer (span : Span)
  | startNotBelowStop (span : Span)
  | negativeValue (value : Int)
  -- header block
  | notHeaderBlock (type : Int)
  | headerSize (size : Nat)
  | headerFlag (flag : Nat)
  | headerFormat (cause : Fault)
  -- entry values
  | valueTooWide (value : Int) (size : Nat)
  | valueIndexOutside
  | valuesTruncated (size : Nat)
  | valuesUnexpected (count : Nat)
  | valuesSize (size count width : Nat)
  -- packed tables
  | rowSizeOutside (size : Int)
  | keyBitsOutside (bits : Int) (width : Int)
  | keyTooWide (key : Int) (bits : Nat)
  | rowValueTooWide (value : Int) (bits : Nat)
  | keyNotAscending (key : Int) (last : Nat)
  | tableTruncated (size : Nat)
  | tableLayout (cause : Fault)
  | tableSize (size rows width : Nat)
  | rowOutside (index : Int) (count : Nat)
  -- table blocks
  | emptyPayload (block : Int)
  | rowLayout (block : Int)
  | valueCount (block : Int) (rows values : Nat)
  | storedPrefix (block : Int) (found expected : Int)
  | rowOfEmptyTable (index : Int)
  | valueOfEmptyTable (index : Int)
  | cellOfOtherLevel (cell : Int) (level : Nat)
  | cellOfOtherPrefix (cell : Int) (prefixBits suffixBits : Nat) (expected : Int)
  | startTooWide (start longest : Nat)
  | zeroLength (index : Nat) (value : Int)
  | pastPrefix (cell : Int) (prefixBits suffixBits length : Nat)
  | rangeOfOtherPrefix (span : Span) (expected : Int)
  -- block containers
  | magicLength (magic : List UInt8)
  | containerWriterClosed
  | containerReaderClosed
  | tooShort (path : String)
  | wrongMagic (magic : List UInt8)
  | containerVersion (found : Nat) (expected : Int)
  | indexOutside (path : String)
  | indexOverlapped (path : String)
  | blockOutside (block : Int) (count : Nat)
  | undecodable (block : Int)
  | blockSize (block : Int) (size expected : Nat)
  -- writing range files
  | alreadyCreated
  | rangeOfOtherLevel (span : Span) (level : Nat)
  | prefixOutOfOrder (current found : Int) (span : Span)
  | leftOver (span : Span)
  | outOfOrder (later earlier : Span)
  | overlapping (earlier later : Span)
  -- reading range files
  | blockCount (found expected : Nat)
  | unexpectedNumber (field : String) (found : Nat) (expected : Int)
  | unexpectedFlag (field : String) (found expected : Bool)
  | lookupLevel (cell : Int) (found : Int) (expected : Nat)
  | prefixOutside (value : Int) (greatest : Nat)
  | rangeReaderClosed
  | notTableBlock (block : Int) (type : Int)
  -- cell lists
  | malformedLine (number : Int) (line : List Char)
  | lineOutside (number : Int) (line : List Char)
  | listedLevel (cell level : Int)
  | missingCell (cell : Int) (path : String)
  | wrongValue (cell found expected : Int)
  | unexpectedCell (cell : Int) (path : String)
  -- numerals, files and settings
  | notInteger (text : List Char)
  | tooManyDigits (count : Nat)
  | unknownLogLevel (name : String)
  | fieldOverflow
  | fileNotFound
  | notUtf8
  deriving DecidableEq, Repr, Inhabited

namespace Fault

/-- Whom a fault blames. -/
inductive Kind where
  /-- An argument outside the domain of the call. -/
  | argument
  /-- An index outside a sequence. -/
  | index
  /-- Ranges or cells that break the sorted, non-overlapping contract. -/
  | contract
  /-- Stored bytes that no writer leaves behind. -/
  | corrupt
  /-- A sound file that is not the one expected. -/
  | mismatch
  /-- A number that does not fit the field it is to be stored in. -/
  | overflow
  /-- A path at which there is no file. -/
  | missing
  /-- Bytes that are not UTF-8. -/
  | encoding
  deriving DecidableEq, Repr

def kind : Fault → Kind
  | rowOutside .. | rowOfEmptyTable .. | valueOfEmptyTable .. | valueIndexOutside
  | blockOutside .. => .index
  | prefixOutOfOrder .. | leftOver .. | outOfOrder .. | overlapping .. | malformedLine ..
  | lineOutside .. | listedLevel .. => .contract
  | notHeaderBlock .. | headerSize .. | headerFlag .. | headerFormat ..
  | valuesTruncated .. | valuesUnexpected .. | valuesSize ..
  | tableTruncated .. | tableLayout .. | tableSize ..
  | rowLayout .. | valueCount .. | storedPrefix ..
  | startTooWide .. | zeroLength .. | pastPrefix ..
  | tooShort .. | wrongMagic .. | indexOutside .. | indexOverlapped ..
  | undecodable .. | blockSize .. | blockCount .. | notTableBlock ..
  | missingCell .. | wrongValue .. | unexpectedCell .. => .corrupt
  | containerVersion .. | unexpectedNumber .. | unexpectedFlag .. => .mismatch
  | fieldOverflow => .overflow
  | fileNotFound => .missing
  | notUtf8 => .encoding
  | _ => .argument

end Fault

end Geofence
