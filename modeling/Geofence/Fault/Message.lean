/-
# Geofence.Fault.Message -- the wording of every fault

One sentence per cause.  Ids are named by their tokens, numbers are decimal, and
a text that was refused is quoted.
-/
import Geofence.CellRange
import Geofence.Format.Basic
import Geofence.Text.Quoted

namespace Geofence.Fault

set_option autoImplicit false

/-- A quoted text, cut after `width` characters. -/
def quotedUpTo (width : Nat) (s : List Char) : String :=
  String.ofList ((Text.quoted s).take width)

def quoted (s : List Char) : String :=
  String.ofList (Text.quoted s)

def quotedBytes (bytes : List UInt8) : String :=
  String.ofList (Text.quotedBytes bytes)

def message : Fault → String
  -- cells
  | notWord c => "cell_id=" ++ toString c ++ " is not a 64-bit cell id"
  | noLevel c => "cell_id=" ++ Cell.token c ++ " has no valid level"
  | invalidCell c =>
    "cell_id=" ++ toString c ++ " (" ++ Cell.token c ++ ") is not a valid cell id"
  | negativeShift => "negative shift count"
  -- formats
  | levelOutside level => "level=" ++ toString level ++ " must be in [1, 30]"
  | prefixTooNarrow bits => "prefix_bit_count=" ++ toString bits ++ " must be >= 3"
  | suffixTooNarrow bits => "suffix_bit_count=" ++ toString bits ++ " must be >= 1"
  | splitDisagrees p s total level =>
    "prefix_bit_count=" ++ toString p ++ " + suffix_bit_count=" ++ toString s
      ++ " must equal " ++ toString total ++ " for level=" ++ toString level
  | noRoomForHeader => "suffix_table_block_id_offset must leave room for the header block"
  | rowNotWholeBytes bits =>
    "table_entry_bit_count=" ++ toString bits ++ " must be a whole number of bytes <= 64 bits"
  | rowWithoutLength bits =>
    "table_entry_bit_count=" ++ toString bits ++ " leaves no bits for the range length"
  | valueSizeOutside size => "entry_value_size=" ++ toString size ++ " must be in [0, 4]"
  | negativeVersion version => "version=" ++ toString version ++ " must be >= 0"
  | prefixTooWide p bits =>
    "prefix=" ++ toString p ++ " (" ++ Text.binary 0 p ++ ") does not fit in "
      ++ toString bits ++ " bits"
  | suffixTooWide s bits =>
    "suffix=" ++ toString s ++ " (" ++ Text.binary 0 s ++ ") does not fit in "
      ++ toString bits ++ " bits"
  | notSamePrefix start stop =>
    "start=" ++ Cell.token start ++ " and end=" ++ Cell.token stop
      ++ " are not in the same prefix"
  | lengthOutside length longest =>
    "range_length=" ++ toString length ++ " must be in [1, " ++ toString longest ++ "]"
  | noPreset level => "No file format defined for level=" ++ toString level
  -- ranges
  | levelsDiffer span => "Levels differ: " ++ span.text
  | startNotBelowStop span => "start >= end: " ++ span.text
  | negativeValue value => "entry_value=" ++ toString value ++ " must be >= 0"
  -- header block
  | notHeaderBlock type => "Block 0 has type=" ++ toString type ++ ", expected a header block"
  | headerSize size => "Header block has " ++ toString size ++ " bytes"
  | headerFlag flag => "Header block has is_allowed_list=" ++ toString flag
  | headerFormat cause => "Header block describes an invalid format: " ++ cause.message
  -- entry values
  | valueTooWide value size =>
    "entry_value=" ++ toString value ++ " does not fit in " ++ toString size ++ " bytes"
  | valueIndexOutside => "tuple index out of range"
  | valuesTruncated size => "Shared data of " ++ toString size ++ " bytes is truncated"
  | valuesUnexpected count =>
    "Shared data holds " ++ toString count ++ " entry values but the format has none"
  | valuesSize size count width =>
    "Shared data of " ++ toString size ++ " bytes does not hold " ++ toString count
      ++ " values of " ++ toString width ++ " bytes"
  -- packed tables
  | rowSizeOutside size => "entry_size=" ++ toString size ++ " must be in [1, 8]"
  | keyBitsOutside bits width =>
    "key_bits=" ++ toString bits ++ " must leave room for a value in " ++ toString width
      ++ " bits"
  | keyTooWide key bits =>
    "key=" ++ toString key ++ " does not fit in " ++ toString bits ++ " bits"
  | rowValueTooWide value bits =>
    "value=" ++ toString value ++ " does not fit in " ++ toString bits ++ " bits"
  | keyNotAscending key last =>
    "key=" ++ toString key ++ " is not greater than the previous key=" ++ toString last
  | tableTruncated size => "Packed table of " ++ toString size ++ " bytes has no header"
  | tableLayout cause => cause.message
  | tableSize size rows width =>
    "Packed table size " ++ toString size ++ " does not match " ++ toString rows
      ++ " rows of " ++ toString width ++ " bytes"
  | rowOutside index count => "i=" ++ toString index ++ " not in [0, " ++ toString count ++ ")"
  -- table blocks
  | emptyPayload block => "block_id=" ++ toString block ++ " is zero length"
  | rowLayout block =>
    "block_id=" ++ toString block ++ " row layout does not match the file format"
  | valueCount block rows values =>
    "block_id=" ++ toString block ++ " has " ++ toString rows ++ " rows but "
      ++ toString values ++ " entry values"
  | storedPrefix block found expected =>
    "block_id=" ++ toString block ++ " holds prefix=" ++ toString found ++ ", expected "
      ++ toString expected
  | rowOfEmptyTable index => "i=" ++ toString index ++ ": empty table"
  | valueOfEmptyTable index => "index=" ++ toString index ++ ": empty table"
  | cellOfOtherLevel c level => Cell.token c ++ " level is not " ++ toString level
  | cellOfOtherPrefix c prefixBits suffixBits expected =>
    Cell.splitText c prefixBits suffixBits ++ " does not have prefix "
      ++ Text.binary prefixBits expected
  | startTooWide start longest =>
    "start suffix=" ++ toString start ++ " exceeds " ++ toString longest
  | zeroLength index value =>
    "Row " ++ toString index ++ " of prefix=" ++ toString value ++ " has zero length"
  | pastPrefix c prefixBits suffixBits length =>
    "Range exceeds allowable cell ids: start=" ++ Cell.splitText c prefixBits suffixBits
      ++ ", range_length=" ++ toString length
  | rangeOfOtherPrefix span expected =>
    span.text ++ " does not start in prefix=" ++ toString expected
  -- block containers
  | magicLength magic => "magic=" ++ quotedBytes magic ++ " must be 4 bytes"
  | containerWriterClosed => "BlockFileWriter is closed"
  | containerReaderClosed => "BlockFileReader is closed"
  | tooShort path => path ++ " is too short to be a block file"
  | wrongMagic magic => "Invalid block file: magic=" ++ quotedBytes magic
  | containerVersion found expected =>
    "Unsupported block file version=" ++ toString found ++ ", expected " ++ toString expected
  | indexOutside path => "Block index of " ++ path ++ " is out of bounds"
  | indexOverlapped path => "Block data of " ++ path ++ " overlaps the block index"
  | blockOutside block count =>
    "block_id=" ++ toString block ++ " not in [0, " ++ toString count ++ ")"
  | undecodable block => "block_id=" ++ toString block ++ " payload does not decompress"
  | blockSize block size expected =>
    "block_id=" ++ toString block ++ " has size " ++ toString size ++ ", expected "
      ++ toString expected
  -- writing range files
  | alreadyCreated => "Suffix blocks have already been created"
  | rangeOfOtherLevel span level => span.text ++ " does not have level=" ++ toString level
  | prefixOutOfOrder current found span =>
    "Prefix out of order: current_prefix=" ++ toString current ++ ", start_cell_prefix="
      ++ toString found ++ ", range=" ++ span.text
  | leftOver span => "Unexpected ranges left at the end: " ++ span.text
  | outOfOrder later earlier => later.text ++ " is out of order after " ++ earlier.text
  | overlapping earlier later => earlier.text ++ " overlaps " ++ later.text
  -- reading range files
  | blockCount found expected =>
    "File has " ++ toString found ++ " blocks, expected " ++ toString expected
  | unexpectedNumber field found expected =>
    field ++ "=" ++ toString found ++ " does not match expected " ++ toString expected
  | unexpectedFlag field found expected =>
    field ++ "=" ++ Text.flag found ++ " does not match expected " ++ Text.flag expected
  | lookupLevel c found expected =>
    "cell_id=" ++ Cell.token c ++ " has level=" ++ toString found ++ ", expected "
      ++ toString expected
  | prefixOutside p greatest =>
    "prefix=" ++ toString p ++ " not in [0, " ++ toString greatest ++ "]"
  | rangeReaderClosed => "S2RangeFileReader is closed"
  | notTableBlock block type =>
    "block_id=" ++ toString block ++ " has type=" ++ toString type
      ++ ", expected a suffix table"
  -- cell lists
  | malformedLine number line =>
    "Invalid cell line " ++ toString number ++ ": " ++ quoted line
  | lineOutside number line =>
    "Value out of range on line " ++ toString number ++ ": " ++ quoted line
  | listedLevel c level =>
    "Bad level for cell " ++ Cell.token c ++ ", must be " ++ toString level
  | missingCell c path => "cell " ++ Cell.token c ++ " is missing from " ++ path
  | wrongValue c found expected =>
    "cell " ++ Cell.token c ++ " has entry value " ++ toString found ++ ", expected "
      ++ toString expected
  | unexpectedCell c path =>
    "cell " ++ Cell.token c ++ " is unexpectedly present in " ++ path
  -- numerals, files and settings
  | notInteger text => "invalid literal for int() with base 0: " ++ quotedUpTo 200 text
  | tooManyDigits count =>
    "Exceeds the limit (4300 digits) for integer string conversion: value has "
      ++ toString count ++ " digits; use sys.set_int_max_str_digits() to increase the limit"
  | unknownLogLevel name => "Unknown level: " ++ quoted name.toList
  | fieldOverflow => "a number does not fit its field"
  | fileNotFound => "no such file"
  | notUtf8 => "the file is not UTF-8"

end Geofence.Fault
