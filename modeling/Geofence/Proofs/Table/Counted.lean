/-
# Geofence.Proofs.Table.Counted -- a value for every row

A stored table says twice how many rows it has: in its header, and as the number
of values that the rows share.  Where a format has values a table is read only if
the two numbers agree, and then every row has the value that is stored at its
place; tables with more values than rows, or fewer, are corrupt.

There is one exception.  A table that stores no value at all is taken for one of
a format without values, however many rows it has (`Valueless`).  Such a table is
read, and its rows have the value 0, which is stored nowhere.  `counted_iff` says
that this is the only way for the two numbers to differ, and `valueless_read`
shows such a table.
-/
import Geofence.Proofs.Table.Block
import Geofence.Proofs.Table.Loaded

namespace Geofence

set_option autoImplicit false

namespace SharedData

variable {f : Format} {d : SharedData} {data : List UInt8} {i : Nat}

def valueBytes (f : Format) (data : List UInt8) (i : Nat) : List UInt8 :=
  (data.drop (8 + i * f.valueSize)).take f.valueSize

theorem getElem?_readValues {count : Nat} (size : Nat) (bytes : List UInt8) (inside : i < count) :
    (readValues size count bytes #[])[i]? =
      some (Bytes.ofBigEndian ((bytes.drop (i * size)).take size) : Int) := by
  induction count generalizing bytes i with
  | zero => contradiction
  | succ count ih =>
      rw [readValues, readValues_eq_append]
      cases i with
      | zero => simp
      | succ i =>
          have later := ih (bytes.drop size) (Nat.lt_of_succ_lt_succ inside)
          rw [List.drop_drop, Nat.add_comm size, ← Nat.succ_mul] at later
          rw [Array.getElem?_append_right (by simp)]
          simpa using later

/-- Where there are values, the value of a row is the one that is stored at its place. -/
theorem ReadFrom.value_eq (read : ReadFrom f data d) (inside : i < d.values.size) :
    d.value i = .ok (Bytes.ofBigEndian (valueBytes f data i)) := by
  have stored := getElem?_readValues f.valueSize (data.drop 8) inside
  rw [← read.values_eq, Array.getElem?_eq_getElem inside, Option.some.injEq, List.drop_drop]
    at stored
  have some_values : ¬d.values.isEmpty = true := by
    simpa using (Nat.zero_lt_of_lt inside).ne'
  have forward : ¬(i : Int) < 0 := by omega
  have within : (0 : Int) ≤ i ∧ (i : Int) < d.values.size := by omega
  rw [value, if_neg some_values]
  simp only [if_neg forward]
  rw [dif_pos within]
  exact congrArg Except.ok stored

theorem value_of_no_values (without : d.values.size = 0) (i : Int) : d.value i = .ok 0 := by
  rw [value, if_pos (by simpa using without)]

/-- A prefix and the number 0 are shared data, whatever the format. -/
theorem decode_of_no_values {tablePrefix : List UInt8} (width : tablePrefix.length = 4)
    (f : Format) : decode f (tablePrefix ++ [0, 0, 0, 0]) =
      .ok { tablePrefix := Bytes.ofBigEndian tablePrefix, values := #[] } := by
  have count : Bytes.ofBigEndian [0, 0, 0, 0] = 0 := by decide
  unfold decode
  simp only [List.take_left' width, List.drop_left' width, List.length_append, width]
  simp [count, readValues]

end SharedData

namespace Block

variable {f : Format} {id : Int} {payload : List UInt8} {table : PackedTable} {shared : SharedData}
  {b : Block}

/-- A table with rows whose shared bytes are a prefix and the number 0. -/
def Valueless (f : Format) (payload : List UInt8) : Prop :=
  ∃ table tablePrefix, PackedTable.decode payload = .ok table ∧
    (table.layout.keyBits = f.suffixBits ∧ table.layout.rowSize = f.rowSize) ∧
    0 < table.rows.size ∧ tablePrefix.length = 4 ∧ table.shared = tablePrefix ++ [0, 0, 0, 0]

namespace PartsOf

theorem payload_ne_nil (parts : PartsOf f payload table shared) : payload.isEmpty = false := by
  have long := (PackedTable.readFrom_of_decode parts.table_read).length_eq
  rw [List.isEmpty_eq_false_iff, ← List.length_pos_iff, long, PackedTable.headerSize]
  omega

/-- Rows and values are read when there are as many values as rows, or none. -/
theorem decode_eq (parts : PartsOf f payload table shared)
    (counted : shared.values.size = 0 ∨ shared.values.size = table.rows.size) (id : Int) :
    decode f id payload = .ok (.populated table shared) := by
  have layout := parts.layout_eq
  rw [decode, if_neg (by simp [parts.payload_ne_nil]), parts.table_read, Outcome.ok_bind,
    if_neg (by omega)]
  change (SharedData.decode f table.shared >>= _) = _
  rw [parts.shared_read, Outcome.ok_bind, if_neg (by omega)]
  rfl

/-- No value is read just when the number of values is stored as 0, with nothing behind it. -/
theorem valueless_iff (parts : PartsOf f payload table shared) :
    Valueless f payload ↔ shared.values.size = 0 ∧ 0 < table.rows.size := by
  constructor
  · rintro ⟨other, tablePrefix, other_read, -, some_rows, width, shared_eq⟩
    rw [parts.table_read] at other_read
    obtain rfl := Except.ok.inj other_read
    have read := parts.shared_read
    rw [shared_eq, SharedData.decode_of_no_values width] at read
    obtain rfl := Except.ok.inj read
    exact ⟨rfl, some_rows⟩
  · rintro ⟨without, some_rows⟩
    have read := SharedData.readFrom_of_decode parts.shared_read
    have long := read.length_eq
    have count_eq := read.count_eq
    rw [without, Nat.zero_mul] at long
    rw [without] at count_eq
    have back : (table.shared.drop 4).take 4 = table.shared.drop 4 :=
      List.take_of_length_le (by rw [List.length_drop]; omega)
    have stored := Bytes.bigField_of_read 4 (by omega) count_eq
    rw [back, show Bytes.bigField 4 ((0 : Nat) : Int) = .ok [0, 0, 0, 0] by decide] at stored
    refine ⟨table, table.shared.take 4, parts.table_read, parts.layout_eq, some_rows, ?_, ?_⟩
    · rw [List.length_take]
      omega
    · rw [Except.ok.inj stored, List.take_append_drop]

end PartsOf

theorem Valueless.exists_parts (valueless : Valueless f payload) :
    ∃ table shared, PartsOf f payload table shared := by
  obtain ⟨table, tablePrefix, table_read, layout_eq, -, width, shared_eq⟩ := valueless
  exact ⟨table, _, table_read, layout_eq, shared_eq ▸ SharedData.decode_of_no_values width f⟩

/-- What is read has as many values as rows, unless it has rows and no value. -/
theorem valueCount_eq_iff (decoded : decode f id payload = .ok b) :
    b.valueCount = b.rows.size ↔ ¬Valueless f payload := by
  obtain ⟨table, shared, parts, rfl, counted⟩ := parts_of_decode decoded
  rw [parts.valueless_iff, valueCount, rows]
  omega

/-- What is read is a table of the format, and has as many values as rows or no value. -/
theorem exists_decode_iff (id : Int) : (∃ b, decode f id payload = .ok b) ↔
    ∃ table shared, PartsOf f payload table shared ∧
      (shared.values.size = table.rows.size ∨ Valueless f payload) := by
  constructor
  · rintro ⟨b, decoded⟩
    obtain ⟨table, shared, parts, rfl, counted⟩ := parts_of_decode decoded
    refine ⟨table, shared, parts, ?_⟩
    rw [parts.valueless_iff]
    omega
  · rintro ⟨table, shared, parts, counted⟩
    rw [parts.valueless_iff] at counted
    exact ⟨_, parts.decode_eq (by omega) id⟩

/-- Bytes that are read as a table have as many values as rows, unless they are a table with rows and
no value.  Where the numbers agree, every row has the value that is stored at its place; a table
without values is read whatever the format is, and its rows have the value 0.  All other bytes are
corrupt: those that are no table or no shared data of the format, and those with another number of
values. -/
theorem counted_iff (some_bytes : payload ≠ []) (f : Format) (id : Int) :
    ((∀ b, decode f id payload = .ok b → b.valueCount = b.rows.size) ↔ ¬Valueless f payload) ∧
    (∀ b, decode f id payload = .ok b → b.valueCount = b.rows.size →
      ∃ table shared, b = .populated table shared ∧ ∀ i < b.rows.size,
        b.value i = .ok (Bytes.ofBigEndian (SharedData.valueBytes f table.shared i))) ∧
    (Valueless f payload → ∀ b, decode f id payload = .ok b →
      b.valueCount = 0 ∧ 0 < b.rows.size ∧ ∀ i < b.rows.size, b.value i = .ok 0) ∧
    ((∃ b, decode f id payload = .ok b) ↔ ∃ table shared, PartsOf f payload table shared ∧
      (shared.values.size = table.rows.size ∨ Valueless f payload)) ∧
    ∀ fault, decode f id payload = .error fault → fault.kind = .corrupt := by
  refine ⟨⟨?_, ?_⟩, ?_, ?_, exists_decode_iff id, blames_decode (by simpa using some_bytes)⟩
  · intro counted valueless
    obtain ⟨table, shared, parts⟩ := valueless.exists_parts
    obtain ⟨b, decoded⟩ := (exists_decode_iff id).2 ⟨table, shared, parts, Or.inr valueless⟩
    exact (valueCount_eq_iff decoded).1 (counted b decoded) valueless
  · intro not_valueless b decoded
    exact (valueCount_eq_iff decoded).2 not_valueless
  · intro b decoded counted
    obtain ⟨table, shared, parts, rfl, -⟩ := parts_of_decode decoded
    refine ⟨table, shared, rfl, fun i inside => ?_⟩
    exact (SharedData.readFrom_of_decode parts.shared_read).value_eq (inside.trans_eq counted.symm)
  · intro valueless b decoded
    obtain ⟨table, shared, parts, rfl, -⟩ := parts_of_decode decoded
    obtain ⟨without, some_rows⟩ := parts.valueless_iff.1 valueless
    exact ⟨without, some_rows, fun i _ => SharedData.value_of_no_values without i⟩

/-- A table of one row with the value 258. -/
def oneValue : List UInt8 :=
  [1, 4, 0, 0, 0, 0, 0, 10, 0, 0, 0, 1, 0, 0, 0, 0, 0, 0, 0, 1, 1, 2, 0x53]

def noValue : List UInt8 :=
  [1, 4, 0, 0, 0, 0, 0, 8, 0, 0, 0, 1, 0, 0, 0, 0, 0, 0, 0, 0, 0x53]

def noValueTable : PackedTable where
  layout := SharedData.twoBytes.rowLayout
  shared := [0, 0, 0, 0, 0, 0, 0, 0]
  rows := #[⟨5, 3⟩]

theorem valueless_noValue : Valueless SharedData.twoBytes noValue :=
  ⟨noValueTable, [0, 0, 0, 0], by decide +kernel, by decide, by decide, rfl, rfl⟩

/-- The value of a row is read where it is stored, and 0 is read where none is. -/
theorem counted_iff_twoBytes :
    (∃ b, decode SharedData.twoBytes 7 oneValue = .ok b ∧ b.valueCount = b.rows.size ∧
      b.value 0 = .ok 258) ∧
    Valueless SharedData.twoBytes noValue ∧
    ∃ b, decode SharedData.twoBytes 7 noValue = .ok b ∧ b.value 0 = .ok 0 := by
  have some_bytes : oneValue ≠ [] ∧ noValue ≠ [] := by decide
  obtain ⟨-, stored, -⟩ := counted_iff some_bytes.1 SharedData.twoBytes 7
  obtain ⟨-, -, unstored, accepted, -⟩ := counted_iff some_bytes.2 SharedData.twoBytes 7
  refine ⟨?_, valueless_noValue, ?_⟩
  · have decoded : decode SharedData.twoBytes 7 oneValue = .ok (.populated
        { layout := SharedData.twoBytes.rowLayout, shared := [0, 0, 0, 0, 0, 0, 0, 1, 1, 2]
          rows := #[⟨5, 3⟩] }
        { tablePrefix := 0, values := #[258] }) := by decide +kernel
    obtain ⟨table, shared, parts_eq, value_eq⟩ := stored _ decoded rfl
    obtain ⟨rfl, rfl⟩ := Block.populated.inj parts_eq
    exact ⟨_, decoded, rfl, (value_eq 0 (by decide)).trans (by decide)⟩
  · obtain ⟨table, shared, parts⟩ := valueless_noValue.exists_parts
    obtain ⟨b, decoded⟩ := accepted.2 ⟨table, shared, parts, Or.inr valueless_noValue⟩
    obtain ⟨-, some_rows, values_eq⟩ := unstored valueless_noValue b decoded
    exact ⟨b, decoded, values_eq 0 some_rows⟩

/-- A table of a format with values is read although it has a row and no value. -/
theorem valueless_read : 0 < SharedData.twoBytes.valueSize ∧
    ∃ b, decode SharedData.twoBytes 7 noValue = .ok b ∧ b.valueCount ≠ b.rows.size ∧
      b.value 0 = .ok 0 :=
  ⟨by decide, .populated noValueTable { tablePrefix := 0, values := #[] }, by decide +kernel,
    by decide, rfl⟩

end Block

end Geofence
