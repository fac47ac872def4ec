/-
# Geofence.Proofs.RangeFile.Page -- the lines of a page

Nothing that is printed in a line has a line end in it, so a page is read back in
the lines it was printed in.  The lines that begin with `Entry[` are those of the
ranges of a table, in order, each with the index of its row, the tokens of its two
cells and its value (`entryLines_tablePage`).  The page of the header has none
(`entryLines_headerPage`).
-/
import Geofence.Proofs.Text.Numeral
import Geofence.RangeFile.Access

namespace Geofence

set_option autoImplicit false

open Text

/-! ## Printed ranges -/

theorem oneLine_natCast (n : Nat) : OneLine (toString n).toList := by
  have one : OneLine (numeral 10 0 n) := oneLine_numeral (by decide) (by decide) 0 n
  rw [numeral, if_neg (by omega), zeroPad, Nat.zero_sub, List.replicate_zero,
    List.nil_append] at one
  rw [Nat.toString_eq_repr, Nat.toList_repr]
  exact one

theorem oneLine_int (n : Int) : OneLine (toString n).toList := by
  rw [Int.toString_eq_repr, Int.repr_eq_if]
  split
  · rw [← Nat.toString_eq_repr]
    exact oneLine_natCast _
  · rw [← Nat.toString_eq_repr, String.toList_append]
    exact oneLine_append.2 ⟨by decide, oneLine_natCast _⟩

theorem Cell.oneLine_token (c : Cell) : OneLine (token c).toList := by
  rw [token, String.toList_ofList, tokenChars]
  split
  · decide
  · intro e member
    rw [List.mem_reverse] at member
    exact oneLine_numeral (by decide) le_rfl 16 c e
      (List.mem_reverse.1 ((List.dropWhile_sublist _).mem member))

theorem CellRange.oneLine_text (q : CellRange) : OneLine q.text.toList := by
  have labels : OneLine "SuffixTableRange(start=".toList ∧ OneLine ", end=".toList ∧
      OneLine ", entry_value=".toList ∧ OneLine ")".toList := by simp [OneLine]
  obtain ⟨start, stop, value, last⟩ := labels
  unfold CellRange.text Span.text
  simp only [String.toList_append, oneLine_append]
  exact ⟨⟨⟨⟨⟨⟨start, Cell.oneLine_token _⟩, stop⟩, Cell.oneLine_token _⟩, value⟩, oneLine_int _⟩,
    last⟩

namespace RangeFile.Dump

variable {f : Format} {b : Block}

/-- The lines of a text that print ranges. -/
def entryLines (text : String) : List (List Char) :=
  (lines text.toList).filter ("Entry[".toList.isPrefixOf ·)

/-- The lines that say ranges, spelled out: the index, counted from 0, the tokens of the first cell
and of the cell just past, and the value. -/
def rowLines (found : List CellRange) : List (List Char) :=
  found.zipIdx.map fun (q, i) =>
    ("Entry[" ++ toString i ++ "]=SuffixTableRange(start=" ++ Cell.token q.start ++ ", end=" ++
      Cell.token q.stop ++ ", entry_value=" ++ toString q.value ++ ")\n").toList

/-- They are what a page prints. -/
theorem rowLines_eq (found : List CellRange) :
    rowLines found = found.zipIdx.map fun (q, i) => (rowLine i q).toList := by
  unfold rowLines rowLine CellRange.text Span.text
  simp only [String.toList_append, List.append_assoc]
  rfl

theorem entryLines_of_rows {text : String} {rows : List (List Char)}
    (text_eq : text.toList = rows.flatMap (· ++ ['\n'])) (one : ∀ row ∈ rows, OneLine row) :
    entryLines text = (rows.map (· ++ ['\n'])).filter ("Entry[".toList.isPrefixOf ·) := by
  rw [entryLines, text_eq, lines_flatMap_feed one]

/-- The lines of the header, without their ends. -/
def headerRows (f : Format) : List (List Char) :=
  ["level=".toList ++ (toString f.level).toList,
   "prefix_bit_count=".toList ++ (toString f.prefixBits).toList,
   "suffix_bit_count=".toList ++ (toString f.suffixBits).toList,
   "suffix_table_block_id_offset=".toList ++ (toString f.firstTable).toList,
   "table_entry_bit_count=".toList ++ (toString f.rowBits).toList,
   "is_allowed_list=".toList ++ (flag f.isAllowedList).toList,
   "entry_value_size=".toList ++ (toString f.valueSize).toList,
   "version=".toList ++ (toString f.version).toList]

theorem oneLine_flag (b : Bool) : OneLine (flag b).toList := by
  cases b <;> simp [flag, OneLine]

theorem oneLine_headerRows (f : Format) : ∀ row ∈ headerRows f, OneLine row := by
  unfold headerRows
  simp only [List.forall_mem_cons, oneLine_append, oneLine_natCast, oneLine_flag, and_true]
  simp [OneLine]

theorem entryLines_headerPage (f : Format) : entryLines (headerPage f).text = [] := by
  have text_eq : (headerPage f).text.toList = (headerRows f).flatMap (· ++ ['\n']) := by
    simp [headerPage, headerRows, String.toList_append]
  rw [entryLines_of_rows text_eq (oneLine_headerRows f), List.filter_eq_nil_iff]
  simp [headerRows]

def entryRow (i : Nat) (q : CellRange) : List Char :=
  "Entry[".toList ++ (toString i).toList ++ "]=".toList ++ q.text.toList

def tableRows (f : Format) (b : Block) (found : List CellRange) : List (List Char) :=
  ["Prefix value=".toList ++ (binary f.prefixBits b.tablePrefix).toList ++ " (".toList ++
      (hex (hexWidth f) b.tablePrefix).toList ++ ")".toList,
   "Entry count=".toList ++ (toString b.rows.size).toList] ++
  (found.zipIdx.map fun (q, i) => entryRow i q) ++
  ["Entry value count=".toList ++ (toString b.valueCount).toList]

theorem oneLine_hex (width : Nat) (n : Int) : OneLine (hex width n).toList := by
  rw [hex, String.toList_ofList]
  exact oneLine_numeral (by decide) le_rfl width n

theorem oneLine_binary (width : Nat) (n : Int) : OneLine (binary width n).toList := by
  rw [binary, String.toList_ofList]
  exact oneLine_numeral (by decide) (by decide) width n

theorem oneLine_entryRow (i : Nat) (q : CellRange) : OneLine (entryRow i q) := by
  unfold entryRow
  simp only [oneLine_append, oneLine_natCast, q.oneLine_text, and_true]
  simp [OneLine]

theorem oneLine_tableRows (f : Format) (b : Block) (found : List CellRange) :
    ∀ row ∈ tableRows f b found, OneLine row := by
  unfold tableRows
  simp only [List.forall_mem_append, List.forall_mem_cons, oneLine_append, oneLine_natCast,
    oneLine_hex, oneLine_binary, and_true]
  refine ⟨⟨by simp [OneLine], ?_⟩, by simp [OneLine]⟩
  intro row member
  obtain ⟨⟨q, i⟩, -, rfl⟩ := List.mem_map.1 member
  exact oneLine_entryRow i q

theorem toList_rowLine (i : Nat) (q : CellRange) :
    (rowLine i q).toList = entryRow i q ++ ['\n'] := by
  have feed : "\n".toList = ['\n'] := rfl
  unfold rowLine entryRow
  simp only [String.toList_append, feed]

variable {found : List CellRange}

theorem toList_tablePage (walked : Reader.walkRows f b none 0 b.rows.toList #[] =
    { ranges := found.toArray, fault := none }) :
    (tablePage f b).1.text.toList = (tableRows f b found).flatMap (· ++ ['\n']) := by
  unfold tablePage
  dsimp only
  rw [walked]
  simp [tableRows, String.toList_append, String.toList_join, List.flatMap_map, toList_rowLine]

/-- The page of a table prints its ranges in order, and tells nothing else so. -/
theorem entryLines_tablePage (walked : Reader.walkRows f b none 0 b.rows.toList #[] =
    { ranges := found.toArray, fault := none }) :
    entryLines (tablePage f b).1.text = rowLines found := by
  rw [entryLines_of_rows (toList_tablePage walked) (oneLine_tableRows f b found)]
  have rows_eq : rowLines found =
      (found.zipIdx.map fun x => entryRow x.2 x.1).map (· ++ ['\n']) := by
    rw [rowLines_eq, List.map_map]
    exact List.map_congr_left fun x _ => toList_rowLine x.2 x.1
  have kept : ∀ line ∈ rowLines found, "Entry[".toList.isPrefixOf line = true := by
    intro line member
    rw [rowLines_eq] at member
    obtain ⟨⟨q, i⟩, -, rfl⟩ := List.mem_map.1 member
    refine List.isPrefixOf_iff_prefix.2 ?_
    simp only [toList_rowLine]
    unfold entryRow
    simp only [List.append_assoc]
    exact List.prefix_append _ _
  rw [tableRows, List.map_append, List.map_append, List.filter_append, List.filter_append,
    ← rows_eq, List.filter_eq_self.2 kept]
  simp

end RangeFile.Dump

end Geofence
