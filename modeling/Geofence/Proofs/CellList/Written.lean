/-
# Geofence.Proofs.CellList.Written -- cell lists that were written line by line

A cell and its value can be written in many ways (`Writes`): with blanks around
either number, zeros in front of it, the id as a signed or as an unsigned word,
and any line end; blank lines may stand anywhere.  However a list is written, it
is what is read, and a line that is refused in its place is named by its number
among all lines (`ofBytes_written`).
-/
import Geofence.Proofs.CellList.Line
import Geofence.Proofs.CellList.Text
import Geofence.Proofs.Text.Numeral

namespace Geofence.CellList

set_option autoImplicit false

open Text Text.Integer

variable {line : List Char} {o : Option Listed}

/-- The id as an unsigned or as a signed word. -/
def SignedOrNot (c : Cell) (id : Int) : Prop :=
  id = c ∨ Cell.wordCount / 2 ≤ c ∧ id = c - Cell.wordCount

/-- Ways to write a cell with its value, or nothing, in a line. -/
inductive Writes (line : List Char) : Option Listed → Prop
  | blank (one : OneLine line) (blanks : ∀ c ∈ line, isBlank c = true) : Writes line none
  | entry (x : Listed) (id : Int) (idWidth valueWidth : Nat) (a b c d : List Char)
      (cell_nonneg : 0 ≤ x.cell) (cell_lt : x.cell < Cell.wordCount)
      (value_nonneg : 0 ≤ x.value) (value_lt : x.value < Listed.valueCount)
      (id_eq : SignedOrNot x.cell id)
      (id_narrow : idWidth ≤ digitLimit) (value_narrow : valueWidth ≤ digitLimit)
      (spaces : ∀ e ∈ a ++ b ++ c ++ d, isSpace e = true) (one : OneLine (a ++ b ++ c ++ d))
      (line_eq : line = a ++ numeral 10 idWidth id ++ b ++
        ',' :: (c ++ numeral 10 valueWidth x.value ++ d)) : Writes line (some x)

/-- What is read from a line, whatever its number: nothing from a blank one. -/
def Reads (line : List Char) : Option Listed → Prop
  | none => isBlankLine line = true
  | some x => isBlankLine line = false ∧ ∀ number, Listed.ofLine number line = .ok x

theorem isBlankLine_iff : isBlankLine line = true ↔ ∀ c ∈ line, isBlank c = true := by
  rw [isBlankLine, List.isEmpty_iff, trim, trimBy, List.reverse_eq_nil_iff,
    List.dropWhile_eq_nil_iff]
  simp only [List.mem_reverse]
  constructor
  · intro none_left c member
    have in_parts : c ∈ line.takeWhile isBlank ++ line.dropWhile isBlank := by
      rwa [List.takeWhile_append_dropWhile]
    rcases List.mem_append.1 in_parts with taken | left
    · exact List.mem_takeWhile_imp taken
    · exact none_left c left
  · intro blanks c left
    exact blanks c (List.dropWhile_sublist _ |>.mem left)

theorem Reads.feed (reads : Reads line o) : Reads (line ++ ['\n']) o := by
  cases o with
  | none => rwa [Reads, isBlankLine, trim_append_feed]
  | some x =>
      obtain ⟨solid, read⟩ := reads
      refine ⟨by rwa [isBlankLine, trim_append_feed], fun number => ?_⟩
      exact Listed.ofLine_eq_ok_of_trim (trim_append_feed line) (read number) number

theorem SignedOrNot.bounds {c id : Int} (id_eq : SignedOrNot c id) (nonneg : 0 ≤ c)
    (small : c < Cell.wordCount) :
    -Cell.wordCount / 2 ≤ id ∧ id < Cell.wordCount ∧ id % Cell.wordCount = c := by
  have halves : -Cell.wordCount / 2 = -(Cell.wordCount / 2) := by decide
  rcases id_eq with rfl | ⟨upper, rfl⟩
  · exact ⟨by omega, small, Int.emod_eq_of_lt nonneg small⟩
  · refine ⟨by omega, by omega, ?_⟩
    rw [Int.sub_emod_right, Int.emod_eq_of_lt nonneg small]

theorem natAbs_lt_pow_digitLimit {n : Int} (lower : -Cell.wordCount / 2 ≤ n)
    (upper : n < Cell.wordCount) : n.natAbs < 10 ^ digitLimit := by
  have short : n.natAbs < 10 ^ 20 := by
    simp only [Cell.wordCount] at lower upper
    omega
  exact short.trans_le (Nat.pow_le_pow_right (by decide) (by norm_num [digitLimit]))

namespace Writes

theorem reads (writes : Writes line o) : Reads line o := by
  cases writes with
  | blank one blanks => exact isBlankLine_iff.2 blanks
  | entry x id _ _ a b c d cell_nonneg cell_lt value_nonneg value_lt id_eq id_narrow
      value_narrow spaces one line_eq =>
      obtain ⟨lower, upper, id_emod⟩ := id_eq.bounds cell_nonneg cell_lt
      have value_small : x.value < Cell.wordCount := value_lt.trans (by decide)
      obtain ⟨minus, ds, id_text, id_readable, id_spelled⟩ :=
        numeral_readable id_narrow (natAbs_lt_pow_digitLimit lower upper)
      obtain ⟨negative, es, value_text, value_readable, value_spelled⟩ :=
        numeral_readable value_narrow
          (natAbs_lt_pow_digitLimit (le_trans (by decide) value_nonneg) value_small)
      simp only [List.mem_append, or_imp, forall_and] at spaces
      obtain ⟨⟨⟨a_spaces, b_spaces⟩, c_spaces⟩, d_spaces⟩ := spaces
      rw [id_text, value_text] at line_eq
      refine ⟨?_, fun number => ?_⟩
      · rw [Bool.eq_false_iff, Ne, isBlankLine_iff]
        intro blanks
        exact absurd (blanks ',' (by rw [line_eq]; simp)) (by decide)
      · rw [Listed.ofLine_entry id_readable value_readable a_spaces b_spaces c_spaces d_spaces
          line_eq number, id_spelled, value_spelled,
          if_pos ⟨lower, upper, value_nonneg, value_lt⟩, id_emod]

theorem oneLine (writes : Writes line o) : OneLine line := by
  cases writes with
  | blank one blanks => exact one
  | entry x id idWidth valueWidth a b c d _ _ _ _ _ _ _ spaces one line_eq =>
      have numeral_inside (width : Nat) (n : Int) : OneLine (numeral 10 width n) :=
        oneLine_numeral (by decide) (by decide) width n
      rw [line_eq]
      intro e member
      simp only [List.mem_append, List.mem_cons] at member
      obtain ((in_a | in_id) | in_b) | rfl | (in_c | in_value) | in_d := member
      · exact one e (by simp [in_a])
      · exact numeral_inside _ _ e in_id
      · exact one e (by simp [in_b])
      · decide
      · exact one e (by simp [in_c])
      · exact numeral_inside _ _ e in_value
      · exact one e (by simp [in_d])

end Writes

/-! ## Reading -/

theorem ofBytes_text (s : List Char) : ofBytes (String.ofList s).toUTF8 = ofLines (lines s) := by
  have decoded : (String.ofList s).toUTF8.utf8Decode? = some s.toArray := by
    rw [String.toUTF8_eq_toByteArray, String.toByteArray_ofList, List.utf8Decode?_utf8Encode]
  simp only [ofBytes, Utf8.decode, decoded, Bool.false_eq_true, if_false]

/-- A line that is not blank. -/
def isSolid (line : List Char) : Bool :=
  !isBlankLine line

theorem map_fst_numbered (ls : List (List Char)) :
    (numbered ls).map Prod.fst = ls.filter isSolid := by
  have dropped : numbered ls = (ls.zipIdx 1).filter (isSolid ∘ Prod.fst) := rfl
  rw [dropped, ← List.filter_map, List.zipIdx_map_fst]

/-- The lines that are not blank are those that something is read from. -/
theorem forall₂_filter {ls : List (List Char)} {xs : List (Option Listed)}
    (reads : List.Forall₂ Reads ls xs) :
    List.Forall₂ (fun line x => ∀ number, Listed.ofLine number line = .ok x) (ls.filter isSolid)
      xs.reduceOption := by
  induction reads with
  | nil => exact .nil
  | @cons line o ls xs own others ih =>
      cases o with
      | none =>
          have blank : isBlankLine line = true := own
          rw [List.reduceOption_cons_of_none, List.filter_cons_of_neg (by simp [isSolid, blank])]
          exact ih
      | some x =>
          rw [List.reduceOption_cons_of_some, List.filter_cons_of_pos (by simp [isSolid, own.1])]
          exact .cons own.2 ih

theorem ofLines_eq_ok {ls : List (List Char)} {entries : List Listed}
    (reads : List.Forall₂ (fun line x => ∀ number, Listed.ofLine number line = .ok x)
      (ls.filter isSolid) entries) : ofLines ls = .ok entries := by
  rw [← map_fst_numbered, List.forall₂_map_left_iff] at reads
  exact Outcome.mapM_eq_ok_iff.2 (reads.imp fun _ _ read => read _)

/-- The first line that is refused is named with its number among all lines. -/
theorem ofLines_eq_error {front later : List (List Char)} {fault : Fault}
    (front_read : ∀ l ∈ front.filter isSolid, ∃ x, ∀ number, Listed.ofLine number l = .ok x)
    (solid : isSolid line = true)
    (refused : Listed.ofLine (front.length + 1 : Nat) line = .error fault) :
    ofLines (front ++ line :: later) = .error fault := by
  have split : numbered (front ++ line :: later) =
      numbered front ++ (line, front.length + 1) ::
        ((later.zipIdx (front.length + 1 + 1)).filter fun line => !isBlankLine line.1) := by
    rw [numbered, List.zipIdx_append, List.filter_append, List.zipIdx_cons, Nat.add_comm 1,
      List.filter_cons_of_pos (by exact solid)]
    rfl
  rw [ofLines, split]
  refine Outcome.mapM_append_cons ?_ refused
  rintro ⟨l, k⟩ member
  have member_front : l ∈ front.filter isSolid := by
    rw [← map_fst_numbered]
    exact List.mem_map_of_mem member
  obtain ⟨x, read⟩ := front_read l member_front
  exact ⟨x, read k⟩

/-! ## Sheets -/

variable {sheet : Sheet} {xs : List (Option Listed)}

theorem reads_of_writes (written : List.Forall₂ Writes sheet.rows xs) :
    List.Forall₂ Reads (sheet.ended.map (fun line => line.1 ++ ['\n']) ++ [sheet.last]) xs := by
  obtain ⟨ended, last⟩ := sheet
  induction ended generalizing xs with
  | nil =>
      cases written with
      | cons own none_left =>
          cases none_left
          exact .cons own.reads .nil
  | cons line ended ih =>
      cases written with
      | cons own others => exact .cons own.reads.feed (ih others)

theorem oneLine_of_writes (written : List.Forall₂ Writes sheet.rows xs) :
    ∀ row ∈ sheet.rows, OneLine row := by
  intro row member
  obtain ⟨i, inside, rfl⟩ := List.mem_iff_getElem.1 member
  exact (written.get inside (written.length_eq ▸ inside)).oneLine

theorem filter_lines (one : ∀ row ∈ sheet.rows, OneLine row) :
    (lines sheet.text).filter isSolid =
      (sheet.ended.map (fun line => line.1 ++ ['\n']) ++ [sheet.last]).filter isSolid :=
  sheet.filter_lines_text (by decide) (by decide) one

/-- The lines in front of any place are read, or blank. -/
theorem reads_before (written : List.Forall₂ Writes sheet.rows xs) (i : Nat) :
    ∀ l ∈ (lines (sheet.before i).text).filter isSolid,
      ∃ x, ∀ number, Listed.ofLine number l = .ok x := by
  have one_before : ∀ row ∈ (sheet.before i).rows, OneLine row := by
    intro row member
    rcases List.mem_append.1 member with front | last
    · obtain ⟨line, taken, rfl⟩ := List.mem_map.1 front
      exact oneLine_of_writes written _ (List.mem_append_left _
        (List.mem_map_of_mem (List.mem_of_mem_take taken)))
    · rw [List.mem_singleton.1 last]
      nofun
  intro l member
  rw [filter_lines one_before, List.mem_filter] at member
  obtain ⟨member, solid⟩ := member
  have written_line : l ∈ (sheet.ended.map (fun line => line.1 ++ ['\n']) ++ [sheet.last]).filter
      isSolid := by
    refine List.mem_filter.2 ⟨List.mem_append_left _ ?_, solid⟩
    rcases List.mem_append.1 member with front | last
    · obtain ⟨line, taken, rfl⟩ := List.mem_map.1 front
      exact List.mem_map_of_mem (List.mem_of_mem_take taken)
    · rw [List.mem_singleton.1 last] at solid
      exact absurd solid (show ¬isSolid [] = true by decide)
  obtain ⟨k, inside, rfl⟩ := List.mem_iff_getElem.1 written_line
  have related := forall₂_filter (reads_of_writes written)
  exact ⟨_, related.get inside (related.length_eq ▸ inside)⟩

/-- A list of cells with their values is read as it was written, whichever way that was.  When the
text of a line is replaced by one that is refused, the text is refused for that line, by its number
among all lines. -/
theorem ofBytes_written (written : List.Forall₂ Writes sheet.rows xs) :
    ofBytes (String.ofList sheet.text).toUTF8 = .ok xs.reduceOption ∧
    ∀ (i : Nat) (s : List Char), OneLine s → (∃ c ∈ s, isBlank c = false) →
      (∃ number fault, Listed.ofLine number s = .error fault) →
      ∃ line fault, (line = s ∨ line = s ++ ['\n']) ∧
        (lines (sheet.replace i s).text)[(lines (sheet.before i).text).length]? = some line ∧
        ofBytes (String.ofList (sheet.replace i s).text).toUTF8 = .error fault ∧
        fault.kind = .contract ∧
        (fault = .malformedLine ((lines (sheet.before i).text).length + 1 : Nat) line ∨
          fault = .lineOutside ((lines (sheet.before i).text).length + 1 : Nat) line) := by
  refine ⟨?_, ?_⟩
  · rw [ofBytes_text]
    refine ofLines_eq_ok ?_
    rw [filter_lines (oneLine_of_writes written)]
    exact forall₂_filter (reads_of_writes written)
  · rintro i s one ⟨c, member, solid⟩ ⟨number, refused⟩
    obtain ⟨line, later, lines_eq, line_eq⟩ :=
      sheet.lines_replace (i := i) one (List.ne_nil_of_mem member)
    have trim_eq : trim line = trim s := by
      rcases line_eq with rfl | rfl
      · rfl
      · exact trim_append_feed s
    have line_solid : isSolid line = true := by
      rw [isSolid, isBlankLine, trim_eq, ← isBlankLine, Bool.not_eq_true', Bool.eq_false_iff, Ne,
        isBlankLine_iff]
      exact fun blanks => Bool.false_ne_true (solid.symm.trans (blanks c member))
    obtain ⟨fault, refused_there, names⟩ := Listed.ofLine_refused trim_eq refused
      ((lines (sheet.before i).text).length + 1 : Nat)
    refine ⟨line, fault, line_eq, ?_, ?_, ?_, names⟩
    · rw [lines_eq, List.getElem?_append_right le_rfl, Nat.sub_self, List.getElem?_cons_zero]
    · rw [ofBytes_text, lines_eq]
      exact ofLines_eq_error (reads_before written i) line_solid refused_there
    · rcases names with rfl | rfl <;> rfl

/-- Two cells, the second in its signed form, and blank lines.  The carriage return behind the first
and the line feed behind the empty line are one line end. -/
def mixedSheet : Sheet where
  ended :=
    [(" 42 ,0007 ".toList, .carriageReturn), ([], .lineFeed), ("-1,5".toList, .returnFeed)]
  last := ['\t']

theorem writes_mixedSheet : List.Forall₂ Writes mixedSheet.rows
    [some { cell := 42, value := 7 }, none,
      some { cell := 18446744073709551615, value := 5 }, none] := by
  have narrow {width : Nat} (few : width ≤ 4) : width ≤ digitLimit :=
    few.trans (by norm_num [digitLimit])
  refine .cons ?first (.cons (.blank (by decide) nofun) (.cons ?second
    (.cons (.blank (by decide) (isBlankLine_iff.1 (by decide))) .nil)))
  case first =>
    exact .entry _ 42 1 4 [' '] [' '] [] [' '] (by decide) (by decide) (by decide) (by decide)
      (Or.inl rfl) (narrow (by decide)) (narrow (by decide)) (List.all_eq_true.1 (by decide))
      (by decide) (by decide)
  case second =>
    exact .entry _ (-1) 1 1 [] [] [] [] (by decide) (by decide) (by decide) (by decide)
      (Or.inr (by decide)) (narrow (by decide)) (narrow (by decide)) nofun (by decide) (by decide)

/-- The two cells are read, and a line without a comma in the place of the second is line 2. -/
theorem ofBytes_written_mixed :
    ofBytes (String.ofList mixedSheet.text).toUTF8 =
        .ok [{ cell := 42, value := 7 }, { cell := 18446744073709551615, value := 5 }] ∧
      ∃ fault, ofBytes (String.ofList (mixedSheet.replace 2 ['4', '2']).text).toUTF8 =
          .error fault ∧
        (fault = .malformedLine 2 ['4', '2', '\n'] ∨ fault = .lineOutside 2 ['4', '2', '\n']) := by
  obtain ⟨read, refused⟩ := ofBytes_written writes_mixedSheet
  obtain ⟨line, fault, -, place, refused, -, names⟩ :=
    refused 2 ['4', '2'] (by decide) ⟨'4', by decide, by decide⟩ ⟨0, _, by rfl⟩
  have line_eq : ['4', '2', '\n'] = line := Option.some.inj (place ▸ by decide)
  subst line_eq
  exact ⟨read, fault, refused, names⟩

end Geofence.CellList
