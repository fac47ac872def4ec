/-
# Geofence.Proofs.CellList.Line -- what a line of a cell list says

Two integers with a comma between them, and blanks around them, are the id and the
value of a cell where they have room (`Listed.ofLine_entry`).  A line is read
without the blanks at its ends, so its line end makes no difference to what is
read; a line that is refused is named in the fault with its number
(`Listed.ofLine_refused`).
-/
import Geofence.CellList.Text
import Geofence.Proofs.Text.Integer

namespace Geofence

set_option autoImplicit false

namespace Text

theorem trimBy_append_singleton {p : Char → Bool} {c : Char} (taken : p c = true) (s : List Char) :
    trimBy p (s ++ [c]) = trimBy p s := by
  unfold trimBy
  rw [List.dropWhile_append]
  split
  · rename_i none_left
    rw [List.isEmpty_iff] at none_left
    rw [none_left, List.dropWhile_cons_of_pos taken]
    rfl
  · rw [List.reverse_append, List.reverse_singleton, List.singleton_append,
      List.dropWhile_cons_of_pos taken]

theorem trim_append_feed (s : List Char) : trim (s ++ ['\n']) = trim s :=
  trimBy_append_singleton (by decide) s

theorem splitOn_pair {left right : List Char} (left_plain : ',' ∉ left)
    (right_plain : ',' ∉ right) : (left ++ ',' :: right).splitOn ',' = [left, right] := by
  have plain : ∀ part ∈ [left, right], ',' ∉ part := by simpa using ⟨left_plain, right_plain⟩
  have split := List.splitOn_intercalate ',' plain (List.cons_ne_nil _ _)
  rwa [show [','].intercalate [left, right] = left ++ ',' :: right by simp [List.intercalate]]
    at split

theorem isBlank_of_isSpace {c : Char} (space : isSpace c = true) : isBlank c = true := by
  rcases Bool.or_eq_true_iff.1 space with ascii | wide
  · simp only [isBlank, ascii, Bool.true_or]
  · simp only [isBlank, wide, Bool.or_true]

/-- What surrounds two solid texts with a comma between them is trimmed, and nothing else. -/
theorem trim_pair {a x b c y d : List Char} (a_spaces : ∀ e ∈ a, isSpace e = true)
    (d_spaces : ∀ e ∈ d, isSpace e = true) (x_solid : ∀ e ∈ x, isBlank e = false)
    (y_solid : ∀ e ∈ y, isBlank e = false) (some_x : x ≠ []) (some_y : y ≠ []) :
    trim (a ++ x ++ b ++ ',' :: (c ++ y ++ d)) = x ++ b ++ ',' :: (c ++ y) := by
  have last : (x ++ b ++ ',' :: (c ++ y)).getLast? = y.getLast? := by
    have grouped : x ++ b ++ ',' :: (c ++ y) = x ++ b ++ ',' :: c ++ y := by simp
    rw [grouped, List.getLast?_append_of_ne_nil _ some_y]
  have first : (x ++ b ++ ',' :: (c ++ y)).head? = x.head? := by
    rw [List.append_assoc, List.head?_append_of_ne_nil _ some_x]
  have grouped : a ++ x ++ b ++ ',' :: (c ++ y ++ d) = a ++ (x ++ b ++ ',' :: (c ++ y)) ++ d := by
    simp
  rw [grouped]
  refine trimBy_surrounded (fun e member => isBlank_of_isSpace (a_spaces e member))
    (fun e member => isBlank_of_isSpace (d_spaces e member)) ?_ ?_
  · rw [first]
    exact fun e member => x_solid e (List.mem_of_mem_head? member)
  · rw [last]
    exact fun e member => y_solid e (List.mem_of_mem_getLast? member)

namespace Integer

variable {minus : Bool} {ds : List Char}

theorem solid_signed (readable : Readable ds) {c : Char} (member : c ∈ signed minus ds) :
    isBlank c = false ∧ c ≠ ',' := by
  rcases mem_signed member with rfl | digit
  · decide
  · have bounds := toNat_of_isDigit (readable.digits c digit)
    refine ⟨?_, ?_⟩
    · simp only [isBlank, not_isAsciiBlank_of_isDigit (readable.digits c digit), isWideBlank,
        Bool.or_eq_false_iff, Bool.and_eq_false_iff, decide_eq_false_iff_not,
        beq_eq_false_iff_ne, true_and]
      omega
    · rintro rfl
      exact absurd bounds (by decide)

theorem signed_ne_nil (readable : Readable ds) : signed minus ds ≠ [] := by
  cases minus with
  | true => exact List.cons_ne_nil _ _
  | false => exact readable.some_digits

end Integer

end Text

namespace Listed

open Text Text.Integer

variable {number other : Int} {line a b c d ds es : List Char} {minus negative : Bool}

/-- What a line says that holds two integers with a comma between them and blanks around them. -/
theorem ofLine_entry (id_read : Readable ds) (value_read : Readable es)
    (a_spaces : ∀ e ∈ a, isSpace e = true) (b_spaces : ∀ e ∈ b, isSpace e = true)
    (c_spaces : ∀ e ∈ c, isSpace e = true) (d_spaces : ∀ e ∈ d, isSpace e = true)
    (line_eq : line = a ++ signed minus ds ++ b ++ ',' :: (c ++ signed negative es ++ d))
    (number : Int) :
    ofLine number line =
      if -Cell.wordCount / 2 ≤ spelled minus ds ∧ spelled minus ds < Cell.wordCount ∧
          0 ≤ spelled negative es ∧ spelled negative es < valueCount then
        .ok { cell := spelled minus ds % Cell.wordCount, value := spelled negative es }
      else .error (.lineOutside number line) := by
  have no_comma {e : Char} (space : isSpace e = true) : e ≠ ',' := by
    rintro rfl
    exact absurd space (by decide)
  have left_plain : ',' ∉ signed minus ds ++ b := by
    intro member
    rcases List.mem_append.1 member with in_id | in_blanks
    · exact (solid_signed id_read in_id).2 rfl
    · exact no_comma (b_spaces _ in_blanks) rfl
  have right_plain : ',' ∉ c ++ signed negative es := by
    intro member
    rcases List.mem_append.1 member with in_blanks | in_value
    · exact no_comma (c_spaces _ in_blanks) rfl
    · exact (solid_signed value_read in_value).2 rfl
  have trim_eq : trim line = signed minus ds ++ b ++ ',' :: (c ++ signed negative es) :=
    line_eq ▸ trim_pair a_spaces d_spaces (fun e member => (solid_signed id_read member).1)
      (fun e member => (solid_signed value_read member).1) (signed_ne_nil id_read)
      (signed_ne_nil value_read)
  have id_eq : decimal? (signed minus ds ++ b) = some (spelled minus ds) := by
    have surrounded : decimal? ([] ++ signed minus ds ++ b) = some (spelled minus ds) :=
      decimal?_signed id_read nofun b_spaces
    rwa [List.nil_append] at surrounded
  have value_eq : decimal? (c ++ signed negative es) = some (spelled negative es) := by
    have surrounded : decimal? (c ++ signed negative es ++ []) = some (spelled negative es) :=
      decimal?_signed value_read c_spaces nofun
    rwa [List.append_nil] at surrounded
  unfold ofLine
  rw [trim_eq, splitOn_pair left_plain right_plain]
  simp only [id_eq, value_eq]

/-- What a line says is told by the line without the blanks at its ends; a fault names the line. -/
theorem ofLine_of_trim (s : List Char) :
    (∃ x, ∀ number line, trim line = s → ofLine number line = .ok x) ∨
    (∀ number line, trim line = s → ofLine number line = .error (.malformedLine number line)) ∨
    ∀ number line, trim line = s → ofLine number line = .error (.lineOutside number line) := by
  by_cases pair : ∃ left right, s.splitOn ',' = [left, right]
  · obtain ⟨left, right, split_eq⟩ := pair
    cases id_eq : decimal? left with
    | none =>
        right; left
        rintro number line rfl
        simp only [ofLine, split_eq, id_eq]
    | some id =>
        cases value_eq : decimal? right with
        | none =>
            right; left
            rintro number line rfl
            simp only [ofLine, split_eq, id_eq, value_eq]
        | some value =>
            by_cases inside : -Cell.wordCount / 2 ≤ id ∧ id < Cell.wordCount ∧ 0 ≤ value ∧
                value < valueCount
            · left
              refine ⟨{ cell := id % Cell.wordCount, value }, ?_⟩
              rintro number line rfl
              simp only [ofLine, split_eq, id_eq, value_eq, if_pos inside]
            · right; right
              rintro number line rfl
              simp only [ofLine, split_eq, id_eq, value_eq, if_neg inside]
  · right; left
    rintro number line rfl
    unfold ofLine
    split
    · rename_i left right split_eq
      exact absurd ⟨left, right, split_eq⟩ pair
    · rfl

/-- Blanks at the ends of a line make no difference to what is read. -/
theorem ofLine_eq_ok_of_trim {s : List Char} {x : Listed} (trim_eq : trim line = trim s)
    (read : ofLine other s = .ok x) (number : Int) : ofLine number line = .ok x := by
  rcases ofLine_of_trim (trim s) with ⟨y, reads⟩ | malformed | outside
  · rw [reads other s rfl] at read
    exact (reads number line trim_eq).trans read
  · exact absurd ((malformed other s rfl).symm.trans read) nofun
  · exact absurd ((outside other s rfl).symm.trans read) nofun

/-- A text that is refused is refused with blanks at its ends too, as the line it stands in. -/
theorem ofLine_refused {s : List Char} (trim_eq : trim line = trim s)
    (refused : ∃ fault, ofLine other s = .error fault) (number : Int) :
    ∃ fault, ofLine number line = .error fault ∧
      (fault = .malformedLine number line ∨ fault = .lineOutside number line) := by
  obtain ⟨fault, refused⟩ := refused
  rcases ofLine_of_trim (trim s) with ⟨y, reads⟩ | malformed | outside
  · exact absurd ((reads other s rfl).symm.trans refused) nofun
  · exact ⟨_, malformed number line trim_eq, Or.inl rfl⟩
  · exact ⟨_, outside number line trim_eq, Or.inr rfl⟩

end Listed

end Geofence
