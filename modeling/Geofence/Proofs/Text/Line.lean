/-
# Geofence.Proofs.Text.Line -- the lines of a text that was put together

Text without line ends is in one line, and a line end closes the line in front of
it.  So the lines of two texts in a row are the lines of one and then those of
the other, if the first is closed and its end does not go on in the second
(`lines_append`).  A carriage return in front of an empty line that is ended by a
line feed is such an end that goes on: the two lines are one, and nothing but a
blank line is lost (`Sheet.filter_lines_text`).
-/
import Geofence.CellList.Text
import Mathlib

namespace Geofence.Text

set_option autoImplicit false

def OneLine (s : List Char) : Prop :=
  ∀ c ∈ s, c ≠ '\n' ∧ c ≠ '\r'

instance (s : List Char) : Decidable (OneLine s) :=
  List.decidableBAll _ s

variable {s t : List Char} {c : Char}

theorem oneLine_append : OneLine (s ++ t) ↔ OneLine s ∧ OneLine t :=
  List.forall_mem_append

/-! ## Lines of a text -/

theorem lines_feed (t : List Char) : lines ('\n' :: t) = ['\n'] :: lines t := by
  rfl

theorem lines_return_feed (t : List Char) : lines ('\r' :: '\n' :: t) = ['\n'] :: lines t := by
  rfl

theorem all_consEnd (l : Lines) : l.consEnd.all = ['\n'] :: l.all :=
  rfl

theorem all_consChar (c : Char) (l : Lines) :
    (l.consChar c).all = (c :: l.all.headD []) :: l.all.tail := by
  obtain ⟨ended, rest⟩ := l
  cases ended with
  | nil => cases rest <;> rfl
  | cons first later => rfl

theorem lines_return (alone : t.head? ≠ some '\n') : lines ('\r' :: t) = ['\n'] :: lines t := by
  cases t with
  | nil => rfl
  | cons d t =>
      have apart : ∀ s, '\r' = '\r' → d :: t = '\n' :: s → False := by
        rintro s - same
        exact alone (by rw [(List.cons.inj same).1, List.head?_cons])
      rw [lines, Lines.ofText.eq_3 _ _ apart, if_pos (Or.inr rfl), all_consEnd]
      rfl

/-- A character that ends no line stands in front of the first line. -/
theorem lines_cons (inside : c ≠ '\n' ∧ c ≠ '\r') (t : List Char) :
    lines (c :: t) = (c :: (lines t).headD []) :: (lines t).tail := by
  have not_return : ∀ s, c = '\r' → t = '\n' :: s → False := fun _ same => absurd same inside.2
  rw [lines, Lines.ofText.eq_3 _ _ not_return, if_neg (by simp [inside]), all_consChar]
  rfl

/-- Text without line ends stands in front of the first line. -/
theorem lines_oneLine_append (inside : OneLine s) (some_text : s ≠ []) (t : List Char) :
    lines (s ++ t) = (s ++ (lines t).headD []) :: (lines t).tail := by
  induction s with
  | nil => exact absurd rfl some_text
  | cons c s ih =>
      obtain ⟨own, others⟩ := List.forall_mem_cons.1 inside
      rw [List.cons_append, lines_cons own]
      by_cases last : s = []
      · subst last
        rfl
      · rw [ih others last]
        rfl

theorem lines_oneLine (inside : OneLine s) (some_text : s ≠ []) : lines s = [s] := by
  have whole := lines_oneLine_append inside some_text []
  simpa [show lines [] = [] from rfl] using whole

/-- A line end closes the line in front of it. -/
theorem lines_oneLine_append_of_end {later : List (List Char)} (inside : OneLine s)
    (ends : lines t = ['\n'] :: later) : lines (s ++ t) = (s ++ ['\n']) :: later := by
  by_cases none_there : s = []
  · subst none_there
    exact ends
  · rw [lines_oneLine_append inside none_there, ends]
    rfl

/-- The lines of a text are those it was put together of, with line feeds. -/
theorem lines_flatMap_feed {rows : List (List Char)} (one : ∀ row ∈ rows, OneLine row) :
    lines (rows.flatMap (· ++ ['\n'])) = rows.map (· ++ ['\n']) := by
  induction rows with
  | nil => rfl
  | cons row rows ih =>
      obtain ⟨own, others⟩ := List.forall_mem_cons.1 one
      rw [List.flatMap_cons, List.append_assoc, List.singleton_append,
        lines_oneLine_append_of_end own (lines_feed _), ih others, List.map_cons]

theorem exists_lines_cons (c : Char) (s : List Char) :
    ∃ first later, lines (c :: s) = first :: later := by
  by_cases feed : c = '\n'
  · subst feed
    exact ⟨_, _, lines_feed s⟩
  by_cases ret : c = '\r'
  · subst ret
    by_cases more : s.head? = some '\n'
    · obtain ⟨s, rfl⟩ := List.head?_eq_some_iff.1 more
      exact ⟨_, _, lines_return_feed s⟩
    · exact ⟨_, _, lines_return more⟩
  · exact ⟨_, _, lines_cons ⟨feed, ret⟩ s⟩

/-- A text is closed when its last line is ended. -/
def Closed (s : List Char) : Prop :=
  ∀ c ∈ s.getLast?, c = '\n' ∨ c = '\r'

theorem Closed.tail (closed : Closed (c :: s)) : Closed s := by
  cases s with
  | nil => nofun
  | cons d s => rwa [Closed, List.getLast?_cons_cons] at closed

/-- The lines of two texts in a row, if the line end between them is whole. -/
theorem lines_append (closed : Closed s) (apart : s.getLast? = some '\r' → t.head? ≠ some '\n') :
    lines (s ++ t) = lines s ++ lines t := by
  have apart_tail {c : Char} {s : List Char}
      (apart : (c :: s).getLast? = some '\r' → t.head? ≠ some '\n') :
      s.getLast? = some '\r' → t.head? ≠ some '\n' :=
    fun last => apart (by simp [List.getLast?_cons, last])
  induction s using Lines.ofText.induct with
  | case1 => rfl
  | case2 s ih =>
      rw [lines_return_feed, List.cons_append, List.cons_append, lines_return_feed,
        ih closed.tail.tail (apart_tail (apart_tail apart)), List.cons_append]
  | case3 c s not_pair ends ih =>
      have rest := ih closed.tail (apart_tail apart)
      rcases ends with rfl | rfl
      · rw [lines_feed, List.cons_append, lines_feed, rest, List.cons_append]
      · have alone : s.head? ≠ some '\n' := by
          rintro pair
          obtain ⟨s, rfl⟩ := List.head?_eq_some_iff.1 pair
          exact not_pair s rfl rfl
        have alone_still : (s ++ t).head? ≠ some '\n' := by
          cases s with
          | nil => exact apart rfl
          | cons d s => exact alone
        rw [lines_return alone, List.cons_append, lines_return alone_still, rest, List.cons_append]
  | case4 c s not_pair inside ih =>
      rw [not_or] at inside
      cases s with
      | nil => exact absurd (closed c rfl) (by simp [inside])
      | cons d s =>
          obtain ⟨first, later, lines_eq⟩ := exists_lines_cons d s
          rw [lines_cons inside, List.cons_append, lines_cons inside, ih closed.tail
            (apart_tail apart), lines_eq]
          rfl

/-! ## Texts that are laid out in lines -/

inductive LineEnd where
  | lineFeed
  | carriageReturn
  | returnFeed
  deriving DecidableEq, Repr

namespace LineEnd

def chars : LineEnd → List Char
  | lineFeed => ['\n']
  | carriageReturn => ['\r']
  | returnFeed => ['\r', '\n']

/-- What follows a line end is in lines of its own, but for a line feed that the end goes on in. -/
theorem lines_chars_append (e : LineEnd) (t : List Char) :
    lines (e.chars ++ t) = ['\n'] :: lines t ∨
      ∃ later, lines t = ['\n'] :: later ∧ lines (e.chars ++ t) = ['\n'] :: later := by
  cases e with
  | lineFeed => exact Or.inl (lines_feed t)
  | returnFeed => exact Or.inl (lines_return_feed t)
  | carriageReturn =>
      by_cases pair : t.head? = some '\n'
      · obtain ⟨t, rfl⟩ := List.head?_eq_some_iff.1 pair
        exact Or.inr ⟨lines t, lines_feed t, lines_return_feed t⟩
      · exact Or.inl (lines_return pair)

theorem closed_chars (e : LineEnd) : Closed e.chars := by
  cases e <;> simp [Closed, chars]

end LineEnd

theorem Closed.append (first : Closed s) (second : Closed t) : Closed (s ++ t) := by
  intro c last
  rw [List.getLast?_append, Option.mem_def, Option.or_eq_some_iff] at last
  exact last.elim (second c) fun last => first c last.2

theorem closed_append_chars (s : List Char) (e : LineEnd) : Closed (s ++ e.chars) := by
  intro c last
  rw [List.getLast?_append_of_ne_nil _ (by cases e <;> simp [LineEnd.chars])] at last
  exact e.closed_chars c last

/-- Lines with their ends, and one without; when that one is empty, a line end is the last of the
text. -/
structure Sheet where
  ended : List (List Char × LineEnd)
  last : List Char
  deriving DecidableEq, Repr

namespace Sheet

def text (x : Sheet) : List Char :=
  x.ended.flatMap (fun line => line.1 ++ line.2.chars) ++ x.last

/-- The lines of a sheet, without their ends. -/
def rows (x : Sheet) : List (List Char) :=
  x.ended.map Prod.fst ++ [x.last]

/-- The sheet with another text for line `i`, which keeps its end. -/
def replace (x : Sheet) (i : Nat) (s : List Char) : Sheet :=
  match x.ended[i]? with
  | some line => { x with ended := x.ended.set i (s, line.2) }
  | none => { x with last := s }

def before (x : Sheet) (i : Nat) : Sheet where
  ended := x.ended.take i
  last := []

variable {x : Sheet}

theorem closed_text (ended_all : x.last = []) : Closed x.text := by
  obtain ⟨ended, last⟩ := x
  obtain rfl : last = [] := ended_all
  rw [text, List.append_nil]
  induction ended with
  | nil => nofun
  | cons line ended ih =>
      rw [List.flatMap_cons]
      exact (closed_append_chars line.1 line.2).append ih

/-- The lines of a text, but for some that are blank, are those it was laid out in. -/
theorem filter_lines_text {keep : List Char → Bool} (drops_nil : keep [] = false)
    (drops_end : keep ['\n'] = false) (one : ∀ row ∈ x.rows, OneLine row) :
    (lines x.text).filter keep =
      (x.ended.map (fun line => line.1 ++ ['\n']) ++ [x.last]).filter keep := by
  obtain ⟨ended, last⟩ := x
  induction ended with
  | nil =>
      by_cases none_left : last = []
      · subst none_left
        simp [text, drops_nil, show lines [] = [] from rfl]
      · rw [text, List.flatMap_nil, List.nil_append,
          lines_oneLine (one last (by simp [rows])) none_left]
        rfl
  | cons line ended ih =>
      have rest := ih fun row member => one row (List.mem_cons_of_mem _ member)
      have own : OneLine line.1 := one line.1 (by simp [rows])
      have text_eq : text { ended := line :: ended, last } =
          line.1 ++ (line.2.chars ++ text { ended, last }) := by
        simp [text]
      rw [text_eq]
      dsimp only at rest ⊢
      rw [List.map_cons, List.cons_append, List.filter_cons, ← rest]
      rcases line.2.lines_chars_append (text { ended, last }) with whole | ⟨later, lost, goes_on⟩
      · rw [lines_oneLine_append_of_end own whole, List.filter_cons]
      · rw [lines_oneLine_append_of_end own goes_on, List.filter_cons, lost,
          List.filter_cons_of_neg (by simp [drops_end])]

/-- A line that is replaced stands behind the lines in front of it, and is the last or is ended. -/
theorem exists_text_replace (x : Sheet) (i : Nat) (s : List Char) : ∃ back,
    (x.replace i s).text = (x.before i).text ++ (s ++ back) ∧
      (back = [] ∨ ∃ later, lines back = ['\n'] :: later) := by
  unfold replace
  split
  · rename_i line found
    obtain ⟨inside, rfl⟩ := List.getElem?_eq_some_iff.1 found
    refine ⟨x.ended[i].2.chars ++ text { x with ended := x.ended.drop (i + 1) }, ?_, Or.inr ?_⟩
    · rw [text, List.set_eq_take_append_cons_drop, if_pos inside]
      simp [text, before]
    · rcases x.ended[i].2.lines_chars_append (text { x with ended := x.ended.drop (i + 1) })
        with whole | ⟨later, -, goes_on⟩
      · exact ⟨_, whole⟩
      · exact ⟨later, goes_on⟩
  · rename_i beyond
    refine ⟨[], ?_, Or.inl rfl⟩
    rw [List.getElem?_eq_none_iff] at beyond
    simp [text, before, List.take_of_length_le beyond]

/-- The lines of a sheet with a line that was replaced: those in front, and then the new one. -/
theorem lines_replace {i : Nat} (x : Sheet) (one : OneLine s) (some_text : s ≠ []) : ∃ line later,
    lines (x.replace i s).text = lines (x.before i).text ++ line :: later ∧
      (line = s ∨ line = s ++ ['\n']) := by
  obtain ⟨back, text_eq, ends⟩ := x.exists_text_replace i s
  have apart : (x.before i).text.getLast? = some '\r' → (s ++ back).head? ≠ some '\n' := by
    intro _ pair
    rw [List.head?_append_of_ne_nil _ some_text] at pair
    exact (one _ (List.mem_of_mem_head? pair)).1 rfl
  rw [text_eq, lines_append (closed_text rfl) apart]
  rcases ends with rfl | ⟨later, ends⟩
  · rw [List.append_nil, lines_oneLine one some_text]
    exact ⟨s, [], rfl, Or.inl rfl⟩
  · rw [lines_oneLine_append_of_end one ends]
    exact ⟨_, later, rfl, Or.inr rfl⟩

end Sheet

end Geofence.Text
