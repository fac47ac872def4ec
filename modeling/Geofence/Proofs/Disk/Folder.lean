/-
# Geofence.Proofs.Disk.Folder -- files that were put into a folder

A path that was put together of steps is taken apart into the same steps
(`Path.steps_ofSteps`), so a name joined to a folder is a path to that folder and
that name.  Files with names of their own that are put into a folder without files
are what the folder lists, and no other file is lost (`Disk.list_puts`,
`Disk.files_suffix_puts`).
-/
import Geofence.Storage
import Mathlib

namespace Geofence

set_option autoImplicit false

namespace Path

/-- A step that leads somewhere and is no path of several. -/
structure IsStep (s : String) : Prop where
  some_text : s ≠ ""
  not_here : s ≠ "."
  plain : '/' ∉ s.toList

variable {folder name path : String} {rooted : Bool} {ss : List String}

theorem not_mem_of_mem_splitOn {c : Char} {s part : List Char} (member : part ∈ s.splitOn c) :
    c ∉ part := by
  induction s generalizing part with
  | nil =>
      rw [List.splitOn_nil, List.mem_singleton] at member
      rw [member]
      exact List.not_mem_nil
  | cons d s ih =>
      rw [List.splitOn_cons_eq_if_modifyHead] at member
      split at member
      · rcases List.mem_cons.1 member with rfl | later
        · exact List.not_mem_nil
        · exact ih later
      · rename_i other
        cases parts : s.splitOn c with
        | nil =>
            rw [parts] at member
            cases member
        | cons first later =>
            rw [parts, List.modifyHead_cons] at member
            rw [parts] at ih
            rcases List.mem_cons.1 member with rfl | member
            · rw [List.mem_cons, not_or]
              exact ⟨fun same => other (by simp [same]), ih List.mem_cons_self⟩
            · exact ih (List.mem_cons_of_mem _ member)

theorem isStep_of_mem_steps {s : String} (member : s ∈ steps path) : IsStep s := by
  obtain ⟨split, proper⟩ := List.mem_filter.1 member
  obtain ⟨part, part_split, rfl⟩ := List.mem_map.1 split
  obtain ⟨some_text, not_here⟩ := of_decide_eq_true proper
  refine ⟨some_text, not_here, ?_⟩
  rw [String.toList_ofList]
  exact not_mem_of_mem_splitOn part_split

theorem filter_splitOn_intercalate (proper : ∀ s ∈ ss, IsStep s) :
    ((("/".intercalate ss).toList.splitOn '/').map String.ofList).filter
      (fun s => s ≠ "" ∧ s ≠ ".") = ss := by
  by_cases none_there : ss = []
  · subst none_there
    rfl
  have parts : ("/".intercalate ss).toList.splitOn '/' = ss.map String.toList := by
    rw [String.toList_intercalate]
    refine List.splitOn_intercalate '/' ?_ (by simpa using none_there)
    intro part member
    obtain ⟨s, found, rfl⟩ := List.mem_map.1 member
    exact (proper s found).plain
  rw [parts, List.map_map, List.map_congr_left (g := id) (by simp), List.map_id,
    List.filter_eq_self]
  intro s member
  exact decide_eq_true ⟨(proper s member).some_text, (proper s member).not_here⟩

theorem steps_ofSteps (rooted : Bool) (proper : ∀ s ∈ ss, IsStep s) :
    steps (ofSteps rooted ss) = ss := by
  unfold steps ofSteps
  cases rooted with
  | true =>
      rw [if_pos rfl, String.toList_append, show "/".toList = ['/'] from rfl, List.singleton_append,
        List.splitOn_cons_eq_if_modifyHead, if_pos (by decide), List.map_cons,
        List.filter_cons_of_neg (by simp)]
      exact filter_splitOn_intercalate proper
  | false =>
      rw [if_neg Bool.false_ne_true]
      split
      · rename_i none_there
        rw [List.isEmpty_iff] at none_there
        subst none_there
        decide
      · exact filter_splitOn_intercalate proper

theorem exists_intercalate_cons (sep first : List Char) (later : List (List Char)) :
    ∃ rest, sep.intercalate (first :: later) = first ++ rest := by
  cases later with
  | nil => exact ⟨[], by simp⟩
  | cons next later => exact ⟨_, by rw [List.intercalate_cons_cons, List.append_assoc]⟩

theorem isRooted_ofSteps (rooted : Bool) (proper : ∀ s ∈ ss, IsStep s) :
    isRooted (ofSteps rooted ss) = rooted := by
  cases rooted with
  | true =>
      rw [isRooted, ofSteps, if_pos rfl, String.startsWith_string_iff, String.toList_append]
      exact List.prefix_append _ _
  | false =>
      rw [isRooted, ofSteps, if_neg Bool.false_ne_true, Bool.eq_false_iff, Ne,
        String.startsWith_string_iff]
      cases ss with
      | nil => decide
      | cons s later =>
          have own := proper s List.mem_cons_self
          obtain ⟨rest, joined⟩ :=
            exists_intercalate_cons "/".toList s.toList (later.map String.toList)
          rw [List.isEmpty_cons, if_neg Bool.false_ne_true, String.toList_intercalate,
            List.map_cons, joined]
          rintro ⟨behind, slash⟩
          cases chars : s.toList with
          | nil => exact own.some_text (String.toList_eq_nil_iff.1 chars)
          | cons c cs =>
              rw [chars] at slash
              have first : '/' = c := (List.cons.inj slash).1
              exact own.plain (by rw [chars, first]; exact List.mem_cons_self)

theorem clean_ofSteps (rooted : Bool) (proper : ∀ s ∈ ss, IsStep s) :
    clean (ofSteps rooted ss) = ofSteps rooted ss := by
  rw [clean, steps_ofSteps rooted proper, isRooted_ofSteps rooted proper]

/-! ## A name in a folder -/

theorem steps_name (step : IsStep name) : steps name = [name] := by
  have path_eq : ofSteps false [name] = name := by
    simp [ofSteps]
  have proper : ∀ s ∈ [name], IsStep s := by simpa using step
  simpa [path_eq] using steps_ofSteps false proper

theorem proper_join (step : IsStep name) : ∀ s ∈ steps folder ++ [name], IsStep s := by
  intro s member
  rcases List.mem_append.1 member with in_folder | last
  · exact isStep_of_mem_steps in_folder
  · rwa [List.mem_singleton.1 last]

theorem join_eq (step : IsStep name) :
    join folder name = ofSteps (isRooted folder) (steps folder ++ [name]) := by
  rw [join, steps_name step]

theorem clean_join (step : IsStep name) : clean (join folder name) = join folder name := by
  rw [join_eq step, clean_ofSteps _ (proper_join step)]

theorem folder_join (step : IsStep name) : Path.folder (join folder name) = clean folder := by
  rw [join_eq step, Path.folder, steps_ofSteps _ (proper_join step),
    isRooted_ofSteps _ (proper_join step), List.dropLast_concat, clean]

theorem name_join (step : IsStep name) : Path.name (join folder name) = name := by
  rw [join_eq step, Path.name, steps_ofSteps _ (proper_join step), List.getLast?_concat]
  rfl

end Path

namespace Disk

variable {d : Disk} {folder : String} {files : List (String × ByteArray)}

def Vacant (d : Disk) (folder : String) : Prop :=
  ∀ file ∈ d.files, Path.folder file.1 ≠ Path.clean folder

def puts (d : Disk) (folder : String) (files : List (String × ByteArray)) : Disk :=
  files.foldl (fun d file => d.put (Path.join folder file.1) file.2) d

theorem folders_puts (d : Disk) : (d.puts folder files).folders = d.folders := by
  induction files generalizing d with
  | nil => rfl
  | cons file files ih => exact ih _

/-- Files with names of their own, none of which is there, are put in front of those that are. -/
theorem files_puts (proper : ∀ file ∈ files, Path.IsStep file.1)
    (distinct : (files.map Prod.fst).Nodup)
    (absent : ∀ file ∈ files, ∀ old ∈ d.files, old.1 ≠ Path.join folder file.1) :
    (d.puts folder files).files =
      (files.map fun file => (Path.join folder file.1, file.2)).reverse ++ d.files := by
  induction files generalizing d with
  | nil => rfl
  | cons file files ih =>
      obtain ⟨own_step, steps⟩ := List.forall_mem_cons.1 proper
      obtain ⟨own_absent, absent⟩ := List.forall_mem_cons.1 absent
      rw [List.map_cons, List.nodup_cons] at distinct
      have put_eq : (d.put (Path.join folder file.1) file.2).files =
          (Path.join folder file.1, file.2) :: d.files := by
        rw [put, Path.clean_join own_step]
        dsimp only
        rw [List.filter_eq_self.2 fun old member => by simpa using own_absent old member]
      have still_absent : ∀ next ∈ files,
          ∀ old ∈ (d.put (Path.join folder file.1) file.2).files,
            old.1 ≠ Path.join folder next.1 := by
        intro next member old there
        rw [put_eq] at there
        rcases List.mem_cons.1 there with rfl | before
        · intro same
          have names := congrArg Path.name same
          rw [Path.name_join own_step, Path.name_join (steps next member)] at names
          exact distinct.1 (names ▸ List.mem_map_of_mem member)
        · exact absent next member old before
      change ((d.put (Path.join folder file.1) file.2).puts folder files).files = _
      rw [ih steps distinct.2 still_absent, put_eq]
      simp

theorem Vacant.absent (vacant : d.Vacant folder)
    (proper : ∀ file ∈ files, Path.IsStep file.1) :
    ∀ file ∈ files, ∀ old ∈ d.files, old.1 ≠ Path.join folder file.1 := by
  intro file member old there same
  exact vacant old there (by rw [same, Path.folder_join (proper file member)])

/-- Nothing is lost of a disk when files are put into a folder without files. -/
theorem files_suffix_puts (vacant : d.Vacant folder) (proper : ∀ file ∈ files, Path.IsStep file.1)
    (distinct : (files.map Prod.fst).Nodup) : d.files <:+ (d.puts folder files).files := by
  rw [files_puts proper distinct (vacant.absent proper)]
  exact List.suffix_append _ _

theorem hasFolder_makeFolder (d : Disk) (folder : String) :
    (d.makeFolder folder).hasFolder folder = true := by
  unfold hasFolder
  dsimp only
  cases last : (Path.steps folder).getLast? with
  | none =>
      rw [List.getLast?_eq_none_iff] at last
      rw [Path.clean, last]
      cases Path.isRooted folder <;> simp [Path.ofSteps]
  | some step =>
      have some_steps : 0 < (Path.steps folder).length := by
        rw [List.length_pos_iff]
        rintro none_there
        rw [none_there] at last
        cases last
      have made : (d.makeFolder folder).folders.contains (Path.clean folder) = true := by
        by_cases there : d.folders.contains (Path.clean folder) = true
        · rw [List.contains_iff_mem] at there ⊢
          exact List.mem_append_left _ there
        · rw [List.contains_iff_mem]
          refine List.mem_append_right _ (List.mem_filter.2 ⟨?_, by simpa using there⟩)
          refine List.mem_map.2 ⟨(Path.steps folder).length - 1, ?_, ?_⟩
          · exact List.mem_range.2 (by omega)
          · rw [Nat.sub_add_cancel some_steps, List.take_length, Path.clean]
      rw [made, Bool.or_true]

theorem pairwise_mergeSort_names (files : List (String × ByteArray)) :
    (files.mergeSort fun x y => x.1 ≤ y.1).Pairwise fun x y => x.1 ≤ y.1 := by
  have transitive : ∀ x y z : String × ByteArray, decide (x.1 ≤ y.1) = true →
      decide (y.1 ≤ z.1) = true → decide (x.1 ≤ z.1) = true := by
    intro x y z below above
    exact decide_eq_true (String.le_trans (of_decide_eq_true below) (of_decide_eq_true above))
  have total : ∀ x y : String × ByteArray,
      (decide (x.1 ≤ y.1) || decide (y.1 ≤ x.1)) = true := by
    intro x y
    rw [Bool.or_eq_true, decide_eq_true_iff, decide_eq_true_iff]
    exact String.le_total x.1 y.1
  exact (List.pairwise_mergeSort transitive total files).imp of_decide_eq_true

/-- Files whose names ascend are in the only order that sorting by name leaves. -/
theorem mergeSort_reverse (ascending : (files.map Prod.fst).Pairwise (· < ·)) :
    (files.reverse.mergeSort fun x y => x.1 ≤ y.1) = files := by
  have distinct : (files.map Prod.fst).Nodup := ascending.imp fun less => String.ne_of_lt less
  have in_order : files.Pairwise fun x y => x.1 ≤ y.1 :=
    (List.pairwise_map.1 ascending).imp fun less => le_of_lt less
  refine List.Perm.eq_of_pairwise ?_ (pairwise_mergeSort_names files.reverse) in_order
    ((List.mergeSort_perm _ _).trans (List.reverse_perm _))
  intro x y in_sorted member below above
  have x_member : x ∈ files := by simpa using in_sorted
  exact List.inj_on_of_nodup_map distinct x_member member (String.le_antisymm below above)

/-- Files put into a folder without files, in the order of their names, are what it lists. -/
theorem list_puts (vacant : d.Vacant folder) (proper : ∀ file ∈ files, Path.IsStep file.1)
    (ascending : (files.map Prod.fst).Pairwise (· < ·)) :
    ((d.makeFolder folder).puts folder files).list folder = .ok files := by
  have distinct : (files.map Prod.fst).Nodup := ascending.imp fun less => String.ne_of_lt less
  have made_vacant : (d.makeFolder folder).Vacant folder := vacant
  have is_folder : ((d.makeFolder folder).puts folder files).hasFolder folder = true := by
    rw [hasFolder, folders_puts]
    exact hasFolder_makeFolder d folder
  have here : (((d.makeFolder folder).puts folder files).files.filter fun file =>
      Path.folder file.1 == Path.clean folder) =
        (files.map fun file => (Path.join folder file.1, file.2)).reverse := by
    rw [files_puts proper distinct (made_vacant.absent proper), List.filter_append,
      List.filter_eq_self.2, List.filter_eq_nil_iff.2, List.append_nil]
    · intro old there
      simpa using vacant old there
    · intro new there
      obtain ⟨file, member, rfl⟩ := List.mem_map.1 (List.mem_reverse.1 there)
      simpa using Path.folder_join (proper file member)
  have named : ((files.map fun file => (Path.join folder file.1, file.2)).reverse.map
      fun file => (Path.name file.1, file.2)) = files.reverse := by
    rw [List.map_reverse, List.map_map]
    refine congrArg List.reverse ((List.map_congr_left fun file member => ?_).trans (List.map_id _))
    rw [Function.comp_apply, Path.name_join (proper file member)]
    rfl
  rw [list, if_pos is_folder]
  dsimp only
  rw [here, named]
  exact congrArg Except.ok (mergeSort_reverse ascending)

end Disk

end Geofence
