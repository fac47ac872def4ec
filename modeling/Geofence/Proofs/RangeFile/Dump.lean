/-
# Geofence.Proofs.RangeFile.Dump -- dumps that succeed

A dump visits the tables as an enumeration does and prints the ranges of each on a
page of its own.  The names of the pages ascend, since the prefixes in them have
one width, so no page is written over another, and a folder that was empty lists
just the pages (`dump_complete`).
-/
import Geofence.Proofs.Disk.Folder
import Geofence.Proofs.RangeFile.Enumerated
import Geofence.Proofs.RangeFile.Page

namespace Geofence.RangeFile

set_option autoImplicit false

open Text

/-! ## Names -/

namespace Dump

variable {f : Format} {p q : Nat}

theorem tableCount_le_pow_hexWidth (f : Format) : f.tableCount ≤ 16 ^ hexWidth f := by
  have enough : f.prefixBits ≤ 4 * hexWidth f := by
    unfold hexWidth
    omega
  calc f.tableCount = 2 ^ f.prefixBits := rfl
    _ ≤ 2 ^ (4 * hexWidth f) := Nat.pow_le_pow_right (by decide) enough
    _ = 16 ^ hexWidth f := by rw [pow_mul]; norm_num

theorem hexWidth_pos (f : Format) : 0 < hexWidth f := by
  have := f.prefixBits_ge
  unfold hexWidth
  omega

theorem toList_tableName (f : Format) (p : Int) : (tableName f p).toList =
    "suffixtable_".toList ++ ((hex (hexWidth f) p).toList ++ ".txt".toList) := by
  unfold tableName
  rw [String.toList_append, String.toList_append, List.append_assoc]

theorem tableName_lt_tableName (less : p < q) (inside : q < f.tableCount) :
    tableName f p < tableName f q := by
  have q_fits := inside.trans_le (tableCount_le_pow_hexWidth f)
  have some_width := hexWidth_pos f
  rw [String.lt_iff, toList_tableName, toList_tableName, toList_hex, toList_hex]
  refine List.append_left_lt (append_lt_append ?_
    (zeroPad_lt_zeroPad (by decide) le_rfl some_width less q_fits) _ _)
  rw [length_zeroPad_digits (by decide) some_width q_fits,
    length_zeroPad_digits (by decide) some_width (less.trans q_fits)]

theorem header_lt_tableName (f : Format) (p : Int) : "header.txt" < tableName f p := by
  rw [String.lt_iff, toList_tableName]
  exact List.cons_lt_cons_iff.2 (Or.inl (by decide))

theorem isStep_header : Path.IsStep "header.txt" :=
  ⟨by decide, by decide, by decide⟩

theorem isStep_tableName (f : Format) (p : Int) : Path.IsStep (tableName f p) := by
  have name_eq := toList_tableName f p
  refine ⟨?_, ?_, ?_⟩
  · intro none_there
    rw [none_there] at name_eq
    cases name_eq
  · intro here
    rw [here] at name_eq
    cases name_eq
  · rw [name_eq]
    intro member
    rcases List.mem_append.1 member with label | member
    · exact absurd label (by decide)
    rcases List.mem_append.1 member with digit | ending
    · rw [hex, String.toList_ofList] at digit
      exact absurd (mem_numeral (by decide) le_rfl digit) (by decide)
    · exact absurd ending (by decide)

end Dump

/-! ## Rows -/

namespace Reader

open Dump

variable {f : Format} {b : Block} {i : Nat} {rows : List Row}

/-- A walk over rows that ends without a fault adds a range for each row. -/
theorem exists_of_walkRows (ended : (walkRows f b none i rows #[]).fault = none) :
    ∃ found : List CellRange, found.length = rows.length ∧
      ∀ done, walkRows f b none i rows done =
        { ranges := done ++ found.toArray, fault := none } := by
  induction rows generalizing i with
  | nil => exact ⟨[], rfl, fun done => by simp [walkRows]⟩
  | cons row rows ih =>
      rw [walkRows, if_neg (no_limit _)] at ended
      cases range_eq : b.rangeOf f i row with
      | error fault =>
          rw [range_eq] at ended
          cases ended
      | ok q =>
          rw [range_eq] at ended
          dsimp only at ended
          rw [fault_walkRows] at ended
          obtain ⟨found, counted, walked⟩ := ih ended
          refine ⟨q :: found, congrArg (· + 1) counted, fun done => ?_⟩
          rw [walkRows, if_neg (no_limit _), range_eq]
          dsimp only
          rw [walked]
          simp

/-! ## Tables -/

variable [Container.Compression] {r s : Reader} {p count : Nat} {done : Array Page}

omit [Container.Compression] in
theorem rows_of_isEmpty {b : Block} (empty : b.isEmpty = true) : b.rows = #[] := by
  cases b with
  | empty p => rfl
  | populated table shared => cases empty

/-- The table of a prefix with the ranges that its rows stand for. -/
structure Stores (r : Reader) (p : Nat) (t : Block × List CellRange) : Prop where
  loaded : r.load p = .ok t.1
  counted : t.2.length = t.1.rows.size
  walked : ∀ done, walkRows r.format t.1 none 0 t.1.rows.toList done =
    { ranges := done ++ t.2.toArray, fault := none }

def populated (tables : List (Block × List CellRange)) : List (Block × List CellRange) :=
  tables.filter fun t => !t.1.isEmpty

def pagesOf (f : Format) (tables : List (Block × List CellRange)) : List Page :=
  headerPage f :: (populated tables).map fun t => (tablePage f t.1).1

theorem Agrees.block_of_load (agrees : Agrees r s) (open_eq : s.closed = false)
    (below : p < s.format.tableCount) : (r.block p).1 = s.load p ∧ Agrees (r.block p).2 s := by
  have inside : 0 ≤ (p : Int) ∧ (p : Int) ≤ s.format.greatestPrefix :=
    ⟨Int.natCast_nonneg p, Int.ofNat_le.2 (Nat.le_sub_one_of_lt below)⟩
  obtain ⟨answer, same⟩ := agrees.block p
  exact ⟨answer.trans (block_eq agrees.others_faithful open_eq inside).1, same⟩

theorem Stores.tablePrefix_eq {t : Block × List CellRange} (own : r.Stores p t) :
    t.1.tablePrefix = p :=
  (sound_of_load own.loaded).tablePrefix_eq

theorem exists_stores {b : Block} (loaded : r.load p = .ok b)
    (ended : (walkRows r.format b none 0 b.rows.toList #[]).fault = none) :
    ∃ found, r.Stores p (b, found) := by
  obtain ⟨found, counted, walked⟩ := exists_of_walkRows ended
  exact ⟨found, loaded, counted.trans Array.length_toList, walked⟩

/-- A dump that ends without a fault has read the tables and walked over their rows. -/
theorem stores_of_tablePages (agrees : Agrees r s) (open_eq : s.closed = false)
    (bound : p + count ≤ s.format.tableCount)
    (ended : (tablePages count p r done).1.fault = none) :
    ∃ tables, List.Forall₂ s.Stores (List.range' p count) tables ∧
      (tablePages count p r done).1.pages.toList =
        done.toList ++ (populated tables).map fun t => (tablePage s.format t.1).1 := by
  induction count generalizing r p done with
  | zero => exact ⟨[], .nil, by simp [tablePages, populated]⟩
  | succ count ih =>
      obtain ⟨answer, same⟩ := agrees.block_of_load (p := p) open_eq (by omega)
      rw [tablePages, ← Prod.mk.eta (p := r.block p), answer, agrees.format_eq] at ended ⊢
      cases loaded : s.load p with
      | error fault =>
          rw [loaded] at ended
          cases ended
      | ok b =>
          rw [loaded] at ended
          dsimp only at ended ⊢
          by_cases empty : b.isEmpty = true
          · rw [if_pos empty] at ended ⊢
            obtain ⟨tables, stored, pages_eq⟩ := ih same (by omega) ended
            obtain ⟨found, own⟩ := exists_stores loaded (by rw [rows_of_isEmpty empty]; rfl)
            refine ⟨(b, found) :: tables, .cons own stored, ?_⟩
            rw [pages_eq, populated, populated, List.filter_cons_of_neg (by simp [empty])]
          · rw [if_neg empty] at ended ⊢
            cases refused : (tablePage s.format b).2 with
            | some fault =>
                rw [refused] at ended
                cases ended
            | none =>
                rw [refused] at ended
                obtain ⟨tables, stored, pages_eq⟩ := ih same (by omega) ended
                obtain ⟨found, own⟩ := exists_stores loaded refused
                refine ⟨(b, found) :: tables, .cons own stored, ?_⟩
                rw [if_neg (by simp), pages_eq, populated, populated,
                  List.filter_cons_of_pos (by simp [empty])]
                simp

/-- An enumeration gives out the ranges of the tables one after the other. -/
theorem walkTables_of_stores (agrees : Agrees r s) (open_eq : s.closed = false)
    (bound : p + count ≤ s.format.tableCount) {tables : List (Block × List CellRange)}
    (stored : List.Forall₂ s.Stores (List.range' p count) tables) (done : Array CellRange) :
    (walkTables none count p r done).1 =
      { ranges := done ++ (tables.flatMap Prod.snd).toArray, fault := none } := by
  induction count generalizing r p tables done with
  | zero =>
      cases stored
      simp [walkTables]
  | succ count ih =>
      rw [List.range'_succ] at stored
      cases stored with
      | @cons _ t _ tables own others =>
          obtain ⟨answer, same⟩ := agrees.block_of_load (p := p) open_eq (by omega)
          rw [walkTables, if_neg (no_limit _), ← Prod.mk.eta (p := r.block p), answer, own.loaded,
            agrees.format_eq]
          dsimp only
          rw [own.walked, if_neg (by simp), ih same (by omega) others]
          simp

theorem blocksFrom_of_stores (agrees : Agrees r s) (open_eq : s.closed = false)
    (bound : p + count ≤ s.format.tableCount) {tables : List (Block × List CellRange)}
    (stored : List.Forall₂ s.Stores (List.range' p count) tables) (done : Array Block) :
    (blocksFrom count p r done).1 = .ok (done ++ (tables.map Prod.fst).toArray) := by
  induction count generalizing r p tables done with
  | zero =>
      cases stored
      simp [blocksFrom]
  | succ count ih =>
      rw [List.range'_succ] at stored
      cases stored with
      | @cons _ t _ tables own others =>
          obtain ⟨answer, same⟩ := agrees.block_of_load (p := p) open_eq (by omega)
          rw [blocksFrom, ← Prod.mk.eta (p := r.block p), answer, own.loaded]
          dsimp only
          rw [ih same (by omega) others]
          simp

/-! ## Pages -/

theorem open_of_pages (ended : (Dump.pages r).1.fault = none) : r.closed = false := by
  rw [← Bool.not_eq_true]
  intro closed
  have some_tables : 0 < r.format.tableCount := Nat.two_pow_pos _
  obtain ⟨others, count_eq⟩ := Nat.exists_eq_add_one.2 some_tables
  rw [Dump.pages, count_eq, tablePages, block, if_pos closed] at ended
  cases ended

variable {f : Format} {tables : List (Block × List CellRange)}

theorem forall_stores (stored : List.Forall₂ r.Stores (List.range' p count) tables) :
    ∀ t ∈ tables, ∃ q, r.Stores q t := by
  intro t member
  obtain ⟨i, inside, rfl⟩ := List.mem_iff_getElem.1 member
  exact ⟨_, stored.get (stored.length_eq ▸ inside) inside⟩

omit [Container.Compression] in
theorem flatMap_populated (counted : ∀ t ∈ tables, t.2.length = t.1.rows.size) :
    ((populated tables).map Prod.snd).flatten = tables.flatMap Prod.snd := by
  induction tables with
  | nil => rfl
  | cons t tables ih =>
      obtain ⟨own, others⟩ := List.forall_mem_cons.1 counted
      have rest := ih others
      unfold populated at rest ⊢
      by_cases empty : t.1.isEmpty = true
      · have none_found : t.2 = [] := by
          rw [rows_of_isEmpty empty] at own
          exact List.eq_nil_of_length_eq_zero own
        rw [List.filter_cons_of_neg (by simp [empty]), rest, List.flatMap_cons, none_found,
          List.nil_append]
      · rw [List.filter_cons_of_pos (by simp [empty]), List.map_cons, List.flatten_cons, rest,
          List.flatMap_cons]

theorem ascending_tableNames (stored : List.Forall₂ r.Stores (List.range' 0 count) tables)
    (bound : count ≤ r.format.tableCount) :
    ((populated tables).map fun t => tableName r.format t.1.tablePrefix).Pairwise (· < ·) := by
  -- the empty tables would have names in the same order
  have names_eq : (tables.map fun t => tableName r.format t.1.tablePrefix) =
      (List.range' 0 count).map fun p : Nat => tableName r.format p := by
    refine Eq.symm ?_
    rw [← List.forall₂_eq_eq_eq, List.forall₂_map_left_iff, List.forall₂_map_right_iff]
    refine stored.imp fun p t own => ?_
    rw [own.tablePrefix_eq]
  have all : (tables.map fun t => tableName r.format t.1.tablePrefix).Pairwise (· < ·) := by
    rw [names_eq, List.pairwise_map]
    refine (List.pairwise_lt_range' (s := 0) (n := count)).imp_of_mem ?_
    intro p q _ member less
    rw [List.mem_range'_1] at member
    exact tableName_lt_tableName less (by omega)
  exact all.sublist (List.filter_sublist.map _)

/-- The pages of a file print the ranges of the tables that are not empty. -/
theorem entryLines_pagesOf (each : ∀ t ∈ tables, ∃ q, r.Stores q t) :
    (pagesOf r.format tables).map (fun page => entryLines page.text) =
      [] :: (populated tables).map fun t => rowLines t.2 := by
  rw [pagesOf, List.map_cons, entryLines_headerPage, List.map_map]
  refine congrArg _ (List.map_congr_left fun t member => ?_)
  obtain ⟨q, own⟩ := each t (List.mem_of_mem_filter member)
  have walked := own.walked #[]
  rw [Array.empty_append] at walked
  rw [Function.comp_apply, entryLines_tablePage walked]

omit [Container.Compression] in
theorem isStep_name {page : Page} (member : page ∈ pagesOf f tables) : Path.IsStep page.name := by
  rcases List.mem_cons.1 member with rfl | member
  · exact isStep_header
  · obtain ⟨t, -, rfl⟩ := List.mem_map.1 member
    exact isStep_tableName _ _

/-- The pages tell of the tables of a file, and of the ranges in each that is not empty. -/
structure Tells (f : Format) (blocks : List Block) (found : List (List CellRange))
    (pages : List Page) : Prop where
  counted : List.Forall₂ (fun b ranges => ranges.length = b.rows.size)
    (blocks.filter fun b => !b.isEmpty) found
  names_eq : (pages.map fun page => page.name) = "header.txt" ::
    (blocks.filter fun b => !b.isEmpty).map fun b => tableName f b.tablePrefix
  ascending : (pages.map fun page => page.name).Pairwise (· < ·)
  printed : (pages.map fun page => entryLines page.text) = [] :: found.map rowLines

theorem tells_of_stores (stored : List.Forall₂ r.Stores (List.range' 0 count) tables)
    (bound : count ≤ r.format.tableCount) :
    Tells r.format (tables.map Prod.fst) ((populated tables).map Prod.snd)
      (pagesOf r.format tables) := by
  have each := forall_stores stored
  have populated_eq : (tables.map Prod.fst).filter (fun b => !b.isEmpty) =
      (populated tables).map Prod.fst := by
    rw [List.filter_map]
    rfl
  have names_eq : ((pagesOf r.format tables).map fun page => page.name) =
      "header.txt" :: (populated tables).map fun t => tableName r.format t.1.tablePrefix := by
    rw [pagesOf, List.map_cons, List.map_map]
    rfl
  refine ⟨?_, ?_, ?_, ?_⟩
  · rw [populated_eq, List.forall₂_map_left_iff, List.forall₂_map_right_iff, List.forall₂_same]
    intro t member
    obtain ⟨q, own⟩ := each t (List.mem_of_mem_filter member)
    exact own.counted
  · rw [populated_eq, names_eq, List.map_map]
    rfl
  · rw [names_eq, List.pairwise_cons]
    refine ⟨fun name member => ?_, ascending_tableNames stored bound⟩
    obtain ⟨t, -, rfl⟩ := List.mem_map.1 member
    exact header_lt_tableName _ _
  · rw [entryLines_pagesOf each, List.map_map]
    rfl

end Reader

theorem dump_eq [Container.Compression] (d : Disk) (folder : String) (r : Reader) :
    d.dump folder r = ((Dump.pages r).1, (Dump.pages r).2,
      (d.makeFolder folder).puts folder
        ((Dump.pages r).1.pages.toList.map fun page => (page.name, page.text.toUTF8))) := by
  unfold Disk.dump Disk.puts
  rw [List.foldl_map, Array.foldl_toList]

/-- The dump of a reader that was opened, into a folder without files, whatever the reader was asked
before.  If it succeeds, the folder holds a page for the header and one for each table that is not
empty, with names that ascend, and nothing else; no other file is lost.  Line by line the pages print
the ranges that an enumeration gives out, numbered from 0 on each page. -/
theorem dump_complete [Container.Compression] {path : String} {bytes : ByteArray}
    {expected : Expected} {r : Reader} (opened : Reader.ofBytes path bytes expected = .ok r)
    (calls : List Reader.Call) {d : Disk} {folder : String} (vacant : d.Vacant folder)
    (succeeded : (d.dump folder (r.after calls)).1.fault = none) :
    ∃ (blocks : Array Block) (found : List (List CellRange)),
      let pages := (d.dump folder (r.after calls)).1.pages.toList
      (r.after calls).blocks.1 = .ok blocks ∧
      (r.after calls).ranges.1 = .ok found.flatten ∧
      Reader.Tells r.format blocks.toList found pages ∧
      (d.dump folder (r.after calls)).2.2.list folder =
        .ok (pages.map fun page => (page.name, page.text.toUTF8)) ∧
      d.files <:+ (d.dump folder (r.after calls)).2.2.files := by
  have ended : (Dump.pages (r.after calls)).1.fault = none := succeeded
  have open_eq := (Reader.ofBytes_ok opened).1
  have agrees := (Reader.Agrees.refl (Reader.faithful_of_ofBytes opened)).after calls
    (Reader.open_of_pages ended)
  have pages_def : Dump.pages (r.after calls) = Dump.tablePages r.format.tableCount 0
      (r.after calls) #[Dump.headerPage r.format] := by
    rw [Dump.pages, agrees.format_eq]
  have bound : 0 + r.format.tableCount ≤ r.format.tableCount := (Nat.zero_add _).le
  rw [pages_def] at ended
  obtain ⟨tables, stored, pages_eq⟩ := Reader.stores_of_tablePages agrees open_eq bound ended
  have all_pages : (Dump.pages (r.after calls)).1.pages.toList =
      Reader.pagesOf r.format tables := by
    rw [pages_def, pages_eq]
    rfl
  have tells := Reader.tells_of_stores stored le_rfl
  have proper : ∀ file ∈ (Reader.pagesOf r.format tables).map
      fun page => (page.name, page.text.toUTF8), Path.IsStep file.1 := by
    intro file member
    obtain ⟨page, listed, rfl⟩ := List.mem_map.1 member
    exact Reader.isStep_name listed
  have ascending : (((Reader.pagesOf r.format tables).map
      fun page => (page.name, page.text.toUTF8)).map Prod.fst).Pairwise (· < ·) := by
    rw [List.map_map]
    exact tells.ascending
  refine ⟨(tables.map Prod.fst).toArray, (Reader.populated tables).map Prod.snd, ?_⟩
  rw [dump_eq, all_pages]
  refine ⟨?blocks, ?ranges, tells, Disk.list_puts vacant proper ascending,
    Disk.files_suffix_puts (d := d.makeFolder folder) vacant proper
      (ascending.imp fun less => less.ne)⟩
  case blocks =>
    rw [Reader.blocks, agrees.format_eq, Reader.blocksFrom_of_stores agrees open_eq bound stored]
    simp
  case ranges =>
    have counted : ∀ t ∈ tables, t.2.length = t.1.rows.size := by
      intro t member
      obtain ⟨q, own⟩ := Reader.forall_stores stored t member
      exact own.counted
    rw [Reader.flatMap_populated counted, Reader.ranges, Reader.walk, agrees.format_eq]
    dsimp only
    rw [Reader.walkTables_of_stores agrees open_eq bound stored]
    simp

/-- The file of the two ranges is dumped into a folder of an empty disk, after its last table was
read. -/
theorem dump_complete_small : ∃ (w : Writer) (r : Reader) (blocks : Array Block)
    (found : List (List CellRange)),
    let pages := (Disk.empty.dump "out" (r.after [.block 7])).1.pages.toList
    Writer.create smallFormat false = .ok w ∧
    Reader.ofBytes "small" (w.put [spanningRange, wrappingRange]).2.close.2.contents
      Expected.nothing = .ok r ∧
    (Disk.empty.dump "out" (r.after [.block 7])).1.fault = none ∧
    (r.after [.block 7]).ranges.1 = .ok found.flatten ∧
    found.map List.length = [1, 2, 1, 1] ∧
    Reader.Tells r.format blocks.toList found pages ∧
    (Disk.empty.dump "out" (r.after [.block 7])).2.2.list "out" =
      .ok (pages.map fun page => (page.name, page.text.toUTF8)) := by
  have session : (do
      let w ← Writer.create smallFormat false
      let r ← Reader.ofBytes "small"
        (w.put [spanningRange, wrappingRange]).2.close.2.contents Expected.nothing
      let blocks ← (r.after [.block 7]).blocks.1
      return ((Dump.pages (r.after [.block 7])).1.fault,
        (blocks.toList.filter fun b => !b.isEmpty).map fun b => b.rows.size) :
      Except Fault (Option Fault × List Nat)) = .ok (none, [1, 2, 1, 1]) := by decide +kernel
  obtain ⟨w, created, session⟩ := Outcome.bind_eq_ok.1 session
  obtain ⟨r, opened, session⟩ := Outcome.bind_eq_ok.1 session
  obtain ⟨blocks, blocks_eq, session⟩ := Outcome.bind_eq_ok.1 session
  obtain ⟨succeeded, sizes⟩ := Prod.mk.inj (Except.ok.inj session)
  have vacant : Disk.empty.Vacant "out" := nofun
  obtain ⟨_, found, same, ranges_eq, tells, listed, -⟩ :=
    dump_complete opened [.block 7] vacant succeeded
  obtain rfl := Except.ok.inj (blocks_eq.symm.trans same)
  have counts : ((blocks.toList.filter fun b => !b.isEmpty).map fun b => b.rows.size) =
      found.map List.length := by
    rw [← List.forall₂_eq_eq_eq, List.forall₂_map_left_iff, List.forall₂_map_right_iff]
    exact tells.counted.imp fun _ _ counted => counted.symm
  exact ⟨w, r, blocks, found, created, opened, succeeded, ranges_eq, counts.symm.trans sizes,
    tells, listed⟩

end Geofence.RangeFile
