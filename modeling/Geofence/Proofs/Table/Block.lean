/-
# Geofence.Proofs.Table.Block -- the table of a prefix read back

The rows of a table are arcs inside one prefix, one behind the other, none
longer than a row can say (`Block.Rows`).  Such arcs are never refused on the
way into a table (`Block.encode_eq`), and a table read back holds them again
(`Block.load_encode`): `Block.Holds` is what a reader may rely on.
-/
import Geofence.Proofs.Partition.Collect
import Geofence.Proofs.Table.Packed
import Geofence.Proofs.Table.SharedData

namespace Geofence

set_option autoImplicit false

/-- The rows of a file: suffixes and lengths. -/
def Format.rowLayout (f : Format) : RowLayout where
  rowSize := f.rowSize
  keyBits := f.suffixBits
  rowSize_pos := f.rowSize_pos
  rowSize_le := f.rowSize_le
  keyBits_pos := f.suffixBits_pos
  keyBits_lt := f.suffixBits_lt

namespace Block

variable {f : Format} {p : Nat} {arcs : List Arc} {a b : Arc}

def rowOf (f : Format) (a : Arc) : Row where
  key := a.first % f.prefixCells
  value := a.length

/-- The arcs are the rows of the table of prefix `p`. -/
structure Rows (f : Format) (p : Nat) (arcs : List Arc) : Prop where
  fits : ∀ a ∈ arcs, a.Fits f.level
  prefix_eq : ∀ a ∈ arcs, a.first / f.prefixCells = p
  past_le : ∀ a ∈ arcs, a.past ≤ f.prefixEnd a.first
  short : ∀ a ∈ arcs, a.length ≤ f.longest
  sorted : arcs.Pairwise Arc.Before

/-- The block holds the arcs as the table of prefix `p`. -/
inductive Holds (f : Format) (p : Nat) : List Arc → Block → Prop where
  | empty : Holds f p [] (.empty p)
  | populated {arcs : List Arc} {table : PackedTable} (nonempty : arcs ≠ [])
      (rows_eq : table.rows = (arcs.map (rowOf f)).toArray) :
      Holds f p arcs (.populated table {
        tablePrefix := p
        values := (SharedData.kept f (arcs.map Arc.value)).toArray })

theorem fits_rowOf (short : a.length ≤ f.longest) : (rowOf f a).Fits f.rowLayout where
  key_lt := Nat.mod_lt _ f.prefixCells_pos
  value_lt := by
    have : 0 < 2 ^ f.lengthBits := by positivity
    change a.length < 2 ^ f.lengthBits
    unfold Format.longest at short
    omega

namespace Rows

theorem mono {others : List Arc} (rows : Rows f p arcs) (part : others.Sublist arcs) :
    Rows f p others where
  fits := fun a member => rows.fits a (part.subset member)
  prefix_eq := fun a member => rows.prefix_eq a (part.subset member)
  past_le := fun a member => rows.past_le a (part.subset member)
  short := fun a member => rows.short a (part.subset member)
  sorted := rows.sorted.sublist part

theorem length_pos (rows : Rows f p arcs) (member : a ∈ arcs) : 0 < a.length :=
  Nat.sub_pos_of_lt (rows.fits a member).first_lt_past

theorem first_eq (rows : Rows f p arcs) (member : a ∈ arcs) :
    a.first = p * f.prefixCells + a.first % f.prefixCells := by
  rw [← rows.prefix_eq a member, Nat.div_add_mod']

/-- An arc in front of another ends before it when counted in suffixes, too. -/
theorem key_add_le (rows : Rows f p arcs) (a_member : a ∈ arcs) (b_member : b ∈ arcs)
    (before : a.Before b) : (rowOf f a).key + (rowOf f a).value ≤ (rowOf f b).key := by
  have := rows.first_eq a_member
  have := rows.first_eq b_member
  have := (rows.fits a a_member).first_lt_past
  have ordered : a.past ≤ b.first := before
  simp only [rowOf, Arc.length]
  omega

/-- An arc ends where its prefix ends or before. -/
theorem key_add_le_prefixCells (rows : Rows f p arcs) (member : a ∈ arcs) :
    (rowOf f a).key + (rowOf f a).value ≤ f.prefixCells := by
  have := rows.first_eq member
  have := (rows.fits a member).first_lt_past
  have past_le := rows.past_le a member
  rw [Format.prefixEnd, rows.prefix_eq a member, Nat.succ_mul] at past_le
  simp only [rowOf, Arc.length]
  omega

theorem length_le (rows : Rows f p arcs) : arcs.length ≤ f.prefixCells := by
  have bounded : ∀ (lo : Nat) (part : List Arc), part.Pairwise Arc.Before →
      (∀ a ∈ part, lo ≤ a.first ∧ a.first < a.past ∧ a.past ≤ (p + 1) * f.prefixCells) →
      part.length ≤ (p + 1) * f.prefixCells - lo := by
    intro lo part sorted inside
    induction part generalizing lo with
    | nil => exact Nat.zero_le _
    | cons a part ih =>
        obtain ⟨own, others⟩ := List.forall_mem_cons.1 inside
        obtain ⟨before, rest⟩ := List.pairwise_cons.1 sorted
        have shorter := ih a.past rest fun b member => ⟨before b member, (others b member).2⟩
        rw [List.length_cons]
        omega
  have all := bounded (p * f.prefixCells) arcs rows.sorted fun a member => by
    have past_le := rows.past_le a member
    rw [Format.prefixEnd, rows.prefix_eq a member] at past_le
    exact ⟨(rows.first_eq member).ge.trans' (Nat.le_add_right _ _),
      (rows.fits a member).first_lt_past, past_le⟩
  rwa [Nat.succ_mul, Nat.add_sub_cancel_left] at all

end Rows

/-! ## Writing -/

theorem pushRange_eq {r : CellRange} (placed : Partition.AtLevel f r) (rows : Rows f p [r.arc])
    (table : PackedTable) : pushRange f p table r =
      table.push (rowOf f r.arc).key (rowOf f r.arc).value := by
  have fits := r.fits_arc placed
  have short := rows.short r.arc List.mem_cons_self
  have nonempty : 0 < r.arc.length := Nat.sub_pos_of_lt fits.first_lt_past
  have prefix_eq := Partition.prefixOf_start placed
  rw [rows.prefix_eq r.arc List.mem_cons_self] at prefix_eq
  have length_eq : f.rangeLength r.start r.stop = .ok (r.arc.length : Int) := by
    rw [r.start_eq_nth placed, r.stop_eq_stopAt placed]
    exact f.rangeLength_eq fits (rows.past_le r.arc List.mem_cons_self)
  rw [pushRange, if_neg (not_not.2 prefix_eq), length_eq, Outcome.ok_bind,
    f.rowValue_eq nonempty short, Outcome.ok_bind, r.start_eq_nth placed, f.suffixOf_nth]
  rfl

theorem push_eq {table : PackedTable} {done : List Arc} (layout_eq : table.layout = f.rowLayout)
    (rows_eq : table.rows = (done.map (rowOf f)).toArray) (rows : Rows f p (done ++ [a])) :
    table.push (rowOf f a).key (rowOf f a).value =
      .ok { table with rows := ((done ++ [a]).map (rowOf f)).toArray } := by
  obtain ⟨key_lt, value_lt⟩ := fits_rowOf (rows.short a (by simp))
  rw [← layout_eq] at key_lt value_lt
  have admits : table.Admits (rowOf f a).key (rowOf f a).value := by
    refine ⟨⟨by omega, by exact_mod_cast key_lt⟩, ⟨by omega, by exact_mod_cast value_lt⟩, ?_⟩
    intro other last_row
    rw [rows_eq] at last_row
    obtain ⟨last, member, rfl⟩ := List.mem_map.1 (List.mem_toArray.1 (Array.mem_of_back? last_row))
    have before : last.Before a :=
      (List.pairwise_append.1 rows.sorted).2.2 last member a List.mem_cons_self
    have apart := rows.key_add_le (by simp [member]) (by simp) before
    have positive := rows.length_pos (List.mem_append_left [a] member)
    exact_mod_cast (Nat.lt_add_of_pos_right positive).trans_le apart
  rw [PackedTable.push_of_admits admits, rows_eq]
  simp

theorem foldlM_pushRange {ranges : List CellRange} (done : List Arc) (table : PackedTable)
    (placed : ∀ r ∈ ranges, Partition.AtLevel f r) (layout_eq : table.layout = f.rowLayout)
    (rows_eq : table.rows = (done.map (rowOf f)).toArray)
    (rows : Rows f p (done ++ ranges.map CellRange.arc)) :
    ranges.foldlM (pushRange f p) table =
      .ok { table with rows := ((done ++ ranges.map CellRange.arc).map (rowOf f)).toArray } := by
  induction ranges generalizing done table with
  | nil =>
      rw [List.map_nil, List.append_nil, ← rows_eq]
      rfl
  | cons r ranges ih =>
      obtain ⟨own, others⟩ := List.forall_mem_cons.1 placed
      rw [List.map_cons] at rows
      have front : (done ++ [r.arc]).Sublist (done ++ r.arc :: ranges.map CellRange.arc) :=
        List.Sublist.append_left (List.Sublist.cons_cons _ (List.nil_sublist _)) _
      have single : [r.arc].Sublist (done ++ r.arc :: ranges.map CellRange.arc) :=
        (List.sublist_append_right done [r.arc]).trans front
      rw [List.foldlM_cons, pushRange_eq own (rows.mono single),
        push_eq layout_eq rows_eq (rows.mono front), Outcome.ok_bind]
      rw [← List.singleton_append, ← List.append_assoc] at rows
      have rest := ih (done ++ [r.arc])
        { table with rows := ((done ++ [r.arc]).map (rowOf f)).toArray } others layout_eq rfl rows
      rw [rest, List.append_assoc, List.singleton_append, List.map_cons]

/-- Rows are never refused: making a table fails only when it cannot be stored. -/
theorem encode_eq {ranges : List CellRange} (placed : ∀ r ∈ ranges, Partition.AtLevel f r)
    (rows : Rows f p (ranges.map CellRange.arc)) : encode f p ranges = (do
      let shared ← SharedData.encode f {
        tablePrefix := p
        values := (ranges.map (·.value)).toArray }
      PackedTable.encode {
        layout := f.rowLayout
        shared
        rows := ((ranges.map CellRange.arc).map (rowOf f)).toArray }) := by
  have layout : RowLayout.of f.rowSize f.suffixBits = .ok f.rowLayout := f.rowLayout.of_self
  rw [encode]
  cases SharedData.encode f { tablePrefix := p, values := (ranges.map (·.value)).toArray } with
  | error fault => rw [Outcome.error_bind, Outcome.error_bind]
  | ok shared =>
      rw [Outcome.ok_bind, Outcome.ok_bind, layout, Outcome.ok_bind,
        foldlM_pushRange [] (.empty f.rowLayout shared) placed rfl rfl rows, Outcome.ok_bind]
      rfl

/-- What is refused then is a value without room or a number that does not fit its field. -/
theorem blames_encode {ranges : List CellRange} (placed : ∀ r ∈ ranges, Partition.AtLevel f r)
    (rows : Rows f p (ranges.map CellRange.arc)) :
    Blames {.argument, .overflow} (encode f p ranges) := by
  rw [encode_eq placed rows]
  refine .bind (SharedData.blames_encode _ _) fun shared _ => ?_
  exact (PackedTable.blames_encode _).mono (by simp)

/-- In formats whose numbers fit four bytes, a table is stored when its values have room. -/
theorem exists_encode {ranges : List CellRange} (placed : ∀ r ∈ ranges, Partition.AtLevel f r)
    (rows : Rows f p (ranges.map CellRange.arc)) (prefix_lt : p < 2 ^ 32)
    (suffixBits_le : f.suffixBits ≤ 28)
    (fitting : 0 < f.valueSize → ∀ r ∈ ranges, r.value ≤ f.greatestValue) :
    ∃ payload, encode f p ranges = .ok payload := by
  have few : ranges.length ≤ 2 ^ 28 := by
    have := rows.length_le
    rw [List.length_map] at this
    exact this.trans (Nat.pow_le_pow_right (by omega) suffixBits_le)
  obtain ⟨shared, shared_stored⟩ : ∃ shared, SharedData.encode f {
      tablePrefix := p, values := (ranges.map (·.value)).toArray } = .ok shared := by
    refine SharedData.exists_encode prefix_lt (by rw [List.length_map]; omega) ?_ ?_
    · intro v member
      obtain ⟨r, -, rfl⟩ := List.mem_map.1 member
      exact r.value_nonneg
    · intro room v member
      obtain ⟨r, r_member, rfl⟩ := List.mem_map.1 member
      exact fitting room r r_member
  have shared_length := SharedData.length_encode shared_stored
  have kept_le := SharedData.length_kept f (ranges.map (·.value))
  have width := f.valueSize_le
  have shared_lt : shared.length < 2 ^ 32 := by
    simp only [List.length_map] at kept_le
    have : (SharedData.kept f (ranges.map (·.value))).length * f.valueSize ≤ 2 ^ 28 * 4 :=
      Nat.mul_le_mul (by omega) width
    simp only [] at shared_length
    omega
  rw [encode_eq placed rows, shared_stored, Outcome.ok_bind]
  exact PackedTable.exists_encode shared_lt (by simp; omega)

/-- In formats with values a table is stored only when all its values have room. -/
theorem value_le_of_encode {ranges : List CellRange} {payload : List UInt8}
    (stored : encode f p ranges = .ok payload) (room : 0 < f.valueSize) :
    ∀ r ∈ ranges, r.value ≤ f.greatestValue := by
  obtain ⟨shared, shared_stored, -⟩ := Outcome.bind_eq_ok.1 stored
  intro r member
  exact SharedData.value_le_of_encode shared_stored room
    (by simpa using ⟨r, member, rfl⟩)

/-- A stored table has some bytes in front and at most twelve for each cell of its prefix. -/
theorem length_encode_le {ranges : List CellRange} {payload : List UInt8}
    (placed : ∀ r ∈ ranges, Partition.AtLevel f r) (rows : Rows f p (ranges.map CellRange.arc))
    (stored : encode f p ranges = .ok payload) : payload.length ≤ 20 + 12 * f.prefixCells := by
  have few := rows.length_le
  rw [List.length_map] at few
  rw [encode_eq placed rows] at stored
  obtain ⟨shared, shared_stored, table_stored⟩ := Outcome.bind_eq_ok.1 stored
  have shared_length := SharedData.length_encode shared_stored
  have kept_le := SharedData.length_kept f (ranges.map (·.value))
  have table_length := PackedTable.length_encode table_stored
  simp only [List.length_map] at kept_le
  have values : (SharedData.kept f (ranges.map (·.value))).length * f.valueSize ≤
      f.prefixCells * 4 := Nat.mul_le_mul (by omega) f.valueSize_le
  have keys : ranges.length * f.rowSize ≤ f.prefixCells * 8 := Nat.mul_le_mul few f.rowSize_le
  simp only [PackedTable.headerSize, List.size_toArray, List.length_map, Format.rowLayout]
    at table_length
  simp only [] at shared_length
  omega

/-! ## Reading -/

theorem load_eq {payload : List UInt8} {table : PackedTable} {shared : SharedData}
    (some_bytes : payload ≠ []) (table_read : PackedTable.decode payload = .ok table)
    (layout_eq : table.layout = f.rowLayout)
    (shared_read : SharedData.decode f table.shared = .ok shared)
    (count : shared.values.size = 0 ∨ shared.values.size = table.rows.size)
    (prefix_eq : shared.tablePrefix = p) (id : Int) :
    load f p id payload = .ok (.populated table shared) := by
  have layout_fits : ¬(table.layout.keyBits ≠ f.suffixBits ∨ table.layout.rowSize ≠ f.rowSize) := by
    rw [layout_eq]
    simp [Format.rowLayout]
  have counted : ¬(shared.values.size ≠ 0 ∧ shared.values.size ≠ table.rows.size) := by
    omega
  have decoded : decode f id payload = .ok (.populated table shared) := by
    rw [decode, if_neg (by simpa using some_bytes), table_read, Outcome.ok_bind,
      if_neg layout_fits]
    simp only [Outcome.pure_eq_ok, Outcome.ok_bind, shared_read]
    rw [if_neg counted]
  have placed : ¬(populated table shared).tablePrefix ≠ p := not_not.2 prefix_eq
  rw [load, if_neg (by simpa using some_bytes), decoded, Outcome.ok_bind, if_neg placed]
  rfl

/-- A table read back holds the arcs of the ranges it was made of. -/
theorem load_encode {ranges : List CellRange} {payload : List UInt8}
    (placed : ∀ r ∈ ranges, Partition.AtLevel f r)
    (rows : Rows f p (ranges.map CellRange.arc)) (nonempty : ranges ≠ [])
    (stored : encode f p ranges = .ok payload) : payload ≠ [] ∧
      ∃ b, (∀ id, load f p id payload = .ok b) ∧ Holds f p (ranges.map CellRange.arc) b := by
  rw [encode_eq placed rows] at stored
  obtain ⟨shared, shared_stored, table_stored⟩ := Outcome.bind_eq_ok.1 stored
  have shared_read := SharedData.decode_encode shared_stored
  have table_read := PackedTable.decode_encode (fun r member => by
    simp only [List.mem_toArray, List.mem_map] at member
    obtain ⟨a, ⟨s, s_member, rfl⟩, rfl⟩ := member
    exact fits_rowOf (rows.short s.arc (List.mem_map.2 ⟨s, s_member, rfl⟩))) table_stored
  have some_bytes : payload ≠ [] := by
    rintro rfl
    simp [PackedTable.decode, PackedTable.headerSize] at table_read
  have values_eq : ranges.map (·.value) = (ranges.map CellRange.arc).map Arc.value := by
    rw [List.map_map]
    rfl
  rw [values_eq] at shared_read
  refine ⟨some_bytes, _, load_eq some_bytes table_read rfl shared_read ?_ rfl,
    .populated (by simpa using nonempty) rfl⟩
  simpa using SharedData.length_kept f ((ranges.map CellRange.arc).map Arc.value)

end Block

end Geofence
