/-
# Geofence.Proofs.Table.Loaded -- tables of any bytes

A table is read from bytes that may say anything.  What reading checks makes it
sound (`Block.Sound`): it is the table of the prefix asked for, and it has a
value for every row or none at all.  Its rows may still stand in any order,
overlap or run past the prefix.  Nevertheless a search finds only a row whose
cells hold the cell searched for, and such a row is refused as corrupt or stands
for a range inside the prefix (`Block.rangeOf_sound`).
-/
import Geofence.Proofs.Partition.Cut
import Geofence.Proofs.Table.Packed
import Geofence.Proofs.Table.Search
import Geofence.Proofs.Table.SharedData

namespace Geofence

set_option autoImplicit false

namespace SharedData

variable {d : SharedData} {i : Nat}

theorem nonneg_readValues (size count : Nat) (bytes : List UInt8) {done : Array Int}
    (nonneg : ∀ v ∈ done, 0 ≤ v) : ∀ v ∈ readValues size count bytes done, 0 ≤ v := by
  induction count generalizing bytes done with
  | zero => exact nonneg
  | succ count ih =>
      refine ih _ fun v member => ?_
      rcases Array.mem_push.1 member with earlier | rfl
      · exact nonneg v earlier
      · exact Int.natCast_nonneg _

theorem nonneg_of_decode {f : Format} {data : List UInt8} (decoded : decode f data = .ok d) :
    ∀ v ∈ d.values, 0 ≤ v := by
  rw [(readFrom_of_decode decoded).values_eq]
  exact nonneg_readValues _ _ _ (by simp)

/-- There is a value for an index when there are no values, or enough. -/
theorem exists_value (counted : d.values.size = 0 ∨ i < d.values.size)
    (nonneg : ∀ v ∈ d.values, 0 ≤ v) : ∃ v, d.value i = .ok v ∧ 0 ≤ v := by
  unfold value
  by_cases without : d.values.size = 0
  · exact ⟨0, by simp [Array.size_eq_zero_iff.1 without], le_rfl⟩
  · have inside : i < d.values.size := counted.resolve_left without
    have some_values : ¬d.values.isEmpty = true := by simpa using without
    have forward : ¬(i : Int) < 0 := by omega
    have within : (0 : Int) ≤ i ∧ (i : Int) < d.values.size := by omega
    refine ⟨d.values[i], ?_, nonneg _ (Array.getElem_mem inside)⟩
    rw [if_neg some_values]
    simp only [if_neg forward]
    rw [dif_pos within]
    rfl

end SharedData

/-- The row counts some cells, and no more than there are from its key on in one prefix. -/
def Row.InPrefix (f : Format) (row : Row) : Prop :=
  0 < (f.lengthOfRowValue row.value).toNat ∧
    row.key + (f.lengthOfRowValue row.value).toNat ≤ f.prefixCells

namespace Block

/-- What is checked of the table of a prefix before its rows are looked at. -/
inductive Sound (p : Int) : Block → Prop where
  | empty : Sound p (.empty p)
  | populated {table : PackedTable} {shared : SharedData} (prefix_eq : shared.tablePrefix = p)
      (counted : shared.values.size = 0 ∨ shared.values.size = table.rows.size)
      (nonneg : ∀ v ∈ shared.values, 0 ≤ v) : Sound p (.populated table shared)

variable {f : Format} {p id : Int} {payload : List UInt8} {b : Block}

theorem Sound.tablePrefix_eq (sound : Sound p b) : b.tablePrefix = p := by
  cases sound with
  | empty => rfl
  | populated prefix_eq => exact prefix_eq

theorem blames_decode (some_bytes : payload.isEmpty = false) :
    Blames {.corrupt} (decode f id payload) := by
  rw [decode, if_neg (by simp [some_bytes])]
  refine .bind (PackedTable.blames_decode _) fun table _ => ?_
  dsimp only
  split
  · exact .error rfl
  refine .bind (SharedData.blames_decode _ _) fun shared _ => ?_
  split
  · exact .error rfl
  · exact .ok _

theorem blames_load (f : Format) (p id : Int) (payload : List UInt8) :
    Blames {.corrupt} (load f p id payload) := by
  unfold load
  split
  · exact .ok _
  · rename_i some_bytes
    refine .bind (blames_decode (by simpa using some_bytes)) fun b _ => ?_
    dsimp only
    split
    · exact .error rfl
    · exact .ok _

/-- The bytes are a table with rows of the format, and shared data: what reading looks at before it
compares the rows with the values. -/
structure PartsOf (f : Format) (payload : List UInt8) (table : PackedTable) (shared : SharedData) :
    Prop where
  table_read : PackedTable.decode payload = .ok table
  layout_eq : table.layout.keyBits = f.suffixBits ∧ table.layout.rowSize = f.rowSize
  shared_read : SharedData.decode f table.shared = .ok shared

variable {table : PackedTable} {shared : SharedData}

theorem parts_of_decode (decoded : decode f id payload = .ok b) : ∃ table shared,
    PartsOf f payload table shared ∧ b = .populated table shared ∧
      (shared.values.size = 0 ∨ shared.values.size = table.rows.size) := by
  unfold decode at decoded
  split at decoded
  · contradiction
  obtain ⟨table, table_read, decoded⟩ := Outcome.bind_eq_ok.1 decoded
  split at decoded
  · contradiction
  rename_i layout
  obtain ⟨-, -, decoded⟩ := Outcome.bind_eq_ok.1 decoded
  obtain ⟨shared, shared_read, decoded⟩ := Outcome.bind_eq_ok.1 decoded
  dsimp only at decoded
  split at decoded
  · contradiction
  · rename_i counted
    obtain rfl := Except.ok.inj decoded
    exact ⟨table, shared, ⟨table_read, by omega, shared_read⟩, rfl, by omega⟩

theorem sound_of_decode (decoded : decode f id payload = .ok b) : Sound b.tablePrefix b := by
  obtain ⟨table, shared, parts, rfl, counted⟩ := parts_of_decode decoded
  exact .populated rfl counted (SharedData.nonneg_of_decode parts.shared_read)

theorem sound_of_load (loaded : load f p id payload = .ok b) : Sound p b := by
  unfold load at loaded
  split at loaded
  · obtain rfl := Except.ok.inj loaded
    exact .empty
  · obtain ⟨c, decoded, loaded⟩ := Outcome.bind_eq_ok.1 loaded
    dsimp only at loaded
    split at loaded
    · contradiction
    · rename_i prefix_eq
      obtain rfl := Except.ok.inj loaded
      exact not_not.1 prefix_eq ▸ sound_of_decode decoded

/-! ## Rows -/

variable {k : Nat}

theorem Sound.exists_value {i : Nat} (sound : Sound p b) (inside : i < b.rows.size) :
    ∃ v, b.value i = .ok v ∧ 0 ≤ v := by
  cases sound with
  | empty => contradiction
  | populated _ counted nonneg =>
      exact SharedData.exists_value (counted.imp_right fun same => inside.trans_eq same.symm) nonneg

theorem Sound.rangeOf_of_not_inPrefix {p i : Nat} {row : Row} (sound : Sound p b)
    (bounded : p ≤ f.greatestPrefix) (stray : ¬row.InPrefix f) :
    ∃ fault, b.rangeOf f i row = .error fault ∧ fault.kind = .corrupt := by
  have whole : f.greatestSuffix + 1 = f.prefixCells := Nat.sub_add_cancel f.prefixCells_pos
  unfold Row.InPrefix at stray
  rw [Block.rangeOf]
  simp only [sound.tablePrefix_eq]
  generalize (f.lengthOfRowValue row.value).toNat = length at stray ⊢
  by_cases wide : f.greatestSuffix < row.key
  · exact ⟨_, by rw [if_pos wide]; rfl, rfl⟩
  rw [if_neg wide]
  by_cases zero : length = 0
  · exact ⟨_, by rw [if_pos zero]; rfl, rfl⟩
  have past : f.greatestSuffix + 1 < row.key + length := by omega
  rw [if_neg zero, f.cellOf_eq bounded (by omega), Outcome.ok_bind]
  exact ⟨_, by rw [if_pos past]; rfl, rfl⟩

/-- A row that counts cells of the prefix is refused only where its range is. -/
theorem Sound.rangeOf_of_inPrefix {p i : Nat} {row : Row} {stop : Cell} (sound : Sound p b)
    (bounded : p ≤ f.greatestPrefix) (inside : i < b.rows.size) (counted : row.InPrefix f)
    (stop_eq : (if row.key + (f.lengthOfRowValue row.value).toNat ≤ f.greatestSuffix then
        f.cellOf p ((row.key + (f.lengthOfRowValue row.value).toNat : Nat) : Int)
      else f.cellPastPrefix p) = .ok stop) :
    ∃ v, 0 ≤ v ∧ b.rangeOf f i row =
      CellRange.of (Cell.nth f.level (p * f.prefixCells + row.key)) stop v := by
  have whole : f.greatestSuffix + 1 = f.prefixCells := Nat.sub_add_cancel f.prefixCells_pos
  obtain ⟨v, value_read, nonneg⟩ := sound.exists_value inside
  obtain ⟨some_cells, within⟩ := counted
  refine ⟨v, nonneg, ?_⟩
  rw [Block.rangeOf]
  simp only [sound.tablePrefix_eq]
  generalize (f.lengthOfRowValue row.value).toNat = length at some_cells within stop_eq ⊢
  rw [if_neg (by omega), if_neg (by omega), f.cellOf_eq bounded (by omega), Outcome.ok_bind,
    if_neg (by omega)]
  cases sound with
  | empty => contradiction
  | populated =>
      change SharedData.value _ _ = _ at value_read
      by_cases ends : row.key + length ≤ f.greatestSuffix
      · rw [if_pos ends] at stop_eq ⊢
        simp only [stop_eq, Outcome.ok_bind, value_read]
      · rw [if_neg ends] at stop_eq ⊢
        simp only [stop_eq, Outcome.ok_bind, value_read]

/-- A row of a sound table is corrupt, or stands for the range of the cells that it counts, all of
them in the prefix of the table. -/
theorem Sound.rangeOf {p i : Nat} (sound : Sound p b) (live : p < Partition.livePrefixes f)
    (inside : i < b.rows.size) (row : Row) :
    (∃ fault, b.rangeOf f i row = .error fault ∧ fault.kind = .corrupt) ∨
      ∃ q, b.rangeOf f i row = .ok q ∧ Partition.AtLevel f q ∧
        q.arc.first = p * f.prefixCells + row.key ∧
        q.arc.past = q.arc.first + (f.lengthOfRowValue row.value).toNat ∧
        q.arc.past ≤ (p + 1) * f.prefixCells := by
  have bounded := f.livePrefix_le_greatestPrefix live
  by_cases counted : row.InPrefix f
  · right
    obtain ⟨v, nonneg, range_eq⟩ := sound.rangeOf_of_inPrefix bounded inside counted
      (f.stop_eq live counted.2)
    obtain ⟨some_cells, within⟩ := counted
    generalize (f.lengthOfRowValue row.value).toNat = length at some_cells within range_eq ⊢
    rw [range_eq]
    have upper : p * f.prefixCells + (row.key + length) ≤ (p + 1) * f.prefixCells := by
      rw [Nat.succ_mul]
      omega
    obtain ⟨q, made, placed, arc_eq⟩ := CellRange.exists_of_arc f.level_le (f.fits_of_prefix
        (a := ⟨p * f.prefixCells + row.key, p * f.prefixCells + (row.key + length), v⟩)
        live (Nat.le_add_right _ _) (by dsimp only; omega) upper nonneg)
    exact ⟨q, made, placed, by rw [arc_eq], by rw [arc_eq, Nat.add_assoc], by rwa [arc_eq]⟩
  · exact Or.inl (sound.rangeOf_of_not_inPrefix bounded counted)

/-- The search for a cell of the prefix ends on no row, or on one whose cells hold the cell. -/
theorem Sound.find {p : Nat} (sound : Sound p b) (cell : k < Cell.count f.level)
    (placed : k / f.prefixCells = p) :
    b.find f (Cell.nth f.level k) = .ok none ∨
      ∃ (i : Nat) (row : Row), b.find f (Cell.nth f.level k) = .ok (some i) ∧ i < b.rows.size ∧
        b.row i = .ok row ∧ p * f.prefixCells + row.key ≤ k ∧
        k < p * f.prefixCells + row.key + (f.lengthOfRowValue row.value).toNat := by
  have valid : Cell.validate (Cell.nth f.level k) = .ok (Cell.nth f.level k) := by
    rw [Cell.validate, if_pos (Cell.isValid_nth f.level_le cell)]
  have depth_eq := Cell.depth_nth f.level_le k
  have prefix_eq : f.prefixOf (Cell.nth f.level k) = b.tablePrefix := by
    rw [f.prefixOf_nth, placed, sound.tablePrefix_eq]
  have split := Nat.div_add_mod' k f.prefixCells
  rw [placed] at split
  unfold Block.find
  rw [valid, Outcome.ok_bind, if_neg (not_not.2 depth_eq), if_neg (not_not.2 prefix_eq)]
  cases sound with
  | empty => exact Or.inl rfl
  | @populated table _ _ _ _ =>
      cases outcome : (table.search
          (.span (fun v => f.lengthOfRowValue v) (f.suffixOf (Cell.nth f.level k)))).found with
      | none => exact Or.inl (by simp only [outcome]; rfl)
      | some i =>
          obtain ⟨below, accepted⟩ := Search.accepted_of_found outcome
          rw [Guide.span_eq_eq_iff, f.suffixOf_nth] at accepted
          refine Or.inr ⟨i, table.rows[i], by simp only [outcome]; rfl, below, ?_, by omega,
            by omega⟩
          exact dif_pos (by omega)

end Block

end Geofence
