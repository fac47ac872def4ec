/-
# Geofence.Proofs.Table.Offers -- tables filled row by row, and read back

A table is filled by offering it rows one after the other.  It takes a row whose
key and value have room and whose key is greater than the last one taken, and is
left as it is by any other.  What was taken is what is read back from the bytes
of the table, in order; and a table that was read, if its keys ascend, takes all
of its rows again and then has the bytes it was read from (`offers_read_back`).
-/
import Geofence.Proofs.Table.Packed

namespace Geofence

set_option autoImplicit false

def Row.pair (r : Row) : Int × Int :=
  (r.key, r.value)

namespace PackedTable

/-- A row is offered: whether it was taken, and the table behind the offer. -/
def offer (t : PackedTable) (pair : Int × Int) : Except Fault Unit × PackedTable :=
  match t.push pair.1 pair.2 with
  | .ok u => (.ok (), u)
  | .error fault => (.error fault, t)

/-- The table behind a run of offers. -/
def afterOffers (t : PackedTable) (pairs : List (Int × Int)) : PackedTable :=
  pairs.foldl (fun u pair => (u.offer pair).2) t

/-- The rows of a run of offers that were taken. -/
def taken (t : PackedTable) : List (Int × Int) → List (Int × Int)
  | [] => []
  | pair :: rest =>
    match (t.offer pair).1 with
    | .ok _ => pair :: (t.offer pair).2.taken rest
    | .error _ => (t.offer pair).2.taken rest

/-- The rows of a table have room, and their keys ascend. -/
structure Orderly (t : PackedTable) : Prop where
  fits : ∀ r ∈ t.rows, r.Fits t.layout
  ascending : t.rows.toList.Pairwise fun r s => r.key < s.key

variable {t : PackedTable} {pair : Int × Int} {pairs : List (Int × Int)} {l : RowLayout}
  {shared : List UInt8}

/-! ## One offer -/

theorem offer_of_admits (admits : t.Admits pair.1 pair.2) :
    t.offer pair =
      (.ok (), { t with rows := t.rows.push ⟨pair.1.toNat, pair.2.toNat⟩ }) := by
  rw [offer, push_of_admits admits]

theorem offer_refused (not_admitted : ¬t.Admits pair.1 pair.2) :
    ∃ fault, t.offer pair = (.error fault, t) := by
  obtain ⟨fault, refused⟩ := push_refused not_admitted
  exact ⟨fault, by rw [offer, refused]⟩

theorem refused_iff : (∃ fault, (t.offer pair).1 = .error fault) ↔ ¬t.Admits pair.1 pair.2 := by
  constructor
  · rintro ⟨fault, refused⟩ admits
    rw [offer_of_admits admits] at refused
    contradiction
  · intro not_admitted
    obtain ⟨fault, refused⟩ := offer_refused not_admitted
    exact ⟨fault, by rw [refused]⟩

theorem not_admits_iff : ¬t.Admits pair.1 pair.2 ↔
    ¬(0 ≤ pair.1 ∧ pair.1 < 2 ^ t.layout.keyBits) ∨
      ¬(0 ≤ pair.2 ∧ pair.2 < 2 ^ t.layout.valueBits) ∨
      ∃ last ∈ t.rows.back?, pair.1 ≤ last.key := by
  constructor
  · intro not_admitted
    by_contra none_of_them
    rw [not_or, not_or, not_not, not_not] at none_of_them
    obtain ⟨key_range, value_range, no_greater⟩ := none_of_them
    refine not_admitted ⟨key_range, value_range, ?_⟩
    intro last last_row
    by_contra below
    exact no_greater ⟨last, last_row, not_lt.1 below⟩
  · rintro (outside | outside | ⟨last, last_row, below⟩) admits
    · exact outside admits.key_range
    · exact outside admits.value_range
    · have := admits.ascending last last_row
      omega

/-- The row that was taken is the last of the table. -/
theorem pairs_offer (admits : t.Admits pair.1 pair.2) :
    (t.offer pair).2.rows.toList.map Row.pair = t.rows.toList.map Row.pair ++ [pair] := by
  have same : Row.pair ⟨pair.1.toNat, pair.2.toNat⟩ = pair := by
    rw [Row.pair, Int.toNat_of_nonneg admits.key_range.1, Int.toNat_of_nonneg admits.value_range.1]
  rw [offer_of_admits admits]
  simp [same]

theorem Orderly.key_le_last (orderly : t.Orderly) {r last : Row} (member : r ∈ t.rows)
    (last_row : t.rows.back? = some last) : r.key ≤ last.key := by
  rw [← Array.getLast?_toList, List.getLast?_eq_some_iff] at last_row
  obtain ⟨earlier, rows_eq⟩ := last_row
  have ascending := orderly.ascending
  rw [rows_eq, List.pairwise_append] at ascending
  rw [← Array.mem_toList_iff, rows_eq, List.mem_append] at member
  rcases member with before | same
  · exact (ascending.2.2 r before last (List.mem_singleton_self _)).le
  · rw [List.mem_singleton.1 same]

theorem Orderly.offer (orderly : t.Orderly) : (t.offer pair).2.Orderly := by
  by_cases admits : t.Admits pair.1 pair.2
  · rw [offer_of_admits admits]
    obtain ⟨key_nonneg, key_lt⟩ := admits.key_range
    obtain ⟨value_nonneg, value_lt⟩ := admits.value_range
    constructor
    · intro r member
      rcases Array.mem_push.1 member with earlier | rfl
      · exact orderly.fits r earlier
      · exact ⟨by zify; rwa [Int.toNat_of_nonneg key_nonneg],
          by zify; rwa [Int.toNat_of_nonneg value_nonneg]⟩
    · rw [Array.toList_push, List.pairwise_append]
      refine ⟨orderly.ascending, List.pairwise_singleton _ _, ?_⟩
      intro r member s new
      rw [List.mem_singleton.1 new]
      rw [Array.mem_toList_iff] at member
      cases last_row : t.rows.back? with
      | none => simp [Array.back?_eq_none_iff.1 last_row] at member
      | some last =>
          have := orderly.key_le_last member last_row
          have := admits.ascending last last_row
          dsimp only
          omega
  · obtain ⟨fault, refused⟩ := offer_refused admits
    rwa [refused]

/-! ## A run of offers -/

theorem layout_offer : (t.offer pair).2.layout = t.layout := by
  by_cases admits : t.Admits pair.1 pair.2
  · rw [offer_of_admits admits]
  · obtain ⟨fault, refused⟩ := offer_refused admits
    rw [refused]

theorem shared_offer : (t.offer pair).2.shared = t.shared := by
  by_cases admits : t.Admits pair.1 pair.2
  · rw [offer_of_admits admits]
  · obtain ⟨fault, refused⟩ := offer_refused admits
    rw [refused]

theorem layout_afterOffers : (t.afterOffers pairs).layout = t.layout := by
  induction pairs generalizing t with
  | nil => rfl
  | cons pair pairs ih => exact ih.trans layout_offer

theorem shared_afterOffers : (t.afterOffers pairs).shared = t.shared := by
  induction pairs generalizing t with
  | nil => rfl
  | cons pair pairs ih => exact ih.trans shared_offer

theorem Orderly.afterOffers (orderly : t.Orderly) : (t.afterOffers pairs).Orderly := by
  induction pairs generalizing t with
  | nil => exact orderly
  | cons pair pairs ih => exact ih orderly.offer

/-- Behind a run of offers the table has the rows that were taken, in order. -/
theorem pairs_afterOffers : (t.afterOffers pairs).rows.toList.map Row.pair =
    t.rows.toList.map Row.pair ++ t.taken pairs := by
  induction pairs generalizing t with
  | nil => simp [afterOffers, taken]
  | cons pair pairs ih =>
      have rest : (t.afterOffers (pair :: pairs)).rows.toList.map Row.pair =
          (t.offer pair).2.rows.toList.map Row.pair ++ (t.offer pair).2.taken pairs := ih
      rw [rest, taken]
      by_cases admits : t.Admits pair.1 pair.2
      · rw [pairs_offer admits, offer_of_admits admits]
        simp
      · obtain ⟨fault, refused⟩ := offer_refused admits
        rw [refused]

/-- A table takes rows that have room and go on with ascending keys. -/
theorem taken_of_orderly {rows : List Row}
    (orderly : Orderly { t with rows := t.rows ++ rows.toArray }) :
    t.taken (rows.map Row.pair) = rows.map Row.pair ∧
      t.afterOffers (rows.map Row.pair) = { t with rows := t.rows ++ rows.toArray } := by
  induction rows generalizing t with
  | nil => simp [taken, afterOffers]
  | cons r rows ih =>
      obtain ⟨key_lt, value_lt⟩ := orderly.fits r (by simp)
      have ascending := orderly.ascending
      simp only [Array.toList_append, List.pairwise_append] at ascending
      have admits : t.Admits r.key r.value := by
        refine ⟨⟨Int.natCast_nonneg _, by exact_mod_cast key_lt⟩,
          ⟨Int.natCast_nonneg _, by exact_mod_cast value_lt⟩, ?_⟩
        intro last last_row
        exact_mod_cast ascending.2.2 last (by simpa using Array.mem_of_back? last_row) r (by simp)
      have taken_row : t.offer r.pair = (.ok (), { t with rows := t.rows.push r }) :=
        offer_of_admits admits
      have rows_eq : t.rows.push r ++ rows.toArray = t.rows ++ (r :: rows).toArray := by
        apply Array.toList_inj.1
        simp
      have rest := ih (t := { t with rows := t.rows.push r }) (by rwa [rows_eq])
      rw [rows_eq] at rest
      constructor
      · rw [List.map_cons, taken, taken_row, rest.1]
      · rw [← rest.2, List.map_cons, afterOffers, List.foldl_cons, taken_row]
        rfl

/-! ## Bytes and rows -/

theorem orderly_empty (l : RowLayout) (shared : List UInt8) : (empty l shared).Orderly :=
  ⟨by simp [empty], List.Pairwise.nil⟩

/-- A table that was empty has the rows that were taken. -/
theorem pairs_filled : ((empty l shared).afterOffers pairs).rows.toList.map Row.pair =
    (empty l shared).taken pairs :=
  pairs_afterOffers

theorem last_filled : ((empty l shared).taken pairs).getLast? =
    ((empty l shared).afterOffers pairs).rows.back?.map Row.pair := by
  rw [← pairs_filled, List.getLast?_map, Array.getLast?_toList]

/-- A table without rows takes those of another, if they have room and their keys ascend, and is
then the other. -/
theorem refilled_of_orderly (orderly : t.Orderly) :
    (empty t.layout t.shared).taken (t.rows.toList.map Row.pair) = t.rows.toList.map Row.pair ∧
      (empty t.layout t.shared).afterOffers (t.rows.toList.map Row.pair) = t := by
  have whole : { empty t.layout t.shared with
      rows := (empty t.layout t.shared).rows ++ t.rows.toList.toArray } = t := by
    simp [empty]
  rw [← whole] at orderly
  obtain ⟨all, after_eq⟩ := taken_of_orderly orderly
  exact ⟨all, after_eq.trans whole⟩

/-- Tables and their bytes. A table filled by offers is stored when its two counts fit, and then is
read with the layout, the shared bytes and the rows that were taken, in order and with ascending
keys; it refuses just the rows that have no room or do not go on with a greater key, and is left as
it is. A table that was read, with ascending keys and zeros where the header says nothing, takes all
of its rows again and is stored in the bytes it was read from. -/
theorem offers_read_back :
    (∀ (l : RowLayout) (shared : List UInt8) (pairs : List (Int × Int)),
      ((∃ bytes, ((empty l shared).afterOffers pairs).encode = .ok bytes) ↔
        shared.length < 2 ^ 32 ∧ ((empty l shared).taken pairs).length < 2 ^ 32) ∧
      (∀ bytes, ((empty l shared).afterOffers pairs).encode = .ok bytes →
        ∃ t, decode bytes = .ok t ∧ t.layout = l ∧ t.shared = shared ∧
          t.rows.toList.map Row.pair = (empty l shared).taken pairs) ∧
      (((empty l shared).taken pairs).Pairwise fun x y => x.1 < y.1) ∧
      ∀ key value,
        ((∃ fault, (((empty l shared).afterOffers pairs).offer (key, value)).1 = .error fault) ↔
          ¬(0 ≤ key ∧ key < 2 ^ l.keyBits) ∨ ¬(0 ≤ value ∧ value < 2 ^ l.valueBits) ∨
            ∃ last ∈ ((empty l shared).taken pairs).getLast?, key ≤ last.1) ∧
        ((∃ fault, (((empty l shared).afterOffers pairs).offer (key, value)).1 = .error fault) →
          (((empty l shared).afterOffers pairs).offer (key, value)).2 =
            (empty l shared).afterOffers pairs)) ∧
    ∀ (data : List UInt8) (t : PackedTable), decode data = .ok t →
      (t.rows.toList.Pairwise fun r s => r.key < s.key) → (data.drop 2).take 2 = [0, 0] →
      (empty t.layout t.shared).taken (t.rows.toList.map Row.pair) = t.rows.toList.map Row.pair ∧
      ((empty t.layout t.shared).afterOffers (t.rows.toList.map Row.pair)).encode = .ok data := by
  constructor
  · intro l shared pairs
    have rows_eq : ((empty l shared).afterOffers pairs).rows.toList.map Row.pair = _ :=
      pairs_filled
    have layout_eq : ((empty l shared).afterOffers pairs).layout = l := layout_afterOffers
    have shared_eq : ((empty l shared).afterOffers pairs).shared = shared := shared_afterOffers
    have orderly : ((empty l shared).afterOffers pairs).Orderly :=
      (orderly_empty l shared).afterOffers
    rw [last_filled, ← rows_eq]
    -- how the table was filled does not matter from here on
    generalize (empty l shared).afterOffers pairs = t at *
    refine ⟨?_, ?_, ?_, ?_⟩
    · simp [exists_encode_iff, shared_eq]
    · intro bytes stored
      exact ⟨t, decode_encode orderly.fits stored, layout_eq, shared_eq, rfl⟩
    · rw [List.pairwise_map]
      exact orderly.ascending.imp fun less => Int.ofNat_lt.2 less
    · intro key value
      constructor
      · rw [refused_iff, not_admits_iff, layout_eq]
        simp [Row.pair]
      · intro refused
        obtain ⟨fault, unchanged⟩ := offer_refused (refused_iff.1 refused)
        rw [unchanged]
  · intro data t read ascending blank
    obtain ⟨all, refilled⟩ := refilled_of_orderly ⟨fits_of_decode read, ascending⟩
    rw [refilled]
    exact ⟨all, encode_decode read blank⟩

/-- Rows of eight bytes with a key of one bit and a value of 63. -/
def widest : RowLayout :=
  (RowLayout.of 8 1).toOption.get (by decide)

/-- Of five rows the first and the last are taken: the key of the second is that of the first, the
value of the third is too great by one, and the key of the fourth has no room. The two are read
back from the bytes, and offered again give the same bytes. -/
theorem offers_read_back_widest :
    ∃ bytes t, ((empty widest [7]).afterOffers
        [(0, 2 ^ 63 - 1), (0, 5), (1, 2 ^ 63), (2, 0), (1, 7)]).encode = .ok bytes ∧
      decode bytes = .ok t ∧ t.layout = widest ∧ t.shared = [7] ∧
      t.rows.toList.map Row.pair = [(0, 2 ^ 63 - 1), (1, 7)] ∧
      ((empty widest [7]).afterOffers [(0, 2 ^ 63 - 1), (1, 7)]).encode = .ok bytes := by
  obtain ⟨filled, refilled⟩ := offers_read_back
  obtain ⟨-, read_back, ascending, -⟩ := filled widest [7]
    [(0, 2 ^ 63 - 1), (0, 5), (1, 2 ^ 63), (2, 0), (1, 7)]
  have taken_eq : (empty widest [7]).taken
      [(0, 2 ^ 63 - 1), (0, 5), (1, 2 ^ 63), (2, 0), (1, 7)] = [(0, 2 ^ 63 - 1), (1, 7)] := by
    decide +kernel
  have stored : ((empty widest [7]).afterOffers
      [(0, 2 ^ 63 - 1), (0, 5), (1, 2 ^ 63), (2, 0), (1, 7)]).encode =
        .ok [8, 1, 0, 0, 0, 0, 0, 1, 0, 0, 0, 2, 7,
          127, 255, 255, 255, 255, 255, 255, 255, 128, 0, 0, 0, 0, 0, 0, 7] := by
    decide +kernel
  obtain ⟨t, read, layout_eq, shared_eq, rows_eq⟩ := read_back _ stored
  have keys : (t.rows.toList.map Row.pair).Pairwise fun x y => x.1 < y.1 := rows_eq ▸ ascending
  rw [List.pairwise_map] at keys
  obtain ⟨-, again⟩ := refilled _ t read (keys.imp fun less => Int.ofNat_lt.1 less) rfl
  rw [taken_eq] at rows_eq
  rw [rows_eq, layout_eq, shared_eq] at again
  exact ⟨_, t, stored, read, layout_eq, shared_eq, rows_eq, again⟩

end PackedTable

end Geofence
