import CryptoLakehouse.LibraryPartialMap
import CryptoLakehouse.WarehouseBronze
import Mathlib.Data.List.Sort
import Mathlib.Data.Rat.Floor
import Mathlib.Tactic.Linarith
import Mathlib.Tactic.NormNum

/-! `silver.stg_trades` (`dbt/models/silver/stg_trades.sql`). A cast that fails makes the whole run fail,
which leaves the table as it was; columns that may be NULL are options. -/

namespace CryptoLakehouse

/-- `::numeric(18, 8)`: half away from zero at the eighth digit, at most ten digits before the point. -/
def numeric18_8 (x : ℚ) : Option ℚ :=
  let digits : Int := if 0 ≤ x then (x * 10 ^ 8 + 1 / 2).floor else -(-x * 10 ^ 8 + 1 / 2).floor
  if digits.natAbs < 10 ^ 18 then some (digits / 10 ^ 8) else none

/-- Rounding to the nearest integer leaves integers alone. -/
theorem floor_intCast_add_half (n : Int) : ((n : ℚ) + 1 / 2).floor = n := by
  refine le_antisymm (Int.lt_add_one_iff.mp (Rat.floor_lt_iff.mpr ?_)) (Rat.le_floor_iff.mpr ?_)
  · push_cast
    linarith
  · linarith

/-- The numbers that the cast keeps: whole multiples of the eighth decimal digit below `10 ^ 10`. -/
theorem numeric18_8_eq_self_iff (x : ℚ) :
    numeric18_8 x = some x ↔ ∃ n : Int, x = n / 10 ^ 8 ∧ n.natAbs < 10 ^ 18 := by
  constructor
  · intro h
    rw [numeric18_8] at h
    split_ifs at h with hsign hfits hfits
    · exact ⟨_, (Option.some.inj h).symm, hfits⟩
    · exact ⟨_, (Option.some.inj h).symm, hfits⟩
  · rintro ⟨n, rfl, hfits⟩
    have hscaled : (n : ℚ) / 10 ^ 8 * 10 ^ 8 = n := div_mul_cancel₀ _ (by norm_num)
    have hneg : -((n : ℚ) / 10 ^ 8) * 10 ^ 8 = ((-n : Int) : ℚ) := by rw [neg_mul, hscaled, Int.cast_neg]
    rw [numeric18_8]
    simp only [hscaled, hneg, floor_intCast_add_half, neg_neg, ite_self, if_pos hfits]

/-- `'1900-01-01'::timestamptz` -/
def EPOCH_1900 : Instant := -2208988800000000

structure SilverTrade where
  tradeId : String
  price : Option ℚ
  size : Option ℚ
  side : Option String
  tradedAt : Option Instant
  ingestedAt : Instant
  deriving DecidableEq

variable (pg : Postgres)

/-- `(payload ->> key)::numeric(18, 8)` -/
def numericAt (payload : Dict) (key : String) : Option (Option ℚ) :=
  match pg.textAt payload key with
  | none => some none
  | some text => (pg.numericIn text).bind fun x => (numeric18_8 x).map some

/-- `(payload ->> key)::timestamptz` -/
def timestamptzAt (payload : Dict) (key : String) : Option (Option Instant) :=
  match pg.textAt payload key with
  | none => some none
  | some text => (pg.timestamptzIn text).map some

/-- The CTE `source_data`; `since` is the incremental filter's watermark. -/
def sourceData (since : Option Instant) (bronze : Bronze) : Bronze :=
  bronze.filter fun row => row.tradeId pg ≠ none ∧ ∀ watermark ∈ since, watermark < row.receivedAt

/-- The CTE `parsed`. Behind `source_data` the trade id is not NULL. -/
def parsed (row : RawTrade) : Option SilverTrade := do
  let tradeId ← row.tradeId pg
  let price ← numericAt pg row.payload "price"
  let size ← numericAt pg row.payload "size"
  let tradedAt ← timestamptzAt pg row.payload "time"
  some ⟨tradeId, price, size, pg.textAt row.payload "side", tradedAt, row.receivedAt⟩

/-- The CTE `deduped` with `row_num = 1`: per trade id the first row in the order of `ingested_at desc`. -/
def deduped (rows : List SilverTrade) : List SilverTrade :=
  KeyedTable.insertAbsent (fun row => some row.tradeId) []
    (rows.insertionSort fun row row' => row'.ingestedAt ≤ row.ingestedAt)

def stgTrades (since : Option Instant) (bronze : Bronze) : Option (List SilverTrade) :=
  ((sourceData pg since bronze).mapM (parsed pg)).map deduped

/-- `coalesce(max(ingested_at), '1900-01-01'::timestamptz)` -/
def watermark (silver : List SilverTrade) : Instant :=
  ((silver.map SilverTrade.ingestedAt).max?).getD EPOCH_1900

/-- One `dbt run` of the model: a full build when the table is absent, else the incremental one. -/
def runStgTrades (silver : Option (List SilverTrade)) (bronze : Bronze) : Option (List SilverTrade) :=
  match silver with
  | none => stgTrades pg none bronze
  | some table =>
      (stgTrades pg (some (watermark table)) bronze).map (KeyedTable.replaceByKey SilverTrade.tradeId table)

section Lemmas

variable {pg}

@[simp] theorem mem_sourceData {since : Option Instant} {bronze : Bronze} {row : RawTrade} :
    row ∈ sourceData pg since bronze ↔
      row ∈ bronze ∧ row.tradeId pg ≠ none ∧ ∀ watermark ∈ since, watermark < row.receivedAt := by
  simp [sourceData]

theorem parsed_columns {row : RawTrade} {x : SilverTrade} (h : parsed pg row = some x) :
    row.tradeId pg = some x.tradeId ∧ x.ingestedAt = row.receivedAt := by
  simp only [parsed, Option.bind_eq_bind, Option.bind_eq_some_iff, Option.some.injEq] at h
  obtain ⟨tradeId, hid, price, -, size, -, tradedAt, -, rfl⟩ := h
  exact ⟨hid, rfl⟩

theorem parsed_tradeId {row : RawTrade} {x : SilverTrade} (h : parsed pg row = some x) :
    row.tradeId pg = some x.tradeId := (parsed_columns h).1

theorem parsed_ingestedAt {row : RawTrade} {x : SilverTrade} (h : parsed pg row = some x) :
    x.ingestedAt = row.receivedAt := (parsed_columns h).2

/-- Without shared trade ids `row_num = 1` keeps every row. -/
theorem deduped_perm {rows : List SilverTrade} (h : (rows.map SilverTrade.tradeId).Nodup) :
    (deduped rows).Perm rows := by
  have hsort := List.perm_insertionSort (fun row row' : SilverTrade => row'.ingestedAt ≤ row.ingestedAt) rows
  have hunique : KeyedTable.KeyUnique (fun row : SilverTrade => some row.tradeId)
      ([] ++ rows.insertionSort fun row row' => row'.ingestedAt ≤ row.ingestedAt) := by
    rw [KeyedTable.KeyUnique, List.nil_append]
    have hmap : ∀ l : List SilverTrade, l.filterMap (fun row => some row.tradeId) = l.map SilverTrade.tradeId :=
      fun l => congrFun (List.filterMap_eq_map (f := SilverTrade.tradeId)) l
    rw [hmap]
    exact (hsort.map SilverTrade.tradeId).nodup_iff.mpr h
  rw [deduped, KeyedTable.insertAbsent_eq_append _ hunique, List.nil_append]
  exact hsort

/-- The table holds exactly what the trades among the rows parse to, one row for each trade id. -/
structure Mirrors (pg : Postgres) (rows : Bronze) (silver : List SilverTrade) : Prop where
  ids : (silver.map SilverTrade.tradeId).Nodup
  mem : ∀ x, x ∈ silver ↔ ∃ row ∈ rows, parsed pg row = some x
  casts : ∀ row ∈ rows, row.tradeId pg ≠ none → (parsed pg row).isSome

theorem mirrors_stgTrades {since : Option Instant} {bronze : Bronze} {table : List SilverTrade}
    (hunique : KeyedTable.KeyUnique (RawTrade.tradeId pg) bronze)
    (h : stgTrades pg since bronze = some table) : Mirrors pg (sourceData pg since bronze) table := by
  obtain ⟨rows, hrows, rfl⟩ := Option.map_eq_some_iff.mp h
  have hids : (rows.map SilverTrade.tradeId).Nodup := by
    rw [PartialMap.map_key_of_mapM (fun _ _ => parsed_tradeId) hrows]
    exact hunique.sublist (List.filter_sublist.filterMap _)
  have hperm := deduped_perm hids
  exact ⟨(hperm.map _).nodup_iff.mpr hids, fun x => hperm.mem_iff.trans (PartialMap.mem_of_mapM hrows),
    fun row hrow _ => PartialMap.isSome_of_mapM hrows row hrow⟩

/-- A full refresh reflects the whole of bronze. -/
theorem mirrors_sourceData {bronze : Bronze} {table : List SilverTrade} :
    Mirrors pg (sourceData pg none bronze) table ↔ Mirrors pg bronze table := by
  have hmem : ∀ row, row ∈ sourceData pg none bronze ↔ row ∈ bronze ∧ row.tradeId pg ≠ none := by simp
  have hparsed : ∀ x, (∃ row ∈ sourceData pg none bronze, parsed pg row = some x) ↔
      ∃ row ∈ bronze, parsed pg row = some x := by
    refine fun x => exists_congr fun row => ?_
    rw [hmem, and_assoc]
    refine and_congr_right fun _ => and_iff_right_of_imp fun hx => ?_
    rw [parsed_tradeId hx]
    exact Option.some_ne_none _
  constructor
  · exact fun h => ⟨h.ids, fun x => (h.mem x).trans (hparsed x),
      fun row hrow hid => h.casts row ((hmem row).mpr ⟨hrow, hid⟩) hid⟩
  · exact fun h => ⟨h.ids, fun x => (h.mem x).trans (hparsed x).symm,
      fun row hrow hid => h.casts row ((hmem row).mp hrow).1 hid⟩

theorem mirrors_iff_perm {bronze : Bronze} {table : List SilverTrade}
    (hunique : KeyedTable.KeyUnique (RawTrade.tradeId pg) bronze) :
    Mirrors pg bronze table ↔ ∃ full, stgTrades pg none bronze = some full ∧ table.Perm full := by
  constructor
  · intro h
    have hcasts : ∀ row ∈ sourceData pg none bronze, (parsed pg row).isSome := fun row hrow =>
      h.casts row (mem_sourceData.mp hrow).1 (mem_sourceData.mp hrow).2.1
    obtain ⟨rows, hrows⟩ := PartialMap.exists_mapM hcasts
    have hfull : stgTrades pg none bronze = some (deduped rows) := by rw [stgTrades, hrows, Option.map_some]
    have hmirrors := mirrors_sourceData.mp (mirrors_stgTrades hunique hfull)
    refine ⟨_, hfull, (List.perm_ext_iff_of_nodup h.ids.of_map hmirrors.ids.of_map).mpr fun x => ?_⟩
    rw [h.mem, hmirrors.mem]
  · rintro ⟨full, hfull, hperm⟩
    have hmirrors := mirrors_sourceData.mp (mirrors_stgTrades hunique hfull)
    exact ⟨(hperm.map _).nodup_iff.mpr hmirrors.ids, fun x => hperm.mem_iff.trans (hmirrors.mem x),
      hmirrors.casts⟩

theorem le_watermark {silver : List SilverTrade} {x : SilverTrade} (h : x ∈ silver) :
    x.ingestedAt ≤ watermark silver := by
  obtain ⟨m, hm⟩ := Option.isSome_iff_exists.mp
    (List.isSome_max?_of_mem (List.mem_map_of_mem (f := SilverTrade.ingestedAt) h))
  rw [watermark, hm, Option.getD_some]
  exact List.max?_eq_some_iff.mp hm |>.2 _ (List.mem_map_of_mem h)

/-- An incremental run never lowers the watermark. -/
theorem watermark_replaceByKey {table rows : List SilverTrade}
    (h : ∀ x ∈ rows, watermark table < x.ingestedAt) :
    watermark table ≤ watermark (KeyedTable.replaceByKey SilverTrade.tradeId table rows) := by
  rcases List.eq_nil_or_concat rows with rfl | ⟨init, last, rfl⟩
  · simp [KeyedTable.replaceByKey]
  · have hlast : last ∈ init.concat last := by simp
    have hmem : last ∈ KeyedTable.replaceByKey SilverTrade.tradeId table (init.concat last) :=
      (KeyedTable.mem_replaceByKey _).mpr (.inr hlast)
    exact (h last hlast).le.trans (le_watermark hmem)

end Lemmas

end CryptoLakehouse
