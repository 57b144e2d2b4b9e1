import CryptoLakehouse.WarehouseBounds
import CryptoLakehouse.WarehouseContent

/-! `dbt test`: the tests of `dbt/models/silver/schema.yml` and `dbt/models/gold/schema.yml`, each of which
counts the rows that fail it. `gold_trade_stats_1min` has none. When they let a build through is a matter of
the trades alone. -/

namespace CryptoLakehouse.DbtTest

section Generic

variable {R A : Type} [DecidableEq A] (column : R → Option A) (model : List R)

def notNull : Nat := (model.filter fun row => (column row).isNone).length

/-- The values that occur more than once; NULLs are left out. -/
def unique : Nat :=
  ((model.filterMap column).dedup.filter fun value => 1 < (model.filterMap column).count value).length

/-- `not in (...)` is not true of NULL. -/
def acceptedValues (values : List A) : Nat :=
  (model.filter fun row => (column row).any fun value => value ∉ values).length

/-- `dbt_expectations.expect_column_values_to_be_between`; NULLs pass. -/
def expectColumnValuesToBeBetween (minValue maxValue : ℚ) (column : R → Option ℚ) : Nat :=
  (model.filter fun row => (column row).any fun value => ¬ (minValue ≤ value ∧ value ≤ maxValue)).length

end Generic

/-- The tables that the tests read. -/
structure Tables where
  silver : List SilverTrade
  vwap : List VwapRow

/-- The tests of `stg_trades`. -/
def stgTradesTests : List (List SilverTrade → Nat) :=
  [unique fun row => some row.tradeId,
    notNull fun row => some row.tradeId,
    notNull SilverTrade.price,
    fun model => expectColumnValuesToBeBetween model (1 / 10 ^ 8) 1000000 SilverTrade.price,
    notNull SilverTrade.size,
    notNull SilverTrade.side,
    fun model => acceptedValues SilverTrade.side model ["buy", "sell"],
    notNull SilverTrade.tradedAt,
    notNull fun row => some row.ingestedAt]

/-- The tests of `gold_vwap_1min`. -/
def goldVwap1minTests : List (List VwapRow → Nat) :=
  [fun model => (Gold.vwapBounds model).length,
    unique VwapRow.windowStart,
    notNull VwapRow.windowStart,
    notNull VwapRow.vwap,
    notNull VwapRow.totalVolume,
    notNull fun row => some row.tradeCount,
    notNull VwapRow.highPrice,
    notNull VwapRow.lowPrice]

/-- `dbt test`, by the number of failures of each test. -/
def TESTS : List (Tables → Nat) :=
  stgTradesTests.map (fun test tables => test tables.silver) ++
    goldVwap1minTests.map (fun test tables => test tables.vwap)

def Passes (tables : Tables) : Prop := ∀ test ∈ TESTS, test tables = 0

/-- A row of silver that no test counts. -/
structure TestedTrade (row : SilverTrade) : Prop where
  price : ∃ p, row.price = some p ∧ 1 / 10 ^ 8 ≤ p ∧ p ≤ 1000000
  size : row.size ≠ none
  side : row.side = some "buy" ∨ row.side = some "sell"
  tradedAt : row.tradedAt ≠ none

/-- A row of gold that no test counts. -/
structure TestedWindow (row : VwapRow) : Prop where
  windowStart : row.windowStart ≠ none
  vwap : ∃ low vwap high, row.lowPrice = some low ∧ row.vwap = some vwap ∧ row.highPrice = some high ∧
    low ≤ vwap ∧ vwap ≤ high
  totalVolume : row.totalVolume ≠ none

section Counts

variable {R A : Type} {column : R → Option A} {model : List R}

theorem notNull_eq_zero : notNull column model = 0 ↔ ∀ row ∈ model, column row ≠ none := by
  simp [notNull, List.length_eq_zero_iff, List.filter_eq_nil_iff]

theorem unique_eq_zero [DecidableEq A] : unique column model = 0 ↔ (model.filterMap column).Nodup := by
  rw [unique, List.length_eq_zero_iff, List.filter_eq_nil_iff, List.nodup_iff_count_le_one]
  simp only [decide_eq_true_eq, not_lt, List.mem_dedup]
  refine ⟨fun h value => ?_, fun h value _ => h value⟩
  by_cases hmem : value ∈ model.filterMap column
  · exact h value hmem
  · rw [List.count_eq_zero_of_not_mem hmem]
    exact Nat.zero_le 1

theorem acceptedValues_eq_zero [DecidableEq A] {values : List A} : acceptedValues column model values = 0 ↔
    ∀ row ∈ model, ∀ value, column row = some value → value ∈ values := by
  rw [acceptedValues, List.length_eq_zero_iff, List.filter_eq_nil_iff]
  simp [Option.any_eq_true]

theorem between_eq_zero {column : R → Option ℚ} {minValue maxValue : ℚ} :
    expectColumnValuesToBeBetween model minValue maxValue column = 0 ↔
      ∀ row ∈ model, ∀ value, column row = some value → minValue ≤ value ∧ value ≤ maxValue := by
  rw [expectColumnValuesToBeBetween, List.length_eq_zero_iff, List.filter_eq_nil_iff]
  refine forall₂_congr fun row _ => ?_
  rw [Bool.not_eq_true, Option.any_eq_false]
  exact forall₂_congr fun value _ => by rw [decide_eq_false_iff_not, not_not]

end Counts

section Rows

variable {silver : List SilverTrade} {vwap : List VwapRow}

theorem stgTradesTests_iff : (∀ test ∈ stgTradesTests, test silver = 0) ↔
    (silver.map SilverTrade.tradeId).Nodup ∧ ∀ row ∈ silver, TestedTrade row := by
  simp only [stgTradesTests, List.forall_mem_cons, List.not_mem_nil, false_imp_iff, implies_true, and_true,
    unique_eq_zero, notNull_eq_zero, acceptedValues_eq_zero, between_eq_zero, List.filterMap_eq_map', ne_eq,
    reduceCtorEq, not_false_eq_true, true_and]
  refine and_congr_right fun _ => ⟨fun h row hrow => ?_, fun h => ?_⟩
  · obtain ⟨hprice, hbetween, hsize, hside, hvalues, htraded⟩ := h
    obtain ⟨p, hp⟩ := Option.ne_none_iff_exists'.mp (hprice row hrow)
    obtain ⟨side, hs⟩ := Option.ne_none_iff_exists'.mp (hside row hrow)
    refine ⟨⟨p, hp, hbetween row hrow p hp⟩, hsize row hrow, ?_, htraded row hrow⟩
    rw [hs, Option.some_inj, Option.some_inj]
    simpa using hvalues row hrow side hs
  · refine ⟨fun row hrow hnone => ?_, fun row hrow p hp => ?_, fun row hrow => (h row hrow).size,
      fun row hrow hnone => ?_, fun row hrow side hside => ?_, fun row hrow => (h row hrow).tradedAt⟩
    · obtain ⟨p, hp, -⟩ := (h row hrow).price
      cases hnone.symm.trans hp
    · obtain ⟨p', hp', hbetween⟩ := (h row hrow).price
      obtain rfl := Option.some.inj (hp.symm.trans hp')
      exact hbetween
    · rcases (h row hrow).side with hside | hside <;> cases hnone.symm.trans hside
    · rcases (h row hrow).side with hside' | hside' <;> simp [Option.some.inj (hside.symm.trans hside')]

theorem vwapBounds_eq_nil_iff : Gold.vwapBounds vwap = [] ↔ ∀ row ∈ vwap, ∀ x, row.vwap = some x →
    (∀ low, row.lowPrice = some low → low ≤ x) ∧ ∀ high, row.highPrice = some high → x ≤ high := by
  have hless : ∀ x y, Gold.vwapBounds.less x y = false ↔ ∀ a b, x = some a → y = some b → b ≤ a := by
    intro x y
    cases x <;> cases y <;> simp [Gold.vwapBounds.less]
  rw [Gold.vwapBounds, List.filter_eq_nil_iff]
  refine forall₂_congr fun row _ => ?_
  rw [Bool.not_eq_true, Bool.or_eq_false_iff, hless, hless]
  constructor
  · exact fun h x hx => ⟨fun low hlow => h.1 x low hx hlow, fun high hhigh => h.2 high x hhigh hx⟩
  · exact fun h => ⟨fun x low hx hlow => (h x hx).1 low hlow, fun high x hhigh hx => (h x hx).2 high hhigh⟩

theorem goldVwap1minTests_iff : (∀ test ∈ goldVwap1minTests, test vwap = 0) ↔
    (vwap.filterMap VwapRow.windowStart).Nodup ∧ ∀ row ∈ vwap, TestedWindow row := by
  simp only [goldVwap1minTests, List.forall_mem_cons, List.not_mem_nil, false_imp_iff, implies_true, and_true,
    unique_eq_zero, notNull_eq_zero, List.length_eq_zero_iff, vwapBounds_eq_nil_iff, ne_eq, reduceCtorEq,
    not_false_eq_true, true_and]
  constructor
  · rintro ⟨hbounds, hunique, hwindow, hvwap, hvolume, hhigh, hlow⟩
    refine ⟨hunique, fun row hrow => ⟨hwindow row hrow, ?_, hvolume row hrow⟩⟩
    obtain ⟨x, hx⟩ := Option.ne_none_iff_exists'.mp (hvwap row hrow)
    obtain ⟨low, hlow⟩ := Option.ne_none_iff_exists'.mp (hlow row hrow)
    obtain ⟨high, hhigh⟩ := Option.ne_none_iff_exists'.mp (hhigh row hrow)
    obtain ⟨hge, hle⟩ := hbounds row hrow x hx
    exact ⟨low, x, high, hlow, hx, hhigh, hge low hlow, hle high hhigh⟩
  · rintro ⟨hunique, hrows⟩
    refine ⟨fun row hrow x hx => ?_, hunique, fun row hrow => (hrows row hrow).windowStart, fun row hrow => ?_,
      fun row hrow => (hrows row hrow).totalVolume, fun row hrow => ?_, fun row hrow => ?_⟩
    all_goals obtain ⟨low, x', high, hlow, hx', hhigh, hge, hle⟩ := (hrows row hrow).vwap
    · obtain rfl := Option.some.inj (hx.symm.trans hx')
      rw [hlow, hhigh]
      exact ⟨fun _ h => Option.some.inj h ▸ hge, fun _ h => Option.some.inj h ▸ hle⟩
    · simp [hx']
    · simp [hhigh]
    · simp [hlow]

/-- `dbt test` succeeds exactly when no two rows share their key and every row is in order. -/
theorem passes_iff : Passes ⟨silver, vwap⟩ ↔
    ((silver.map SilverTrade.tradeId).Nodup ∧ ∀ row ∈ silver, TestedTrade row) ∧
      (vwap.filterMap VwapRow.windowStart).Nodup ∧ ∀ row ∈ vwap, TestedWindow row := by
  rw [Passes, TESTS, List.forall_mem_append, List.forall_mem_map, List.forall_mem_map]
  exact and_congr stgTradesTests_iff goldVwap1minTests_iff

end Rows

section Build

open Gold (vwapRow vwap1min window)
open SilverTrade (Sound unstamped volume)

/-- The cast of the price is where the test of the column wants it. -/
def PriceTested (m : TradeMessage) : Prop :=
  ∃ p, decimalCast m.price = some p ∧ 1 / 10 ^ 8 ≤ p ∧ p ≤ 1000000

/-- In the minute of the trade some size is left by the cast. -/
def VolumeLeft (ms : List TradeMessage) (m : TradeMessage) : Prop :=
  ∃ m' ∈ ms, dateTruncMinute m'.time = dateTruncMinute m.time ∧ decimalCast m'.size ≠ some 0

section Rows

theorem numeric18_8_idem {x y : ℚ} (h : numeric18_8 x = some y) : numeric18_8 y = some y := by
  rw [numeric18_8] at h
  split_ifs at h with hsign hfits hfits
  · exact (numeric18_8_eq_self_iff y).mpr ⟨_, (Option.some.inj h).symm, hfits⟩
  · exact (numeric18_8_eq_self_iff y).mpr ⟨_, (Option.some.inj h).symm, hfits⟩

theorem numeric18_8_nonneg {x y : ℚ} (hx : 0 ≤ x) (h : numeric18_8 x = some y) : 0 ≤ y := by
  have hfloor : 0 ≤ (x * 10 ^ 8 + 1 / 2).floor := by
    apply Rat.le_floor_iff.mpr
    push_cast
    linarith
  simp only [numeric18_8, if_pos hx] at h
  split_ifs at h
  obtain rfl := Option.some.inj h
  exact div_nonneg (by exact_mod_cast hfloor) (by norm_num)

theorem numeric18_8_of_decimalCast {d : Decimal} {x : ℚ} (h : decimalCast d = some x) :
    numeric18_8 d.toRat = some x := by
  rw [decimalCast] at h
  split_ifs at h
  exact h

variable {m : TradeMessage} {row : SilverTrade}

theorem silverOf_eq_some (h : silverOf m = some row.unstamped) : ∃ price size,
    decimalCast m.price = some price ∧ decimalCast m.size = some size ∧ row.tradeId = m.tradeId ∧
      row.price = some price ∧ row.size = some size ∧ row.side = some m.side.text ∧ row.tradedAt = some m.time := by
  simp only [silverOf, Option.bind_eq_bind, Option.bind_eq_some_iff, Option.some.injEq] at h
  obtain ⟨price, hprice, size, hsize, heq⟩ := h
  obtain ⟨tradeId, rowPrice, rowSize, side, tradedAt, ingestedAt⟩ := row
  cases heq
  exact ⟨price, size, hprice, hsize, rfl, rfl, rfl, rfl, rfl⟩

/-- A row of an accepted trade is sound. -/
theorem sound_of_silverOf (h : silverOf m = some row.unstamped) : Sound row := by
  obtain ⟨price, size, hprice, hsize, -, hrowPrice, hrowSize, hside, -⟩ := silverOf_eq_some h
  refine ⟨⟨price, hrowPrice, numeric18_8_idem (numeric18_8_of_decimalCast hprice)⟩, ⟨size, hrowSize, ?_⟩, ?_⟩
  · exact numeric18_8_nonneg (Decimal.toRat_pos m.size_pos).le (numeric18_8_of_decimalCast hsize)
  · rw [hside]
    cases m.side
    · exact Or.inl rfl
    · exact Or.inr rfl

theorem testedTrade_iff (h : silverOf m = some row.unstamped) : TestedTrade row ↔ PriceTested m := by
  obtain ⟨price, size, hprice, -, -, hrowPrice, hrowSize, -, htraded⟩ := silverOf_eq_some h
  constructor
  · intro htested
    obtain ⟨p, hp, hrange⟩ := htested.price
    exact ⟨p, hprice.trans (hrowPrice.symm.trans hp), hrange⟩
  · rintro ⟨p, hp, hrange⟩
    have hsame : row.price = some p := hrowPrice.trans (hprice.symm.trans hp)
    exact ⟨⟨p, hsame, hrange⟩, by simp [hrowSize], (sound_of_silverOf h).side, by simp [htraded]⟩

end Rows

variable {num : Numerics} {silver : List SilverTrade}

/-- A window of sound trades passes unless it has no volume. -/
theorem testedWindow_vwapRow_iff (hdiv : num.RoundsQuotients) {start : Instant} {trades : List SilverTrade}
    (hne : trades ≠ []) (hsound : ∀ t ∈ trades, Sound t) :
    TestedWindow (vwapRow num (some start) trades) ↔ ∃ t ∈ trades, t.size ≠ some 0 := by
  have hrange := Gold.vwapInRange_vwapRow (some start) hdiv hne hsound
  have hvolume : (vwapRow num (some start) trades).totalVolume = some (trades.map volume).sum :=
    Gold.sqlSum_map hne fun t ht => Gold.size_of_sound (hsound t ht)
  have hnull : (vwapRow num (some start) trades).vwap ≠ none ↔ ∃ t ∈ trades, t.size ≠ some 0 := by
    rw [ne_eq, hrange.null, not_forall₂]
    exact exists_congr fun t => exists_prop
  rw [← hnull]
  constructor
  · intro htested
    obtain ⟨low, x, high, -, hx, -⟩ := htested.vwap
    rw [hx]
    exact Option.some_ne_none x
  · intro hvwap
    obtain ⟨x, hx⟩ := Option.ne_none_iff_exists'.mp hvwap
    obtain ⟨low, high, hlow, hhigh, hle, hge⟩ := hrange.range x hx
    exact ⟨Option.some_ne_none start, ⟨low, x, high, hlow, hx, hhigh, hle, hge⟩, by simp [hvolume]⟩

theorem nodup_windowStart (base : List SilverTrade) :
    ((vwap1min num base).filterMap VwapRow.windowStart).Nodup := by
  have hkeys : (vwap1min num base).map VwapRow.windowStart = (base.map window).dedup :=
    Grouping.map_groupBy (fun _ _ => rfl) base
  have hvalues : (vwap1min num base).filterMap VwapRow.windowStart = (base.map window).dedup.filterMap id := by
    rw [← hkeys, List.filterMap_map]
    rfl
  rw [hvalues]
  exact (List.nodup_dedup _).filterMap fun k k' x hx hx' => (Option.mem_def.mp hx).trans (Option.mem_def.mp hx').symm

/-- The tables of a build from these trades pass exactly when no price is cast out of range and no minute is
left without volume. -/
theorem passes_build_iff (hdiv : num.RoundsQuotients) {ms : List TradeMessage}
    (hids : (silver.map SilverTrade.tradeId).Nodup)
    (hrows : ∀ row ∈ silver, ∃ m ∈ ms, silverOf m = some row.unstamped)
    (hall : ∀ m ∈ ms, ∃ row ∈ silver, silverOf m = some row.unstamped) :
    Passes ⟨silver, vwap1min num silver⟩ ↔ ∀ m ∈ ms, PriceTested m ∧ VolumeLeft ms m := by
  have hsound : ∀ row ∈ silver, Sound row := by
    intro row hrow
    obtain ⟨m, -, hm⟩ := hrows row hrow
    exact sound_of_silverOf hm
  have htrades : (∀ row ∈ silver, TestedTrade row) ↔ ∀ m ∈ ms, PriceTested m := by
    constructor
    · intro h m hm
      obtain ⟨row, hrow, hsilver⟩ := hall m hm
      exact (testedTrade_iff hsilver).mp (h row hrow)
    · intro h row hrow
      obtain ⟨m, hm, hsilver⟩ := hrows row hrow
      exact (testedTrade_iff hsilver).mpr (h m hm)
  have hwindow : ∀ {m row}, silverOf m = some row.unstamped → window row = some (dateTruncMinute m.time) := by
    intro m row h
    obtain ⟨-, -, -, -, -, -, -, -, htraded⟩ := silverOf_eq_some h
    rw [window, htraded, Option.map_some]
  -- the window of a trade, and the trades of a window
  have hgroup : ∀ m ∈ ms, (∃ t ∈ Grouping.group window silver (some (dateTruncMinute m.time)), t.size ≠ some 0) ↔
      VolumeLeft ms m := by
    intro m hm
    constructor
    · rintro ⟨t, ht, hsize⟩
      obtain ⟨hmem, hkey⟩ := Grouping.mem_group.mp ht
      obtain ⟨m', hm', hsilver⟩ := hrows t hmem
      obtain ⟨_, size, -, hcast, -, -, hrowSize, -⟩ := silverOf_eq_some hsilver
      refine ⟨m', hm', Option.some.inj ((hwindow hsilver).symm.trans hkey), ?_⟩
      rwa [hcast, ← hrowSize]
    · rintro ⟨m', hm', hminute, hsize⟩
      obtain ⟨row, hrow, hsilver⟩ := hall m' hm'
      obtain ⟨_, size, -, hcast, -, -, hrowSize, -⟩ := silverOf_eq_some hsilver
      refine ⟨row, Grouping.mem_group.mpr ⟨hrow, by rw [hwindow hsilver, hminute]⟩, ?_⟩
      rwa [hrowSize, ← hcast]
  have hwindows : (∀ row ∈ vwap1min num silver, TestedWindow row) ↔ ∀ m ∈ ms, VolumeLeft ms m := by
    have hrow : ∀ m ∈ ms, vwapRow num (some (dateTruncMinute m.time))
        (Grouping.group window silver (some (dateTruncMinute m.time))) ∈ vwap1min num silver ∧
          (TestedWindow (vwapRow num (some (dateTruncMinute m.time))
            (Grouping.group window silver (some (dateTruncMinute m.time)))) ↔ VolumeLeft ms m) := by
      intro m hm
      obtain ⟨row, hmem, hsilver⟩ := hall m hm
      have hkey : some (dateTruncMinute m.time) ∈ silver.map window :=
        List.mem_map.mpr ⟨row, hmem, hwindow hsilver⟩
      refine ⟨Grouping.mem_groupBy.mpr ⟨_, hkey, rfl⟩, ?_⟩
      rw [← hgroup m hm]
      exact testedWindow_vwapRow_iff hdiv (Grouping.group_ne_nil.mpr hkey) fun t ht =>
        hsound t (Grouping.mem_group.mp ht).1
    constructor
    · exact fun h m hm => (hrow m hm).2.mp (h _ (hrow m hm).1)
    · intro h row hmem
      obtain ⟨k, hk, rfl⟩ := Grouping.mem_groupBy.mp hmem
      obtain ⟨trade, htrade, rfl⟩ := List.mem_map.mp hk
      obtain ⟨m, hm, hsilver⟩ := hrows trade htrade
      rw [hwindow hsilver]
      exact (hrow m hm).2.mpr (h m hm)
  rw [passes_iff, htrades, hwindows]
  constructor
  · rintro ⟨⟨-, hprices⟩, -, hvolumes⟩ m hm
    exact ⟨hprices m hm, hvolumes m hm⟩
  · exact fun h => ⟨⟨hids, fun m hm => (h m hm).1⟩, nodup_windowStart silver, fun m hm => (h m hm).2⟩

variable {pg : Postgres} {decimalText : Decimal → String} {timeText : Int → String} {bronze : Bronze}
  {ms : List TradeMessage}

/-- **When `dbt test` lets a first build through.** -/
theorem passes_dbtRun_iff (h : Holds pg decimalText timeText bronze ms) (hid : Identified ms)
    (hreads : Reads pg decimalText timeText ms) (hdiv : num.RoundsQuotients) {t : Rerun.State}
    (ht : Runs.run (Rerun.step pg num) ⟨bronze, none, none, none⟩ Rerun.dbtRun = some t) :
    ∃ silver vwap, t.silver = some silver ∧ t.vwap = some vwap ∧
      (Passes ⟨silver, vwap⟩ ↔ ∀ m ∈ ms, PriceTested m ∧ VolumeLeft ms m) := by
  rw [run_dbtRun] at ht
  obtain ⟨silver, hsilver, rfl⟩ := Option.map_eq_some_iff.mp ht
  refine ⟨silver, vwap1min num silver, rfl, rfl, ?_⟩
  have hrel := h.rel_stgTrades hid hreads
  rw [hsilver] at hrel
  have hids := (mirrors_stgTrades h.unique hsilver).ids
  cases hexpected : (distinct ms).mapM silverOf with
  | none =>
      rw [hexpected] at hrel
      cases hrel
  | some expected =>
      rw [hexpected] at hrel
      cases hrel with
      | some hperm =>
          apply passes_build_iff hdiv hids
          · intro row hrow
            have hmem := hperm.mem_iff.mp (List.mem_map_of_mem hrow)
            obtain ⟨m, hm, hsilverOf⟩ := (PartialMap.mem_of_mapM hexpected).mp hmem
            exact ⟨m, mem_of_mem_distinct hm, hsilverOf⟩
          · intro m hm
            obtain ⟨m', hm', hsame⟩ := exists_mem_distinct hm
            obtain rfl := hid m' (mem_of_mem_distinct hm') m hm hsame
            obtain ⟨x, hx⟩ := Option.isSome_iff_exists.mp (PartialMap.isSome_of_mapM hexpected m' hm')
            have hmem := hperm.mem_iff.mpr ((PartialMap.mem_of_mapM hexpected).mpr ⟨m', hm', hx⟩)
            obtain ⟨row, hrow, rfl⟩ := List.mem_map.mp hmem
            exact ⟨row, hrow, hx⟩

/-- Bronze with one trade of one unit. -/
def unitBronze : Bronze := [⟨unitTrade.modelDump offeredText fun _ => "1970-01-01T00:00:00Z", 0⟩]

theorem passes_dbtRun_iff_unit : ∃ t, Runs.run (Rerun.step offeredPostgres Gold.sixteenDigits)
      ⟨unitBronze, none, none, none⟩ Rerun.dbtRun = some t ∧ ∃ silver vwap, t.silver = some silver ∧
    t.vwap = some vwap ∧ (∀ m ∈ [unitTrade], PriceTested m ∧ VolumeLeft [unitTrade] m) ∧ Passes ⟨silver, vwap⟩ := by
  have hholds : Holds offeredPostgres offeredText (fun _ => "1970-01-01T00:00:00Z") unitBronze [unitTrade] := by
    refine ⟨List.nodup_singleton "1", fun row hrow => ?_, fun m hm => ?_⟩
    · exact ⟨unitTrade, List.mem_singleton_self _, by rw [List.mem_singleton.mp hrow]⟩
    · rw [List.mem_singleton.mp hm]
      exact ⟨_, List.mem_singleton_self _, rfl⟩
  have hid : Identified [unitTrade] := by
    intro m hm m' hm' _
    rw [List.mem_singleton.mp hm, List.mem_singleton.mp hm']
  have hreads : Reads offeredPostgres offeredText (fun _ => "1970-01-01T00:00:00Z") [unitTrade] :=
    ⟨List.forall_mem_singleton.mpr readsDecimal_one, List.forall_mem_singleton.mpr readsDecimal_one,
      List.forall_mem_singleton.mpr readsTime_zero⟩
  have hdiv : Gold.sixteenDigits.RoundsQuotients := fun x y _ => ⟨16, le_rfl, Rounding.nearest_round 16 (x / y)⟩
  have hbuilt : (Runs.run (Rerun.step offeredPostgres Gold.sixteenDigits) ⟨unitBronze, none, none, none⟩
      Rerun.dbtRun).isSome := by
    rw [run_dbtRun, Option.isSome_map]
    decide +kernel
  have htested : ∀ m ∈ [unitTrade], PriceTested m ∧ VolumeLeft [unitTrade] m := by
    intro m hm
    rw [List.mem_singleton.mp hm]
    exact ⟨⟨1, by decide +kernel, by decide +kernel, by decide +kernel⟩, unitTrade, List.mem_singleton_self _, rfl,
      by decide +kernel⟩
  obtain ⟨t, ht⟩ := Option.isSome_iff_exists.mp hbuilt
  obtain ⟨silver, vwap, hsilver, hvwap, hiff⟩ := passes_dbtRun_iff hholds hid hreads hdiv ht
  exact ⟨t, ht, silver, vwap, hsilver, hvwap, htested, hiff.mpr htested⟩

end Build

end CryptoLakehouse.DbtTest
