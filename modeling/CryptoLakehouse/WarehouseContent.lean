import CryptoLakehouse.WarehouseContract
import CryptoLakehouse.WarehouseRerun

/-! What the warehouse comes to hold when bronze has the published form of some accepted trades: a full
refresh reads them back, each once, and the gold tables aggregate them and nothing else. Only the stamp
`ingested_at` depends on how the rows got there. -/

namespace CryptoLakehouse

/-- `numeric(18, 8)` of a written decimal; beyond the scale of `numeric` the text is refused. -/
def decimalCast (d : Decimal) : Option ℚ :=
  if -NUMERIC_SCALE ≤ d.exponent then numeric18_8 d.toRat else none

/-- A row without its stamp. -/
def SilverTrade.unstamped (row : SilverTrade) : SilverTrade := { row with ingestedAt := 0 }

/-- The silver row of an accepted trade, short of the stamp. -/
def silverOf (m : TradeMessage) : Option SilverTrade := do
  let price ← decimalCast m.price
  let size ← decimalCast m.size
  some ⟨m.tradeId, some price, some size, some m.side.text, some m.time, 0⟩

/-- The trades without the repetitions of an id. -/
def distinct (ms : List TradeMessage) : List TradeMessage :=
  KeyedTable.insertAbsent (fun m => some m.tradeId) [] ms

section Casts

variable {pg : Postgres} {decimalText : Decimal → String} {timeText : Int → String}

theorem numeric18_8_eq_none {x : ℚ} (h : 10 ^ NUMERIC_DIGITS ≤ x) : numeric18_8 x = none := by
  have hdigits : (10 : ℚ) ^ 10 ≤ 10 ^ NUMERIC_DIGITS :=
    pow_le_pow_right₀ (by norm_num) (by unfold NUMERIC_DIGITS; omega)
  have hx : (10 : ℚ) ^ 10 ≤ x := hdigits.trans h
  have hfloor : (10 ^ 18 : Int) ≤ (x * 10 ^ 8 + 1 / 2).floor := by
    apply Rat.le_floor_iff.mpr
    push_cast
    linarith
  have hsign : (0 : ℚ) ≤ x := by linarith
  rw [numeric18_8]
  simp only [hsign, if_true]
  apply if_neg
  omega

/-- What Postgres makes of the text of a decimal. -/
theorem ReadsDecimal.cast {d : Decimal} (h : ReadsDecimal pg decimalText d) :
    (pg.numericIn (decimalText d)).bind numeric18_8 = decimalCast d := by
  rw [decimalCast]
  by_cases hformat : d.InFormat
  · rw [h.within hformat, if_pos hformat.1, Option.bind_some]
  · rw [h.beyond hformat, Option.bind_none]
    split_ifs with hscale
    · exact (numeric18_8_eq_none (not_lt.mp fun hlt => hformat ⟨hscale, hlt⟩)).symm
    · rfl

/-- A published trade parses to its silver row, whenever it was received. -/
theorem map_parsed_modelDump {m : TradeMessage} (hprice : ReadsDecimal pg decimalText m.price)
    (hsize : ReadsDecimal pg decimalText m.size) (htime : ReadsTime pg timeText m.time) (receivedAt : Instant) :
    (parsed pg ⟨m.modelDump decimalText timeText, receivedAt⟩).map SilverTrade.unstamped = silverOf m := by
  have hiff := @parsed_modelDump pg decimalText timeText m htime receivedAt
  simp only [hprice.cast, hsize.cast] at hiff
  ext row
  rw [Option.map_eq_some_iff, silverOf]
  simp only [hiff, Option.bind_eq_bind, Option.bind_eq_some_iff, Option.some.injEq]
  constructor
  · rintro ⟨_, ⟨price, size, hcast, hcast', rfl⟩, rfl⟩
    exact ⟨price, hcast, size, hcast', rfl⟩
  · rintro ⟨price, hcast, size, hcast', rfl⟩
    exact ⟨_, ⟨price, size, hcast, hcast', rfl⟩, rfl⟩

end Casts

section Distinct

variable {ms : List TradeMessage}

theorem mem_of_mem_distinct {m : TradeMessage} (h : m ∈ distinct ms) : m ∈ ms := by
  rcases KeyedTable.mem_insertAbsent _ h with hnone | hmem
  · cases hnone
  · exact hmem

theorem exists_mem_distinct {m : TradeMessage} (h : m ∈ ms) : ∃ m' ∈ distinct ms, m'.tradeId = m.tradeId := by
  rcases KeyedTable.represented_insertAbsent (fun m : TradeMessage => some m.tradeId) [] ms h with
    hmem | ⟨-, hmem⟩
  · exact ⟨m, hmem, rfl⟩
  · obtain ⟨m', hmem', hid⟩ := List.mem_map.mp hmem
    exact ⟨m', hmem', Option.some.inj hid⟩

theorem nodup_distinct (ms : List TradeMessage) : ((distinct ms).map TradeMessage.tradeId).Nodup := by
  have hunique : KeyedTable.KeyUnique (fun m : TradeMessage => some m.tradeId) (distinct ms) :=
    KeyedTable.keyUnique_insertAbsent _ _ List.nodup_nil
  rwa [KeyedTable.KeyUnique, List.filterMap_eq_map'] at hunique

end Distinct

/-- Trade ids name trades. -/
def Identified (ms : List TradeMessage) : Prop := ∀ m ∈ ms, ∀ m' ∈ ms, m.tradeId = m'.tradeId → m = m'

section Bronze

variable (pg : Postgres) (decimalText : Decimal → String) (timeText : Int → String)

/-- Bronze has rows of these trades only, and a row under the id of each. -/
structure Holds (bronze : Bronze) (ms : List TradeMessage) : Prop where
  unique : KeyedTable.KeyUnique (RawTrade.tradeId pg) bronze
  sound : ∀ row ∈ bronze, ∃ m ∈ ms, row.payload = m.modelDump decimalText timeText
  complete : ∀ m ∈ ms, ∃ row ∈ bronze, row.tradeId pg = some m.tradeId

/-- The texts of the trades are exact. -/
structure Reads (ms : List TradeMessage) : Prop where
  price : ∀ m ∈ ms, ReadsDecimal pg decimalText m.price
  size : ∀ m ∈ ms, ReadsDecimal pg decimalText m.size
  time : ∀ m ∈ ms, ReadsTime pg timeText m.time

variable {pg decimalText timeText} {bronze : Bronze} {ms : List TradeMessage}

theorem Holds.tradeId_ne_none (h : Holds pg decimalText timeText bronze ms) {row : RawTrade} (hrow : row ∈ bronze) :
    row.tradeId pg ≠ none := by
  obtain ⟨m, -, hpayload⟩ := h.sound row hrow
  rw [RawTrade.tradeId, hpayload, (textAt_modelDump pg decimalText timeText m).1]
  exact Option.some_ne_none _

/-- The payloads of bronze are the trades, each once. -/
theorem Holds.payloads_perm (h : Holds pg decimalText timeText bronze ms) (hid : Identified ms) :
    (bronze.map RawTrade.payload).Perm ((distinct ms).map (TradeMessage.modelDump decimalText timeText)) := by
  have hpayloads : (bronze.map RawTrade.payload).Nodup := by
    apply KeyedTable.KeyUnique.nodup (pg.textAt · "trade_id")
    · rw [KeyedTable.KeyUnique, List.filterMap_map]
      exact h.unique
    · intro payload hpayload
      obtain ⟨row, hrow, rfl⟩ := List.mem_map.mp hpayload
      exact h.tradeId_ne_none hrow
  have hdumps : ((distinct ms).map (TradeMessage.modelDump decimalText timeText)).Nodup := by
    apply List.Nodup.of_map (pg.textAt · "trade_id")
    have hsame : ((distinct ms).map (TradeMessage.modelDump decimalText timeText)).map (pg.textAt · "trade_id") =
        ((distinct ms).map TradeMessage.tradeId).map some := by
      rw [List.map_map, List.map_map]
      exact List.map_congr_left fun m _ => (textAt_modelDump pg decimalText timeText m).1
    rw [hsame]
    exact (nodup_distinct ms).map (Option.some_injective _)
  refine (List.perm_ext_iff_of_nodup hpayloads hdumps).mpr fun payload => ?_
  rw [List.mem_map, List.mem_map]
  constructor
  · rintro ⟨row, hrow, rfl⟩
    obtain ⟨m, hm, hpayload⟩ := h.sound row hrow
    obtain ⟨m', hm', hsame⟩ := exists_mem_distinct hm
    obtain rfl := hid m' (mem_of_mem_distinct hm') m hm hsame
    exact ⟨m', hm', hpayload.symm⟩
  · rintro ⟨m, hm, rfl⟩
    obtain ⟨row, hrow, hrowid⟩ := h.complete m (mem_of_mem_distinct hm)
    obtain ⟨m', hm', hpayload⟩ := h.sound row hrow
    refine ⟨row, hrow, ?_⟩
    rw [RawTrade.tradeId, hpayload, (textAt_modelDump pg decimalText timeText m').1, Option.some.injEq] at hrowid
    rw [hpayload, hid m' hm' m (mem_of_mem_distinct hm) hrowid]

/-- A full refresh of silver reads the trades back, or fails for one of them. -/
theorem Holds.rel_stgTrades (h : Holds pg decimalText timeText bronze ms) (hid : Identified ms)
    (hreads : Reads pg decimalText timeText ms) :
    Option.Rel (fun silver expected => (silver.map SilverTrade.unstamped).Perm expected)
      (stgTrades pg none bronze) ((distinct ms).mapM silverOf) := by
  have hsource : sourceData pg none bronze = bronze := by
    apply List.filter_eq_self.mpr
    intro row hrow
    simpa using h.tradeId_ne_none hrow
  have hread : ∀ payload : Dict, (∃ m ∈ ms, payload = m.modelDump decimalText timeText) →
      ∀ receivedAt, (parsed pg ⟨payload, receivedAt⟩).map SilverTrade.unstamped =
        (parsed pg ⟨payload, 0⟩).map SilverTrade.unstamped := by
    rintro payload ⟨m, hm, rfl⟩ receivedAt
    rw [map_parsed_modelDump (hreads.price m hm) (hreads.size m hm) (hreads.time m hm),
      map_parsed_modelDump (hreads.price m hm) (hreads.size m hm) (hreads.time m hm)]
  have hbronze : (bronze.mapM (parsed pg)).map (List.map SilverTrade.unstamped) =
      (bronze.map RawTrade.payload).mapM fun payload => (parsed pg ⟨payload, 0⟩).map SilverTrade.unstamped := by
    rw [PartialMap.map_mapM, PartialMap.mapM_map]
    exact PartialMap.mapM_congr fun row hrow => hread row.payload (h.sound row hrow) row.receivedAt
  have hdumps : ((distinct ms).map (TradeMessage.modelDump decimalText timeText)).mapM
      (fun payload => (parsed pg ⟨payload, 0⟩).map SilverTrade.unstamped) = (distinct ms).mapM silverOf := by
    rw [PartialMap.mapM_map]
    refine PartialMap.mapM_congr fun m hm => ?_
    have hmem := mem_of_mem_distinct hm
    exact map_parsed_modelDump (hreads.price m hmem) (hreads.size m hmem) (hreads.time m hmem) 0
  have hrel := PartialMap.mapM_perm (f := fun payload => (parsed pg ⟨payload, 0⟩).map SilverTrade.unstamped)
    (h.payloads_perm hid)
  rw [← hbronze, hdumps] at hrel
  rw [stgTrades, hsource]
  cases hrows : bronze.mapM (parsed pg) with
  | none =>
      rw [hrows] at hrel
      cases hexpected : (distinct ms).mapM silverOf with
      | none => exact .none
      | some expected =>
          rw [hexpected] at hrel
          cases hrel
  | some rows =>
      rw [hrows] at hrel
      cases hexpected : (distinct ms).mapM silverOf with
      | none =>
          rw [hexpected] at hrel
          cases hrel
      | some expected =>
          rw [hexpected] at hrel
          cases hrel with
          | some hperm =>
              have hids : (rows.map SilverTrade.tradeId).Nodup := by
                rw [PartialMap.map_key_of_mapM (fun _ _ => parsed_tradeId) hrows]
                exact h.unique
              exact .some (((deduped_perm hids).map _).trans hperm)

end Bronze

namespace Gold

variable {num : Numerics}

section Order

variable {xs ys : List (Option ℚ)} {trades trades' : List SilverTrade}

theorem sqlSum_perm (h : xs.Perm ys) : sqlSum xs = sqlSum ys := by
  have hvalues : xs.reduceOption.Perm ys.reduceOption := h.filterMap id
  rw [sqlSum, sqlSum, hvalues.sum_eq]
  simp only [← List.isEmpty_iff, hvalues.isEmpty_eq]

theorem max?_perm {xs ys : List ℚ} (h : xs.Perm ys) : xs.max? = ys.max? := by
  ext x
  simp only [List.max?_eq_some_iff, h.mem_iff]

theorem min?_perm {xs ys : List ℚ} (h : xs.Perm ys) : xs.min? = ys.min? := by
  ext x
  simp only [List.min?_eq_some_iff, h.mem_iff]

theorem vwapRow_perm (windowStart : Option Instant) (h : trades.Perm trades') :
    vwapRow num windowStart trades = vwapRow num windowStart trades' := by
  have hprices : (trades.map SilverTrade.price).reduceOption.Perm (trades'.map SilverTrade.price).reduceOption :=
    (h.map _).filterMap id
  rw [vwapRow, vwapRow, sqlSum_perm (h.map _), sqlSum_perm (h.map SilverTrade.size), h.length_eq,
    max?_perm hprices, min?_perm hprices]

/-- `stddev` is an aggregate of a bag. -/
def Unordered (num : Numerics) : Prop := ∀ xs ys : List ℚ, xs.Perm ys → num.stddev xs = num.stddev ys

theorem statsRow_perm (hnum : Unordered num) (windowStart : Option Instant) (h : trades.Perm trades') :
    statsRow num windowStart trades = statsRow num windowStart trades' := by
  have hprices : (trades.map SilverTrade.price).reduceOption.Perm (trades'.map SilverTrade.price).reduceOption :=
    (h.map _).filterMap id
  rw [statsRow, statsRow, hnum _ _ hprices, (h.filter _).length_eq, (h.filter _).length_eq,
    sqlSum_perm (h.map _), sqlSum_perm (h.map SilverTrade.size)]

theorem vwapRow_unstamped (windowStart : Option Instant) (trades : List SilverTrade) :
    vwapRow num windowStart (trades.map SilverTrade.unstamped) = vwapRow num windowStart trades := by
  simp only [vwapRow, List.map_map, List.length_map]
  rfl

theorem statsRow_unstamped (windowStart : Option Instant) (trades : List SilverTrade) :
    statsRow num windowStart (trades.map SilverTrade.unstamped) = statsRow num windowStart trades := by
  simp only [statsRow, List.map_map, List.filter_map, List.length_map]
  rfl

theorem vwap1min_unstamped (silver : List SilverTrade) :
    vwap1min num (silver.map SilverTrade.unstamped) = vwap1min num silver :=
  Grouping.groupBy_map (fun _ => rfl) vwapRow_unstamped silver

theorem tradeStats1min_unstamped (silver : List SilverTrade) :
    tradeStats1min num (silver.map SilverTrade.unstamped) = tradeStats1min num silver :=
  Grouping.groupBy_map (fun _ => rfl) statsRow_unstamped silver

/-- Every trade counts in one window. -/
theorem sum_tradeCount (silver : List SilverTrade) :
    ((vwap1min num silver).map VwapRow.tradeCount).sum = silver.length := by
  have hgroups : ((silver.map window).dedup.flatMap (Grouping.group window silver)).Perm silver :=
    Grouping.flatMap_group_perm (List.nodup_dedup _) fun trade htrade =>
      List.mem_dedup.mpr (List.mem_map_of_mem htrade)
  rw [← hgroups.length_eq, List.length_flatMap, vwap1min, Grouping.groupBy, List.map_map]
  rfl

end Order

end Gold

section Tables

variable (pg : Postgres) (num : Numerics)

/-- A first run of dbt builds the three tables from the trades as they were accepted, or raises for a trade
that `numeric(18, 8)` does not take. -/
structure Reflects (bronze : Bronze) (ms : List TradeMessage) : Prop where
  builds : (Runs.run (Rerun.step pg num) ⟨bronze, none, none, none⟩ Rerun.dbtRun).isSome ↔
    ∀ m ∈ ms, (silverOf m).isSome
  tables : ∀ t, Runs.run (Rerun.step pg num) ⟨bronze, none, none, none⟩ Rerun.dbtRun = some t →
    ∃ silver vwap stats expected, t.silver = some silver ∧ t.vwap = some vwap ∧ t.stats = some stats ∧
      (distinct ms).mapM silverOf = some expected ∧ (silver.map SilverTrade.unstamped).Perm expected ∧
      vwap.Perm (Gold.vwap1min num expected) ∧ stats.Perm (Gold.tradeStats1min num expected) ∧
      (vwap.map VwapRow.tradeCount).sum = (distinct ms).length

variable {pg num} {decimalText : Decimal → String} {timeText : Int → String} {bronze : Bronze}
  {ms : List TradeMessage}

theorem run_dbtRun (bronze : Bronze) : Runs.run (Rerun.step pg num) ⟨bronze, none, none, none⟩ Rerun.dbtRun =
    (stgTrades pg none bronze).map fun silver =>
      ⟨bronze, some silver, some (Gold.vwap1min num silver), some (Gold.tradeStats1min num silver)⟩ := by
  rw [Rerun.dbtRun, Runs.run]
  simp only [Rerun.step, runStgTrades]
  cases stgTrades pg none bronze <;> rfl

theorem silverOf_congr (hid : Identified ms) :
    ((distinct ms).mapM silverOf).isSome ↔ ∀ m ∈ ms, (silverOf m).isSome := by
  constructor
  · intro h m hm
    obtain ⟨expected, hexpected⟩ := Option.isSome_iff_exists.mp h
    obtain ⟨m', hm', hsame⟩ := exists_mem_distinct hm
    obtain rfl := hid m' (mem_of_mem_distinct hm') m hm hsame
    exact PartialMap.isSome_of_mapM hexpected m' hm'
  · intro h
    exact Option.isSome_iff_exists.mpr (PartialMap.exists_mapM fun m hm => h m (mem_of_mem_distinct hm))

/-- What bronze holds is what the tables reflect. -/
theorem Holds.reflects (h : Holds pg decimalText timeText bronze ms) (hid : Identified ms)
    (hreads : Reads pg decimalText timeText ms) (hnum : Gold.Unordered num) : Reflects pg num bronze ms := by
  have hrel := h.rel_stgTrades hid hreads
  refine ⟨?_, fun t ht => ?_⟩
  · rw [run_dbtRun, Option.isSome_map, ← silverOf_congr hid]
    generalize stgTrades pg none bronze = built, (distinct ms).mapM silverOf = expected at hrel
    cases hrel <;> rfl
  · rw [run_dbtRun] at ht
    obtain ⟨silver, hsilver, rfl⟩ := Option.map_eq_some_iff.mp ht
    rw [hsilver] at hrel
    cases hexpected : (distinct ms).mapM silverOf with
    | none =>
        rw [hexpected] at hrel
        cases hrel
    | some expected =>
        rw [hexpected] at hrel
        cases hrel with
        | some hperm =>
            refine ⟨silver, _, _, expected, rfl, rfl, rfl, rfl, hperm, ?_, ?_, ?_⟩
            · rw [← Gold.vwap1min_unstamped]
              exact Grouping.groupBy_perm (fun k _ _ => Gold.vwapRow_perm k) hperm
            · rw [← Gold.tradeStats1min_unstamped]
              exact Grouping.groupBy_perm (fun k _ _ => Gold.statsRow_perm hnum k) hperm
            · calc ((Gold.vwap1min num silver).map VwapRow.tradeCount).sum
                  = silver.length := Gold.sum_tradeCount silver
                _ = (silver.map SilverTrade.unstamped).length := (List.length_map _).symm
                _ = expected.length := hperm.length_eq
                _ = (distinct ms).length := PartialMap.length_of_mapM hexpected

end Tables

end CryptoLakehouse
