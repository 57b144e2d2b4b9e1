import CryptoLakehouse.LibraryGrouping
import CryptoLakehouse.LibraryRuns
import CryptoLakehouse.WarehouseSilver
import Mathlib.Data.List.ReduceOption

/-! `gold.gold_vwap_1min` and `gold.gold_trade_stats_1min` (`dbt/models/gold`) over a growing
`silver.stg_trades`. Columns of silver may be NULL, as nothing is tested before gold is built. -/

namespace CryptoLakehouse

/-- The inexact operations on `numeric`. -/
structure Numerics where
  /-- `/` with its choice of scale -/
  div : ℚ → ℚ → ℚ
  /-- `stddev`; `none` is NULL -/
  stddev : List ℚ → Option ℚ

/-- `sum` skips NULLs and is NULL when nothing is left. -/
def sqlSum (xs : List (Option ℚ)) : Option ℚ :=
  if xs.reduceOption = [] then none else some xs.reduceOption.sum

/-- `nullif(x, 0)` -/
def nullifZero (x : Option ℚ) : Option ℚ := if x = some 0 then none else x

/-- An operation that is NULL when an operand is. -/
def strict (f : ℚ → ℚ → ℚ) (x y : Option ℚ) : Option ℚ := do some (f (← x) (← y))

/-- `date_trunc('minute', x)` -/
def dateTruncMinute (x : Instant) : Instant := x - x % 60000000

structure VwapRow where
  windowStart : Option Instant
  vwap : Option ℚ
  totalVolume : Option ℚ
  tradeCount : Nat
  highPrice : Option ℚ
  lowPrice : Option ℚ
  deriving DecidableEq

structure StatsRow where
  windowStart : Option Instant
  volatility : Option ℚ
  buyCount : Nat
  sellCount : Nat
  buyVolumePct : Option ℚ
  deriving DecidableEq

namespace Gold

variable (num : Numerics)

/-- `date_trunc('minute', traded_at)` -/
def window (trade : SilverTrade) : Option Instant := trade.tradedAt.map dateTruncMinute

def vwapRow (windowStart : Option Instant) (trades : List SilverTrade) : VwapRow where
  windowStart := windowStart
  vwap := strict num.div (sqlSum (trades.map fun t => strict (· * ·) t.price t.size))
    (nullifZero (sqlSum (trades.map SilverTrade.size)))
  totalVolume := sqlSum (trades.map SilverTrade.size)
  tradeCount := trades.length
  highPrice := (trades.map SilverTrade.price).reduceOption.max?
  lowPrice := (trades.map SilverTrade.price).reduceOption.min?

def statsRow (windowStart : Option Instant) (trades : List SilverTrade) : StatsRow where
  windowStart := windowStart
  volatility := num.stddev (trades.map SilverTrade.price).reduceOption
  buyCount := (trades.filter fun t => t.side = some "buy").length
  sellCount := (trades.filter fun t => t.side = some "sell").length
  buyVolumePct := strict num.div
    (strict (· * ·) (sqlSum (trades.map fun t => if t.side = some "buy" then t.size else some 0)) (some 100))
    (nullifZero (sqlSum (trades.map SilverTrade.size)))

/-- The aggregation of `gold_vwap_1min` over the trades selected by `base`. -/
def vwap1min (base : List SilverTrade) : List VwapRow := Grouping.groupBy window (vwapRow num) base

def tradeStats1min (base : List SilverTrade) : List StatsRow := Grouping.groupBy window (statsRow num) base

/-- `coalesce(max(window_start), '1900-01-01'::timestamptz)` -/
def watermark (this : List VwapRow) : Instant :=
  ((this.filterMap VwapRow.windowStart).max?).getD EPOCH_1900

/-- `traded_at > watermark`; a NULL `traded_at` does not pass. -/
def after (watermark : Instant) (trade : SilverTrade) : Bool :=
  match trade.tradedAt with
  | none => false
  | some x => watermark < x

/-- One run of the incremental model; `none` is a table not built yet. -/
def runVwap1min (this : Option (List VwapRow)) (silver : List SilverTrade) : List VwapRow :=
  match this with
  | none => vwap1min num silver
  | some table => KeyedTable.replaceByKey VwapRow.windowStart table
      (vwap1min num (silver.filter (after (watermark table))))

structure State where
  silver : List SilverTrade
  vwap : Option (List VwapRow)
  stats : List StatsRow

def init : State := ⟨[], none, []⟩

/-- A run of dbt after some trades were added to silver. -/
def step (s : State) (added : List SilverTrade) : Option State :=
  some ⟨s.silver ++ added, some (runVwap1min num s.vwap (s.silver ++ added)),
    tradeStats1min num (s.silver ++ added)⟩

end Gold

end CryptoLakehouse
