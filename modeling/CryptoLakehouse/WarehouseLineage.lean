import CryptoLakehouse.WarehouseContent

/-! Where the rows of the warehouse come from. The incremental models may miss trades and leave rows behind
that a later run would compute otherwise; but a row of silver is always a row of bronze as it parses, and a row
of gold the aggregate of some trades of its minute, each counted once. -/

namespace CryptoLakehouse.Lineage

variable (pg : Postgres)

/-- Rows of bronze as they parse, each trade once. -/
structure Parsed (bronze : Bronze) (trades : List SilverTrade) : Prop where
  nodup : (trades.map SilverTrade.tradeId).Nodup
  mem : ∀ x ∈ trades, ∃ row ∈ bronze, parsed pg row = some x

/-- The row of a gold table is the aggregate of some trades of its window. -/
def Traces {Row : Type} (windowStart : Row → Option Instant) (aggregate : Option Instant → List SilverTrade → Row)
    (bronze : Bronze) (row : Row) : Prop :=
  ∃ trades, trades ≠ [] ∧ Parsed pg bronze trades ∧ (∀ t ∈ trades, Gold.window t = windowStart row) ∧
    row = aggregate (windowStart row) trades

/-- The tables that are there hold rows with a provenance only. -/
structure Traced (num : Numerics) (s : Rerun.State) : Prop where
  unique : KeyedTable.KeyUnique (RawTrade.tradeId pg) s.bronze
  silver : ∀ table, s.silver = some table → Parsed pg s.bronze table
  vwap : ∀ row ∈ s.vwap.getD [], Traces pg VwapRow.windowStart (Gold.vwapRow num) s.bronze row
  stats : ∀ row ∈ s.stats.getD [], Traces pg StatsRow.windowStart (Gold.statsRow num) s.bronze row

variable {pg} {num : Numerics} {bronze bronze' : Bronze} {silver : List SilverTrade}

theorem Parsed.mono (hgrows : bronze ⊆ bronze') (h : Parsed pg bronze silver) : Parsed pg bronze' silver := by
  refine ⟨h.nodup, fun x hx => ?_⟩
  obtain ⟨row, hrow, hparsed⟩ := h.mem x hx
  exact ⟨row, hgrows hrow, hparsed⟩

theorem Parsed.sublist {trades : List SilverTrade} (h : Parsed pg bronze silver) (hsub : trades.Sublist silver) :
    Parsed pg bronze trades :=
  ⟨h.nodup.sublist (hsub.map _), fun x hx => h.mem x (hsub.subset hx)⟩

theorem parsed_stgTrades {since : Option Instant} (hunique : KeyedTable.KeyUnique (RawTrade.tradeId pg) bronze)
    (h : stgTrades pg since bronze = some silver) : Parsed pg bronze silver := by
  have hmirrors := mirrors_stgTrades hunique h
  refine ⟨hmirrors.ids, fun x hx => ?_⟩
  obtain ⟨row, hrow, hparsed⟩ := (hmirrors.mem x).mp hx
  exact ⟨row, (mem_sourceData.mp hrow).1, hparsed⟩

theorem parsed_runStgTrades {this : Option (List SilverTrade)}
    (hunique : KeyedTable.KeyUnique (RawTrade.tradeId pg) bronze)
    (hthis : ∀ table, this = some table → Parsed pg bronze table)
    (h : runStgTrades pg this bronze = some silver) : Parsed pg bronze silver := by
  cases this with
  | none => exact parsed_stgTrades hunique h
  | some table =>
      obtain ⟨rows, hrows, rfl⟩ := Option.map_eq_some_iff.mp h
      have hold := hthis table rfl
      have hnew := parsed_stgTrades hunique hrows
      refine ⟨KeyedTable.nodup_replaceByKey _ hold.nodup hnew.nodup, fun x hx => ?_⟩
      rcases (KeyedTable.mem_replaceByKey _).mp hx with ⟨hx, -⟩ | hx
      · exact hold.mem x hx
      · exact hnew.mem x hx

section Gold

variable {Row : Type} {windowStart : Row → Option Instant} {aggregate : Option Instant → List SilverTrade → Row}

theorem Traces.mono (hgrows : bronze ⊆ bronze') {row : Row} (h : Traces pg windowStart aggregate bronze row) :
    Traces pg windowStart aggregate bronze' row := by
  obtain ⟨trades, hne, hparsed, hwindow, hrow⟩ := h
  exact ⟨trades, hne, hparsed.mono hgrows, hwindow, hrow⟩

/-- One row for each window. -/
theorem traces_groupBy (hkey : ∀ k trades, windowStart (aggregate k trades) = k) (h : Parsed pg bronze silver)
    {row : Row} (hrow : row ∈ Grouping.groupBy Gold.window aggregate silver) :
    Traces pg windowStart aggregate bronze row := by
  obtain ⟨k, hk, rfl⟩ := Grouping.mem_groupBy.mp hrow
  rw [Traces, hkey]
  refine ⟨Grouping.group Gold.window silver k, Grouping.group_ne_nil.mpr hk, h.sublist List.filter_sublist, ?_, rfl⟩
  exact fun t ht => (Grouping.mem_group.mp ht).2

theorem traces_runVwap1min {this : Option (List VwapRow)}
    (hthis : ∀ row ∈ this.getD [], Traces pg VwapRow.windowStart (Gold.vwapRow num) bronze row)
    (h : Parsed pg bronze silver) :
    ∀ row ∈ Gold.runVwap1min num this silver, Traces pg VwapRow.windowStart (Gold.vwapRow num) bronze row := by
  intro row hrow
  cases this with
  | none => exact traces_groupBy (fun _ _ => rfl) h hrow
  | some table =>
      rcases (KeyedTable.mem_replaceByKey _).mp hrow with ⟨hold, -⟩ | hnew
      · exact hthis row hold
      · exact traces_groupBy (fun _ _ => rfl) (h.sublist List.filter_sublist) hnew

end Gold

section Steps

variable {s t : Rerun.State}

/-- Bronze only grows, and no row loses its provenance by that. -/
theorem Traced.grow (h : Traced pg num s) (hgrows : s.bronze ⊆ bronze)
    (hunique : KeyedTable.KeyUnique (RawTrade.tradeId pg) bronze) : Traced pg num { s with bronze := bronze } where
  unique := hunique
  silver table htable := (h.silver table htable).mono hgrows
  vwap row hrow := (h.vwap row hrow).mono hgrows
  stats row hrow := (h.stats row hrow).mono hgrows

theorem traced_init : Traced pg num Rerun.init where
  unique := List.nodup_nil
  silver table htable := by cases htable
  vwap row hrow := absurd hrow List.not_mem_nil
  stats row hrow := absurd hrow List.not_mem_nil

theorem traced_step {a : Rerun.Action} (h : Traced pg num s) (hstep : Rerun.step pg num s a = some t) :
    Traced pg num t ∧ s.bronze ⊆ t.bronze := by
  cases a with
  | insert receivedAt trades =>
      obtain rfl := Option.some.inj hstep
      have hgrows : s.bronze ⊆ insertBatch pg s.bronze receivedAt trades :=
        (KeyedTable.table_isPrefix_insertAbsent _ _ _).subset
      exact ⟨h.grow hgrows (KeyedTable.keyUnique_insertAbsent _ _ h.unique), hgrows⟩
  | stgTrades =>
      obtain ⟨table, htable, rfl⟩ := Option.map_eq_some_iff.mp hstep
      refine ⟨⟨h.unique, fun table' hsome => ?_, h.vwap, h.stats⟩, List.Subset.refl _⟩
      obtain rfl := Option.some.inj hsome
      exact parsed_runStgTrades h.unique h.silver htable
  | goldVwap1min =>
      obtain ⟨silver, hsilver, rfl⟩ := Option.map_eq_some_iff.mp hstep
      exact ⟨⟨h.unique, h.silver, traces_runVwap1min h.vwap (h.silver silver hsilver), h.stats⟩, List.Subset.refl _⟩
  | goldTradeStats1min =>
      obtain ⟨silver, hsilver, rfl⟩ := Option.map_eq_some_iff.mp hstep
      refine ⟨⟨h.unique, h.silver, h.vwap, fun row hrow => ?_⟩, List.Subset.refl _⟩
      exact traces_groupBy (fun _ _ => rfl) (h.silver silver hsilver) hrow

end Steps

section Trades

variable {decimalText : Decimal → String} {timeText : Int → String} {ms : List TradeMessage}

/-- The row is the aggregate of the silver rows of some of the trades: at least one, each once, all of the
minute of the row. -/
def Backed {Row : Type} (windowStart : Row → Option Instant) (aggregate : Option Instant → List SilverTrade → Row)
    (ms : List TradeMessage) (row : Row) : Prop :=
  ∃ trades expected, trades ≠ [] ∧ trades ⊆ ms ∧ (trades.map TradeMessage.tradeId).Nodup ∧
    (∀ m ∈ trades, some (dateTruncMinute m.time) = windowStart row) ∧ trades.mapM silverOf = some expected ∧
    row = aggregate (windowStart row) expected

/-- What a published trade was parsed from a row of bronze is its silver row, with the stamp of the row. -/
theorem silverOf_of_parsed {m : TradeMessage} (hprice : ReadsDecimal pg decimalText m.price)
    (hsize : ReadsDecimal pg decimalText m.size) (htime : ReadsTime pg timeText m.time) {row : RawTrade}
    (hpayload : row.payload = m.modelDump decimalText timeText) {x : SilverTrade} (h : parsed pg row = some x) :
    silverOf m = some x.unstamped ∧ x.tradeId = m.tradeId ∧ Gold.window x = some (dateTruncMinute m.time) := by
  obtain ⟨payload, receivedAt⟩ := row
  obtain rfl : payload = m.modelDump decimalText timeText := hpayload
  have hread := map_parsed_modelDump hprice hsize htime receivedAt
  rw [h, Option.map_some] at hread
  obtain ⟨price, size, -, -, rfl⟩ := (parsed_modelDump htime receivedAt x).mp h
  exact ⟨hread.symm, rfl, rfl⟩

theorem Traces.backed {Row : Type} {windowStart : Row → Option Instant}
    {aggregate : Option Instant → List SilverTrade → Row}
    (hunstamped : ∀ k trades, aggregate k (trades.map SilverTrade.unstamped) = aggregate k trades)
    (hsound : ∀ row ∈ bronze, ∃ m ∈ ms, row.payload = m.modelDump decimalText timeText)
    (hreads : Reads pg decimalText timeText ms) {row : Row} (h : Traces pg windowStart aggregate bronze row) :
    Backed windowStart aggregate ms row := by
  obtain ⟨trades, hne, hparsed, hwindow, hrow⟩ := h
  have htrade : ∀ x ∈ trades, ∃ m, m ∈ ms ∧ silverOf m = some x.unstamped ∧ x.tradeId = m.tradeId ∧
      Gold.window x = some (dateTruncMinute m.time) := by
    intro x hx
    obtain ⟨raw, hraw, hx⟩ := hparsed.mem x hx
    obtain ⟨m, hm, hpayload⟩ := hsound raw hraw
    exact ⟨m, hm, silverOf_of_parsed (hreads.price m hm) (hreads.size m hm) (hreads.time m hm) hpayload hx⟩
  obtain ⟨first, hfirst⟩ := List.exists_mem_of_ne_nil trades hne
  have : Nonempty TradeMessage := ⟨(htrade first hfirst).choose⟩
  choose! message hmem hsilver hid hminute using htrade
  refine ⟨trades.map message, trades.map SilverTrade.unstamped, ?_, ?_, ?_, ?_, ?_, ?_⟩
  · exact fun hnil => hne (List.map_eq_nil_iff.mp hnil)
  · intro m hm
    obtain ⟨x, hx, rfl⟩ := List.mem_map.mp hm
    exact hmem x hx
  · have hids : (trades.map message).map TradeMessage.tradeId = trades.map SilverTrade.tradeId := by
      rw [List.map_map]
      exact List.map_congr_left fun x hx => (hid x hx).symm
    rw [hids]
    exact hparsed.nodup
  · intro m hm
    obtain ⟨x, hx, rfl⟩ := List.mem_map.mp hm
    rw [← hminute x hx]
    exact hwindow x hx
  · rw [PartialMap.mapM_map, PartialMap.mapM_congr (g := fun x => some x.unstamped) hsilver]
    exact List.mapM_pure
  · rw [hunstamped]
    exact hrow

/-- A row counts a trade, and no more than there are in its minute. -/
theorem Backed.tradeCount_le (hid : Identified ms) {row : VwapRow}
    (h : Backed VwapRow.windowStart (Gold.vwapRow num) ms row) : 0 < row.tradeCount ∧
      row.tradeCount ≤
        ((distinct ms).filter fun m => some (dateTruncMinute m.time) = row.windowStart).length := by
  obtain ⟨trades, expected, hne, hsub, hids, hminute, hsilver, hrow⟩ := h
  have hcount : row.tradeCount = trades.length := by
    rw [hrow]
    exact PartialMap.length_of_mapM hsilver
  rw [hcount]
  refine ⟨List.length_pos_iff.mpr hne, (List.subperm_of_subset hids.of_map fun m hm => ?_).length_le⟩
  obtain ⟨m', hm', hsame⟩ := exists_mem_distinct (hsub hm)
  obtain rfl := hid m' (mem_of_mem_distinct hm') m (hsub hm) hsame
  exact List.mem_filter.mpr ⟨hm', decide_eq_true (hminute m' hm)⟩

end Trades

end CryptoLakehouse.Lineage
