import CryptoLakehouse.PipelineRefinement

/-! What the readers of the gold tables and of the Parquet files can rely on, whatever has failed or been repeated
on the way: the numbers of a row fit each other, a row lies under the day of its minute, and no minute is twice in
a table. -/

namespace CryptoLakehouse.Export

variable {R : Type} {windowStart : R → Option Instant} {s t : State R} {a : Action R}

variable (windowStart) in
/-- Every row is, or is about to be written, under its day. -/
structure Filed (s : State R) : Prop where
  files : ∀ file ∈ s.files, ∀ row ∈ file.rows, (windowStart row).map utcDay = some file.day
  pending : ∀ pending, s.pc = .writing pending → ∀ p ∈ pending, ∀ row ∈ p.2, (windowStart row).map utcDay = some p.1

theorem filed_step (h : Filed windowStart s) (hstep : step windowStart s a = some t) : Filed windowStart t := by
  cases transition_of_step windowStart hstep with
  | refresh gold => exact ⟨h.files, h.pending⟩
  | unlink kept hpc => exact ⟨fun file hfile => h.files file (List.mem_of_mem_filter hfile), h.pending⟩
  | rmtree hpc => exact ⟨fun file hfile => absurd hfile List.not_mem_nil, by simp⟩
  | read since hpc =>
      refine ⟨h.files, fun pending hpending p hp row hrow => ?_⟩
      cases hpending
      rw [(mem_partitions.mp hp).2, List.mem_filter, decide_eq_true_eq] at hrow
      exact hrow.2
  | writePart uuid day rows pending hpc =>
      have hpending := List.forall_mem_cons.mp (h.pending _ hpc)
      refine ⟨fun file hfile => ?_, fun left hleft => ?_⟩
      · rcases List.mem_append.mp hfile with hold | hnew
        · exact h.files file hold
        · rw [List.mem_singleton.mp hnew]
          exact hpending.1
      · cases hleft
        exact hpending.2
  | _ => exact ⟨h.files, by simp⟩

theorem filed_run {as : List (Action R)} (h : Runs.run (step windowStart) init as = some s) : Filed windowStart s := by
  refine Runs.invariant (fun _ _ _ hs hstep => filed_step hs hstep) ⟨fun file hfile => ?_, fun pending hpc => ?_⟩ h
  · exact absurd hfile List.not_mem_nil
  · cases hpc

end CryptoLakehouse.Export

namespace CryptoLakehouse.Lineage

open Gold (Aligned)
open SilverTrade (Sound volume)

/-- The numbers of a row of `gold_vwap_1min` fit each other. -/
structure WindowInRange (row : VwapRow) : Prop where
  minute : ∃ minute, row.windowStart = some minute ∧ Aligned minute
  prices : ∃ low high, row.lowPrice = some low ∧ row.highPrice = some high ∧ 0 ≤ low ∧ low ≤ high ∧
    ∀ x, row.vwap = some x → low ≤ x ∧ x ≤ high
  volume : ∃ total, row.totalVolume = some total ∧ 0 ≤ total ∧ (row.vwap = none ↔ total = 0)
  count : 0 < row.tradeCount

/-- What is left of a hundred percent is the other side's, as in chart 3 of `docs/metabase_queries.sql`. -/
structure StatsInRange (row : StatsRow) : Prop where
  minute : ∃ minute, row.windowStart = some minute ∧ Aligned minute
  counts : 0 < row.buyCount + row.sellCount
  pct : ∀ x, row.buyVolumePct = some x → 0 ≤ x ∧ x ≤ 100 ∧ 0 ≤ 100 - x ∧ 100 - x ≤ 100

variable {num : Numerics} {ms : List TradeMessage} {trades : List SilverTrade}

theorem sound_of_mapM {expected : List SilverTrade} (h : ms.mapM silverOf = some expected) :
    ∀ trade ∈ expected, Sound trade := by
  intro trade htrade
  obtain ⟨m, -, hsilver⟩ := (PartialMap.mem_of_mapM h).mp htrade
  have hunstamped : trade.unstamped = trade := by
    simp only [silverOf, Option.bind_eq_bind, Option.bind_eq_some_iff, Option.some.injEq] at hsilver
    obtain ⟨price, -, size, -, rfl⟩ := hsilver
    rfl
  apply DbtTest.sound_of_silverOf (m := m)
  rw [hunstamped]
  exact hsilver

theorem ne_nil_of_mapM {expected : List SilverTrade} (hne : ms ≠ []) (h : ms.mapM silverOf = some expected) :
    expected ≠ [] := by
  rintro rfl
  exact hne (List.length_eq_zero_iff.mp (PartialMap.length_of_mapM h).symm)

theorem paid_nonneg {trade : SilverTrade} (h : ∃ m, silverOf m = some trade) : 0 ≤ trade.paid := by
  obtain ⟨m, hsilver⟩ := h
  simp only [silverOf, Option.bind_eq_bind, Option.bind_eq_some_iff, Option.some.injEq] at hsilver
  obtain ⟨price, hprice, size, -, rfl⟩ := hsilver
  exact DbtTest.numeric18_8_nonneg (Decimal.toRat_pos m.price_pos).le (DbtTest.numeric18_8_of_decimalCast hprice)

theorem Backed.windowInRange (hdiv : num.RoundsQuotients) {row : VwapRow}
    (h : Backed VwapRow.windowStart (Gold.vwapRow num) ms row) : WindowInRange row := by
  obtain ⟨messages, expected, hne, -, -, hminute, hsilver, hrow⟩ := h
  have hsound := sound_of_mapM hsilver
  have hexpected := ne_nil_of_mapM hne hsilver
  have hrange := Gold.vwapInRange_vwapRow row.windowStart hdiv hexpected hsound
  obtain ⟨low, high, hlow, hhigh, hlowmem, -, hprices⟩ :=
    Gold.exists_priceRange num row.windowStart hexpected hsound
  have hvolume : (Gold.vwapRow num row.windowStart expected).totalVolume = some (expected.map volume).sum :=
    Gold.sqlSum_map hexpected fun t ht => Gold.size_of_sound (hsound t ht)
  have hcount : (Gold.vwapRow num row.windowStart expected).tradeCount = expected.length := rfl
  rw [← hrow] at hrange hlow hhigh hvolume hcount
  refine ⟨?_, ⟨low.paid, high.paid, hlow, hhigh, ?_, (hprices low hlowmem).2, fun x hx => ?_⟩,
    ⟨_, hvolume, ?_, ?_⟩, ?_⟩
  · obtain ⟨m, hm⟩ := List.exists_mem_of_ne_nil messages hne
    exact ⟨_, (hminute m hm).symm, Gold.aligned_dateTruncMinute m.time⟩
  · obtain ⟨m, -, hlowsilver⟩ := (PartialMap.mem_of_mapM hsilver).mp hlowmem
    exact paid_nonneg ⟨m, hlowsilver⟩
  · obtain ⟨low', high', hlow', hhigh', hle, hge⟩ := hrange.range x hx
    obtain rfl := Option.some.inj (hlow.symm.trans hlow')
    obtain rfl := Option.some.inj (hhigh.symm.trans hhigh')
    exact ⟨hle, hge⟩
  · refine List.sum_nonneg fun v hv => ?_
    obtain ⟨t, ht, rfl⟩ := List.mem_map.mp hv
    exact Gold.volume_nonneg (hsound t ht)
  · rw [hrange.null, Gold.volume_sum_eq_zero_iff hsound]
  · rw [hcount]
    exact List.length_pos_iff.mpr hexpected

theorem Backed.statsInRange (hdiv : num.RoundsQuotients) {row : StatsRow}
    (h : Backed StatsRow.windowStart (Gold.statsRow num) ms row) : StatsInRange row := by
  obtain ⟨messages, expected, hne, -, -, hminute, hsilver, hrow⟩ := h
  have hsound := sound_of_mapM hsilver
  have hexpected := ne_nil_of_mapM hne hsilver
  have hrange := Gold.pctInRange_statsRow row.windowStart hdiv hexpected hsound
  have hcounts : (Gold.statsRow num row.windowStart expected).buyCount +
      (Gold.statsRow num row.windowStart expected).sellCount = expected.length :=
    (Gold.length_eq_buy_add_sell fun t ht => (hsound t ht).side).symm
  rw [← hrow] at hrange hcounts
  refine ⟨?_, ?_, fun x hx => ?_⟩
  · obtain ⟨m, hm⟩ := List.exists_mem_of_ne_nil messages hne
    exact ⟨_, (hminute m hm).symm, Gold.aligned_dateTruncMinute m.time⟩
  · rw [hcounts]
    exact List.length_pos_iff.mpr hexpected
  · obtain ⟨hle, hge⟩ := hrange.range x hx
    exact ⟨hle, hge, sub_nonneg.mpr hge, sub_le_self 100 hle⟩

/-- No minute is twice in a table. -/
structure OneEach (s : Rerun.State) : Prop where
  vwap : ((s.vwap.getD []).map VwapRow.windowStart).Nodup
  stats : ((s.stats.getD []).map StatsRow.windowStart).Nodup

theorem oneEach_step {pg : Postgres} {s t : Rerun.State} {a : Rerun.Action} (h : OneEach s)
    (hstep : Rerun.step pg num s a = some t) : OneEach t := by
  cases a with
  | insert receivedAt batch =>
      obtain rfl := Option.some.inj hstep
      exact ⟨h.vwap, h.stats⟩
  | stgTrades =>
      obtain ⟨table, -, rfl⟩ := Option.map_eq_some_iff.mp hstep
      exact ⟨h.vwap, h.stats⟩
  | goldVwap1min =>
      obtain ⟨silver, -, rfl⟩ := Option.map_eq_some_iff.mp hstep
      refine ⟨?_, h.stats⟩
      cases hvwap : s.vwap with
      | none => exact (Gold.represents_vwap1min num silver).nodup
      | some table =>
          have hold := h.vwap
          rw [hvwap] at hold
          exact KeyedTable.nodup_replaceByKey _ hold (Gold.represents_vwap1min num _).nodup
  | goldTradeStats1min =>
      obtain ⟨silver, -, rfl⟩ := Option.map_eq_some_iff.mp hstep
      have hkeys : (Gold.tradeStats1min num silver).map StatsRow.windowStart = (silver.map Gold.window).dedup :=
        Grouping.map_groupBy (fun _ _ => rfl) silver
      refine ⟨h.vwap, ?_⟩
      rw [Option.getD_some, hkeys]
      exact List.nodup_dedup _

theorem oneEach_run {pg : Postgres} {s : Rerun.State} {as : List Rerun.Action}
    (h : Runs.run (Rerun.step pg num) Rerun.init as = some s) : OneEach s :=
  Runs.invariant (fun _ _ _ hs hstep => oneEach_step hs hstep)
    (⟨List.nodup_nil, List.nodup_nil⟩ : OneEach Rerun.init) h

end CryptoLakehouse.Lineage

namespace CryptoLakehouse.System

open Lineage (WindowInRange StatsInRange OneEach)
open Pipeline (trades published)

variable {R Body K Frame : Type} {py : Pydantic} {loadsFrame : Frame → Except Exn Json} {pg : Postgres} {num : Numerics}
  {loads : Body → Except Exn Json} {dump : TradeMessage → Body} {decimalText : Decimal → String}
  {timeText : Int → String} {connections : List (List Frame)} {s : State R Body K}

/-- What the readers find. -/
structure InRange (s : State R Body K) : Prop where
  oneEach : OneEach s.dag.warehouse
  vwap : ∀ row ∈ s.dag.warehouse.vwap.getD [], WindowInRange row
  stats : ∀ row ∈ s.dag.warehouse.stats.getD [], StatsInRange row
  vwapFiles : ∀ file ∈ s.dag.vwapFiles.files, ∀ row ∈ file.rows,
    WindowInRange row ∧ row.windowStart.map Export.utcDay = some file.day
  statsFiles : ∀ file ∈ s.dag.statsFiles.files, ∀ row ∈ file.rows,
    StatsInRange row ∧ row.windowStart.map Export.utcDay = some file.day

variable [DecidableEq R] [DecidableEq Body] [DecidableEq K]

/-- **Every row that a reader can find is in range**, in every state of every run, and lies under its day; in the
tables there is one for each minute. -/
theorem rows_in_range (hloads : ∀ m, loads (dump m) = .ok (.obj (m.modelDump decimalText timeText)))
    {batchSize : Int} {as : List (Action R Body K)}
    (hrun : Runs.run (step pg num loads) (init batchSize) as = some s)
    (hsent : ∀ message, .ingestion (.call message) ∈ as → message ∈ published py loadsFrame dump connections)
    (hid : Identified (trades py loadsFrame connections))
    (hreads : Reads pg decimalText timeText (trades py loadsFrame connections)) (hdiv : num.RoundsQuotients) :
    InRange s := by
  have hbacked := (connected_run hloads hrun hsent).rowsBacked hid hreads
  have hfiles := files_run hrun
  refine ⟨Lineage.oneEach_run (warehouse_run hrun).2, fun row hrow => (hbacked.vwap row hrow).windowInRange hdiv,
    fun row hrow => (hbacked.stats row hrow).statsInRange hdiv, fun file hfile row hrow => ?_,
    fun file hfile row hrow => ?_⟩
  · have hday := (Export.filed_run (hfiles .goldVwap1min)).files file hfile row hrow
    exact ⟨(hbacked.vwapFiles file hfile row hrow).1.windowInRange hdiv, hday⟩
  · have hday := (Export.filed_run (hfiles .goldTradeStats1min)).files file hfile row hrow
    exact ⟨(hbacked.statsFiles file hfile row hrow).statsInRange hdiv, hday⟩

theorem rows_in_range_wholeRun : ∃ s,
    Runs.run (step offeredPostgres Gold.sixteenDigits sampleLoads) (init 1) wholeRun = some s ∧
      s.dag.vwapFiles.files.map (fun file => file.rows.map VwapRow.vwap) = [[some 1]] ∧ InRange s := by
  have hrun : (Runs.run (step offeredPostgres Gold.sixteenDigits sampleLoads) (init 1) wholeRun).any
      (fun s => s.dag.vwapFiles.files.map (fun file => file.rows.map VwapRow.vwap) = [[some 1]]) = true := by
    decide +kernel
  obtain ⟨s, hs, hfiles⟩ := (Option.any_eq_true _ _).mp hrun
  have hdiv : Gold.sixteenDigits.RoundsQuotients := fun x y _ => ⟨16, le_rfl, Rounding.nearest_round 16 (x / y)⟩
  exact ⟨s, hs, of_decide_eq_true hfiles, rows_in_range (fun _ => rfl) hs sent_wholeRun Pipeline.identified_sample
    Pipeline.reads_sample hdiv⟩

end CryptoLakehouse.System
