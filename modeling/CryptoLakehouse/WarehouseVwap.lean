import CryptoLakehouse.WarehouseGold

/-! When the incremental `gold_vwap_1min` is the aggregation of the whole of silver. The watermark is the
start of the newest window, so a run sees none of the older windows again, and of the newest one all but
the trades at its very start. -/

namespace CryptoLakehouse.Gold

section Windows

/-- Starts of minutes. -/
def Aligned (x : Instant) : Prop := dateTruncMinute x = x

theorem aligned_dateTruncMinute (x : Instant) : Aligned (dateTruncMinute x) := by
  unfold Aligned dateTruncMinute Instant
  omega

theorem le_dateTruncMinute {start x : Instant} (hstart : Aligned start) :
    start ≤ dateTruncMinute x ↔ start ≤ x := by
  unfold Aligned dateTruncMinute Instant at *
  omega

theorem after_iff {start : Instant} {trade : SilverTrade} :
    after start trade = true ↔ ∃ x, trade.tradedAt = some x ∧ start < x := by
  unfold after
  cases trade.tradedAt <;> simp

theorem window_eq_some {trade : SilverTrade} {k : Instant} :
    window trade = some k ↔ ∃ x, trade.tradedAt = some x ∧ dateTruncMinute x = k := by
  rw [window, Option.map_eq_some_iff]

/-- Behind the watermark's window no trade passes, in front of it every trade does. -/
theorem after_eq_false_of_window_lt {start k : Instant} (hstart : Aligned start) (hlt : k < start)
    {trade : SilverTrade} (h : window trade = some k) : after start trade = false := by
  obtain ⟨x, hx, rfl⟩ := window_eq_some.mp h
  have hnot : ¬ start ≤ x := fun hle => absurd ((le_dateTruncMinute hstart).mpr hle) (not_le.mpr hlt)
  simp [after, hx, (not_le.mp hnot).le]

theorem after_of_lt_window {start k : Instant} (hlt : start < k) {trade : SilverTrade}
    (h : window trade = some k) : after start trade = true := by
  obtain ⟨x, hx, rfl⟩ := window_eq_some.mp h
  have hle : dateTruncMinute x ≤ x := (le_dateTruncMinute (aligned_dateTruncMinute x)).mp le_rfl
  exact after_iff.mpr ⟨x, hx, lt_of_lt_of_le hlt hle⟩

/-- Within the watermark's window a trade passes unless it is traded at the very start. -/
theorem after_of_window_eq {start : Instant} (hstart : Aligned start) {trade : SilverTrade}
    (h : window trade = some start) : after start trade = true ↔ trade.tradedAt ≠ some start := by
  obtain ⟨x, hx, htrunc⟩ := window_eq_some.mp h
  have hle : start ≤ x := (le_dateTruncMinute hstart).mp htrunc.ge
  rw [after_iff, hx]
  simp only [Option.some.injEq, exists_eq_left', ne_eq]
  exact ⟨fun hlt => hlt.ne', fun hne => lt_of_le_of_ne hle (Ne.symm hne)⟩

theorem window_of_boundary {start : Instant} (hstart : Aligned start) {trade : SilverTrade}
    (h : trade.tradedAt = some start) : window trade = some start :=
  window_eq_some.mpr ⟨start, h, hstart⟩

end Windows

/-- What a run with watermark `start` must meet in the trades it found before and those added since. -/
structure InTime (start : Instant) (old added : List SilverTrade) : Prop where
  late : ∀ t ∈ added, after start t = true
  boundary : (∀ t ∈ old, t.tradedAt ≠ some start) ∨
    ∀ t ∈ old ++ added, window t = some start → t.tradedAt = some start

section Step

variable {start : Instant} {old added : List SilverTrade}

theorem covered_of_inTime (hstart : Aligned start) (h : InTime start old added) (k : Option Instant) :
    Grouping.Covered window (after start) old added k := by
  unfold Grouping.Covered
  simp only [Grouping.mem_group]
  have hnone : (∀ t ∈ added, window t ≠ k) → Grouping.group window added k = [] := fun hadded =>
    List.filter_eq_nil_iff.mpr fun t ht => by simpa using hadded t ht
  cases k with
  | none =>
      refine .inr ⟨fun t ht => ?_, hnone fun t ht hwindow => ?_⟩
      · simp [after, Option.map_eq_none_iff.mp ht.2]
      · obtain ⟨x, hx, -⟩ := after_iff.mp (h.late t ht)
        simp [window, hx] at hwindow
  | some m =>
      rcases lt_trichotomy m start with hlt | rfl | hgt
      · -- an older window
        refine .inr ⟨fun t ht => after_eq_false_of_window_lt hstart hlt ht.2, hnone fun t ht hwindow => ?_⟩
        have hlate := h.late t ht
        rw [after_eq_false_of_window_lt hstart hlt hwindow] at hlate
        cases hlate
      · -- the newest window
        rcases h.boundary with hclear | honly
        · refine .inl fun t ht => ?_
          rcases List.mem_append.mp ht.1 with hold | hnew
          · exact (after_of_window_eq hstart ht.2).mpr (hclear t hold)
          · exact h.late t hnew
        · refine .inr ⟨fun t ht => ?_, hnone fun t ht hwindow => ?_⟩
          · simp [after, honly t ht.1 ht.2]
          · have hlate := h.late t ht
            simp [after, honly t (List.mem_append_right _ ht) hwindow] at hlate
      · -- a window of new trades only
        exact .inl fun t ht => after_of_lt_window hgt ht.2

theorem inTime_of_covered (hstart : Aligned start)
    (h : ∀ k, Grouping.Covered window (after start) old added k) : InTime start old added := by
  unfold Grouping.Covered at h
  simp only [Grouping.mem_group] at h
  constructor
  · intro t ht
    rcases h (window t) with hall | ⟨-, hempty⟩
    · exact hall t ⟨List.mem_append_right _ ht, rfl⟩
    · have hmem : t ∈ Grouping.group window added (window t) := Grouping.mem_group.mpr ⟨ht, rfl⟩
      rw [hempty] at hmem
      cases hmem
  · rcases h (some start) with hall | ⟨hnone, -⟩
    · refine .inl fun t ht hboundary => ?_
      have hafter := hall t ⟨List.mem_append_left _ ht, window_of_boundary hstart hboundary⟩
      simp [after, hboundary] at hafter
    · refine .inr fun t ht hwindow => ?_
      by_contra hboundary
      have hafter := (after_of_window_eq hstart hwindow).mpr hboundary
      rw [hnone t ⟨ht, hwindow⟩] at hafter
      cases hafter

end Step

section Run

variable {num : Numerics} {table : List VwapRow} {old added : List SilverTrade}

theorem represents_vwap1min (num : Numerics) (rows : List SilverTrade) :
    KeyedTable.Represents VwapRow.windowStart (vwap1min num rows)
      (Grouping.aggregateAt window (vwapRow num) rows) :=
  Grouping.represents_groupBy (fun _ _ => rfl) rows

theorem aligned_watermark (h : table.Perm (vwap1min num old)) : Aligned (watermark table) := by
  rw [watermark]
  cases hmax : (table.filterMap VwapRow.windowStart).max? with
  | none =>
      show dateTruncMinute EPOCH_1900 = EPOCH_1900
      decide
  | some m =>
      obtain ⟨row, hrow, hm⟩ := List.mem_filterMap.mp (List.max?_mem hmax)
      obtain ⟨k, hk, rfl⟩ := Grouping.mem_groupBy.mp (h.mem_iff.mp hrow)
      obtain ⟨t, -, ht⟩ := List.mem_map.mp hk
      obtain ⟨x, -, hx⟩ := window_eq_some.mp (ht.trans hm)
      rw [Option.getD_some, ← hx]
      exact aligned_dateTruncMinute x

/-- One incremental run over an up-to-date table. -/
theorem runVwap1min_perm_iff (h : table.Perm (vwap1min num old)) :
    (runVwap1min num (some table) (old ++ added)).Perm (vwap1min num (old ++ added)) ↔
      InTime (watermark table) old added := by
  have hmerged := ((represents_vwap1min num old).of_perm h.symm).replaceByKey
    (represents_vwap1min num ((old ++ added).filter (after (watermark table))))
  have hcount : ∀ k rows rows', vwapRow num k rows = vwapRow num k rows' → rows.length = rows'.length :=
    fun k rows rows' heq => congrArg VwapRow.tradeCount heq
  rw [runVwap1min, hmerged.perm_iff (represents_vwap1min num (old ++ added)), funext_iff]
  simp only [Grouping.merge_eq_iff hcount]
  exact ⟨inTime_of_covered (aligned_watermark h), covered_of_inTime (aligned_watermark h)⟩

theorem length_eq_buy_add_sell {trades : List SilverTrade}
    (h : ∀ t ∈ trades, t.side = some "buy" ∨ t.side = some "sell") :
    trades.length = (trades.filter fun t => t.side = some "buy").length +
      (trades.filter fun t => t.side = some "sell").length := by
  induction trades with
  | nil => rfl
  | cons t trades ih =>
      rw [List.forall_mem_cons] at h
      rcases h.1 with hside | hside <;> simp [hside, ih h.2] <;> omega

/-- The tables agree with silver and with each other after a run. -/
structure UpToDate (num : Numerics) (s : State) : Prop where
  recompute : ∃ table, s.vwap = some table ∧ table.Perm (vwap1min num s.silver)
  windows : ∀ table, s.vwap = some table →
    (table.map VwapRow.windowStart).Perm (s.stats.map StatsRow.windowStart)
  counts : (∀ t ∈ s.silver, t.side = some "buy" ∨ t.side = some "sell") →
    ∀ table, s.vwap = some table → ∀ v ∈ table, ∀ r ∈ s.stats, v.windowStart = r.windowStart →
      v.tradeCount = r.buyCount + r.sellCount

/-- The rest follows from the first part, as the statistics are built anew in every run. -/
theorem upToDate_of_perm {s : State} (hvwap : s.vwap = some table)
    (hstats : s.stats = tradeStats1min num s.silver) (h : table.Perm (vwap1min num s.silver)) :
    UpToDate num s := by
  refine ⟨⟨table, hvwap, h⟩, ?_, ?_⟩
  · rintro _ hsome
    obtain rfl := Option.some.inj (hvwap.symm.trans hsome)
    have hwindows := h.map VwapRow.windowStart
    rw [vwap1min, Grouping.map_groupBy (fun _ _ => rfl)] at hwindows
    rw [hstats, tradeStats1min, Grouping.map_groupBy (fun _ _ => rfl)]
    exact hwindows
  · rintro hsides _ hsome v hv r hr hkey
    obtain rfl := Option.some.inj (hvwap.symm.trans hsome)
    obtain ⟨k, -, rfl⟩ := Grouping.mem_groupBy.mp (h.mem_iff.mp hv)
    rw [hstats] at hr
    obtain ⟨k', -, rfl⟩ := Grouping.mem_groupBy.mp hr
    obtain rfl : k = k' := hkey
    exact length_eq_buy_add_sell fun t ht => hsides t (Grouping.mem_group.mp ht).1

/-- Every run after the first meets its trades in time. -/
def RunInTime (s : State) (added : List SilverTrade) : Prop :=
  ∀ table, s.vwap = some table → InTime (watermark table) s.silver added

/-- Before the first run, or after a run that left the table up to date. -/
def Current (num : Numerics) (s : State) : Prop :=
  ∀ table, s.vwap = some table → table.Perm (vwap1min num s.silver)

theorem upToDate_step_iff {s : State} (hs : Current num s) (added : List SilverTrade) :
    (∀ t, step num s added = some t → UpToDate num t) ↔ RunInTime s added := by
  have hnext : (∀ t, step num s added = some t → UpToDate num t) ↔
      (runVwap1min num s.vwap (s.silver ++ added)).Perm (vwap1min num (s.silver ++ added)) := by
    constructor
    · intro h
      obtain ⟨table, htable, hperm⟩ := (h _ rfl).recompute
      exact Option.some.inj htable ▸ hperm
    · rintro hperm _ hstep
      obtain rfl := Option.some.inj hstep
      exact upToDate_of_perm rfl rfl hperm
  rw [hnext, RunInTime]
  cases hvwap : s.vwap with
  | none => exact iff_of_true (List.Perm.refl _) fun table hnone => by cases hnone
  | some table =>
      rw [runVwap1min_perm_iff (hs table hvwap)]
      exact ⟨fun h _ hsome => Option.some.inj hsome ▸ h, fun h => h table rfl⟩

end Run

/-- **The incremental table is the recomputed one after every run of a schedule exactly when every run met
its trades in time.** Each element of the schedule is what was added to silver before one run. -/
theorem upToDate_iff_inTime (num : Numerics) (schedule : List (List SilverTrade)) :
    (∀ done, done ≠ [] → done <+: schedule → ∀ s, Runs.run (step num) init done = some s →
        UpToDate num s) ↔
      Runs.Meets (step num) RunInTime init schedule := by
  rw [← Runs.meets_after_iff]
  apply Runs.meets_congr (I := Current num) (fun s added hs => upToDate_step_iff hs added)
  · intro s added t hs hafter hstep table htable
    obtain ⟨table', htable', hperm⟩ := (hafter t hstep).recompute
    obtain rfl := Option.some.inj (htable.symm.trans htable')
    exact hperm
  · intro table hnone
    cases hnone

/-- A buy of one unit at price one, so many seconds after the epoch. -/
def sampleTrade (tradeId : String) (seconds : Int) : SilverTrade :=
  ⟨tradeId, some 1, some 1, some "buy", some (seconds * 1000000), 0⟩

/-- The operations on the numbers of `sampleTrade`. -/
def sampleNumerics : Numerics := ⟨fun x y => x / y, fun prices => if prices.length < 2 then none else some 0⟩

/-- Trades at 10:00:00 and 10:00:30, and a second run with nothing new: it counts the later one alone. -/
theorem boundary_trade_dropped :
    ∃ s, Runs.run (step sampleNumerics) init [[sampleTrade "a" 36000, sampleTrade "b" 36030], []] = some s ∧
      s.vwap.map (List.map VwapRow.tradeCount) = some [1] ∧
      (vwap1min sampleNumerics s.silver).map VwapRow.tradeCount = [2] ∧
      s.stats.map (fun r => (r.buyCount, r.sellCount)) = [(2, 0)] ∧ ¬ UpToDate sampleNumerics s := by
  have hcounts : (runVwap1min sampleNumerics (some (vwap1min sampleNumerics
      [sampleTrade "a" 36000, sampleTrade "b" 36030])) [sampleTrade "a" 36000, sampleTrade "b" 36030]).map
        VwapRow.tradeCount = [1] := by decide +kernel
  have hfull : (vwap1min sampleNumerics [sampleTrade "a" 36000, sampleTrade "b" 36030]).map
      VwapRow.tradeCount = [2] := by decide +kernel
  have hstats : (tradeStats1min sampleNumerics [sampleTrade "a" 36000, sampleTrade "b" 36030]).map
      (fun r => (r.buyCount, r.sellCount)) = [(2, 0)] := by decide +kernel
  refine ⟨_, rfl, congrArg some hcounts, hfull, hstats, fun h => ?_⟩
  obtain ⟨table, htable, hperm⟩ := h.recompute
  obtain rfl := Option.some.inj htable
  have hsame : List.Perm [1] [2] := by
    calc List.Perm [1] _ := List.Perm.of_eq hcounts.symm
      List.Perm _ _ := hperm.map VwapRow.tradeCount
      List.Perm _ [2] := List.Perm.of_eq hfull
  exact absurd hsame (by decide)

end CryptoLakehouse.Gold
