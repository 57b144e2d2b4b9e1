import CryptoLakehouse.WarehouseVwap

/-! `dbt_run` of `dags/crypto_pipeline_dag.py`, which Airflow retries: the models in the order of their
references, over bronze as the consumers fill it. A model that raises leaves its table and is no step, so a
history may run the models one by one; a second run over the same bronze should then find nothing to do. -/

namespace CryptoLakehouse.Rerun

/-- `none` is a table not built yet. -/
structure State where
  bronze : Bronze
  silver : Option (List SilverTrade)
  vwap : Option (List VwapRow)
  stats : Option (List StatsRow)

inductive Action where
  | insert (receivedAt : Instant) (trades : List Dict)
  | stgTrades
  | goldVwap1min
  | goldTradeStats1min

def init : State := ⟨[], none, none, none⟩

def step (pg : Postgres) (num : Numerics) (s : State) : Action → Option State
  | .insert receivedAt trades => some { s with bronze := insertBatch pg s.bronze receivedAt trades }
  | .stgTrades => (runStgTrades pg s.silver s.bronze).map fun table => { s with silver := some table }
  | .goldVwap1min => s.silver.map fun silver => { s with vwap := some (Gold.runVwap1min num s.vwap silver) }
  | .goldTradeStats1min => s.silver.map fun silver => { s with stats := some (Gold.tradeStats1min num silver) }

def dbtRun : List Action := [.stgTrades, .goldVwap1min, .goldTradeStats1min]

/-- The three tables have the rows that they had. -/
structure Unchanged (s t : State) : Prop where
  silver : t.silver = s.silver
  vwap : ∃ table table', s.vwap = some table ∧ t.vwap = some table' ∧ table'.Perm table
  stats : t.stats = s.stats

section Silver

variable {pg : Postgres} {silver : Option (List SilverTrade)} {bronze : Bronze} {table : List SilverTrade}

/-- Behind a run no row of bronze with a trade id is above the watermark. -/
theorem le_watermark_of_run (hunique : KeyedTable.KeyUnique (RawTrade.tradeId pg) bronze)
    (h : runStgTrades pg silver bronze = some table) {row : RawTrade} (hrow : row ∈ bronze)
    (hid : row.tradeId pg ≠ none) : row.receivedAt ≤ watermark table := by
  -- a row that the run selected is in the table
  have hselected : ∀ since rows, stgTrades pg since bronze = some rows → rows ⊆ table →
      row ∈ sourceData pg since bronze → row.receivedAt ≤ watermark table := by
    intro since rows hrows hsub hsource
    have hmirrors := mirrors_stgTrades hunique hrows
    obtain ⟨x, hx⟩ := Option.isSome_iff_exists.mp (hmirrors.casts row hsource hid)
    rw [← parsed_ingestedAt hx]
    exact le_watermark (hsub ((hmirrors.mem x).mpr ⟨row, hsource, hx⟩))
  cases silver with
  | none => exact hselected none table h (List.Subset.refl _) (by simp [hrow, hid])
  | some old =>
      obtain ⟨rows, hrows, rfl⟩ := Option.map_eq_some_iff.mp h
      have hmirrors := mirrors_stgTrades hunique hrows
      have hnew : ∀ x ∈ rows, watermark old < x.ingestedAt := by
        intro x hx
        obtain ⟨row', hrow', hparsed⟩ := (hmirrors.mem x).mp hx
        rw [parsed_ingestedAt hparsed]
        exact (mem_sourceData.mp hrow').2.2 _ rfl
      by_contra habove
      have hbelow := (watermark_replaceByKey hnew).trans_lt (not_le.mp habove)
      refine habove (hselected _ rows hrows (fun x hx => (KeyedTable.mem_replaceByKey _).mpr (.inr hx)) ?_)
      exact mem_sourceData.mpr ⟨hrow, hid, fun since hsince => Option.some.inj hsince ▸ hbelow⟩

/-- A second run of `stg_trades` selects nothing. -/
theorem runStgTrades_again (hunique : KeyedTable.KeyUnique (RawTrade.tradeId pg) bronze)
    (h : runStgTrades pg silver bronze = some table) : runStgTrades pg (some table) bronze = some table := by
  have hnone : sourceData pg (some (watermark table)) bronze = [] := by
    refine List.eq_nil_iff_forall_not_mem.mpr fun row hsource => ?_
    obtain ⟨hrow, hid, habove⟩ := mem_sourceData.mp hsource
    exact absurd (le_watermark_of_run hunique h hrow hid) (not_le.mpr (habove _ rfl))
  rw [runStgTrades, stgTrades, hnone]
  exact congrArg some (KeyedTable.replaceByKey_nil _ table)

end Silver

section Vwap

open Gold (window vwapRow vwap1min runVwap1min after Aligned)

variable {num : Numerics} {this : Option (List VwapRow)} {table : List VwapRow} {silver : List SilverTrade}

/-- One row for each window, and the windows are minutes. -/
structure WellKeyed (table : List VwapRow) : Prop where
  nodup : (table.map VwapRow.windowStart).Nodup
  aligned : ∀ row ∈ table, ∀ m, row.windowStart = some m → Aligned m

theorem wellKeyed_vwap1min (num : Numerics) (base : List SilverTrade) : WellKeyed (vwap1min num base) where
  nodup := (Gold.represents_vwap1min num base).nodup
  aligned row hrow m hm := by
    obtain ⟨k, hk, rfl⟩ := Grouping.mem_groupBy.mp hrow
    obtain ⟨t, -, ht⟩ := List.mem_map.mp hk
    obtain ⟨x, -, rfl⟩ := Gold.window_eq_some.mp (ht.trans hm)
    exact Gold.aligned_dateTruncMinute x

variable (num) in
theorem WellKeyed.run (h : ∀ old, this = some old → WellKeyed old) (silver : List SilverTrade) :
    WellKeyed (runVwap1min num this silver) := by
  cases this with
  | none => exact wellKeyed_vwap1min num silver
  | some old =>
      have hold := h old rfl
      have hnew := wellKeyed_vwap1min num (silver.filter (after (Gold.watermark old)))
      refine ⟨KeyedTable.nodup_replaceByKey _ hold.nodup hnew.nodup, fun row hrow => ?_⟩
      rcases (KeyedTable.mem_replaceByKey _).mp hrow with ⟨hrow, -⟩ | hrow
      · exact hold.aligned row hrow
      · exact hnew.aligned row hrow

theorem le_watermark_of_window {row : VwapRow} {m : Instant} (hrow : row ∈ table) (hm : row.windowStart = some m) :
    m ≤ Gold.watermark table := by
  have hmem : m ∈ table.filterMap VwapRow.windowStart := List.mem_filterMap.mpr ⟨row, hrow, hm⟩
  obtain ⟨newest, hmax⟩ := Option.isSome_iff_exists.mp (List.isSome_max?_of_mem hmem)
  rw [Gold.watermark, hmax, Option.getD_some]
  exact (List.max?_eq_some_iff.mp hmax).2 m hmem

/-- The watermark is the start of a window, or nothing in the table has a window. -/
theorem watermark_cases (table : List VwapRow) :
    (∃ row ∈ table, row.windowStart = some (Gold.watermark table)) ∨
      Gold.watermark table = EPOCH_1900 ∧ ∀ row ∈ table, row.windowStart = none := by
  rw [Gold.watermark]
  cases hmax : (table.filterMap VwapRow.windowStart).max? with
  | none =>
      refine .inr ⟨rfl, fun row hrow => ?_⟩
      have hempty := List.max?_eq_none_iff.mp hmax
      exact List.filterMap_eq_nil_iff.mp hempty row hrow
  | some newest => exact .inl (List.mem_filterMap.mp (List.max?_mem hmax))

theorem aligned_epoch : Aligned EPOCH_1900 := by
  show dateTruncMinute EPOCH_1900 = EPOCH_1900
  decide

theorem WellKeyed.aligned_watermark (h : WellKeyed table) : Aligned (Gold.watermark table) := by
  rcases watermark_cases table with ⟨row, hrow, hm⟩ | ⟨hepoch, -⟩
  · exact h.aligned row hrow _ hm
  · rw [hepoch]
    exact aligned_epoch

variable (num) in
/-- A run never moves the watermark back. -/
theorem watermark_le_run {old : List VwapRow} (h : WellKeyed old) (silver : List SilverTrade) :
    Gold.watermark old ≤ Gold.watermark (runVwap1min num (some old) silver) := by
  rcases watermark_cases old with ⟨row, hrow, hm⟩ | ⟨hepoch, hnone⟩
  · have hkey := KeyedTable.map_subset_replaceByKey VwapRow.windowStart old
      (vwap1min num (silver.filter (after (Gold.watermark old)))) (List.mem_map_of_mem hrow)
    obtain ⟨row', hrow', hm'⟩ := List.mem_map.mp hkey
    exact le_watermark_of_window hrow' (hm'.trans hm)
  · rcases watermark_cases (runVwap1min num (some old) silver) with ⟨row, hrow, hm⟩ | ⟨hepoch', -⟩
    · rcases (KeyedTable.mem_replaceByKey _).mp hrow with ⟨hrow, -⟩ | hrow
      · rw [hnone row hrow] at hm
        cases hm
      · obtain ⟨k, hk, rfl⟩ := Grouping.mem_groupBy.mp hrow
        obtain ⟨t, ht, hwindow⟩ := List.mem_map.mp hk
        obtain ⟨x, hx, hlt⟩ := Gold.after_iff.mp (List.mem_filter.mp ht).2
        obtain ⟨x', hx', htrunc⟩ := Gold.window_eq_some.mp (hwindow.trans hm)
        obtain rfl : x = x' := Option.some.inj (hx.symm.trans hx')
        rw [← htrunc, Gold.le_dateTruncMinute h.aligned_watermark]
        exact hlt.le
    · rw [hepoch, hepoch']

/-- What the model's `where` lets through. -/
def selects : Option (List VwapRow) → SilverTrade → Bool
  | none => fun _ => true
  | some table => after (Gold.watermark table)

theorem vwap1min_subset_run : vwap1min num (silver.filter (selects this)) ⊆ runVwap1min num this silver := by
  intro row hrow
  cases this with
  | none => simpa [selects, runVwap1min] using hrow
  | some table => exact (KeyedTable.mem_replaceByKey _).mpr (.inr hrow)

theorem selects_of_after (h : ∀ old, this = some old → WellKeyed old) {t : SilverTrade}
    (hafter : after (Gold.watermark (runVwap1min num this silver)) t = true) : selects this t = true := by
  cases this with
  | none => rfl
  | some old =>
      obtain ⟨x, hx, hlt⟩ := Gold.after_iff.mp hafter
      apply Gold.after_iff.mpr
      refine ⟨x, hx, ?_⟩
      calc Gold.watermark old
          ≤ Gold.watermark (runVwap1min num (some old) silver) := watermark_le_run num (h old rfl) silver
        _ < x := hlt

/-- Behind a run a trade above the watermark lies in the newest window. -/
theorem window_of_after (h : ∀ old, this = some old → WellKeyed old) {t : SilverTrade} (ht : t ∈ silver)
    (hafter : after (Gold.watermark (runVwap1min num this silver)) t = true) :
    window t = some (Gold.watermark (runVwap1min num this silver)) := by
  have hselected : t ∈ silver.filter (selects this) := List.mem_filter.mpr ⟨ht, selects_of_after h hafter⟩
  obtain ⟨x, hx, hlt⟩ := Gold.after_iff.mp hafter
  have hwindow : window t = some (dateTruncMinute x) := Gold.window_eq_some.mpr ⟨x, hx, rfl⟩
  rw [hwindow, Option.some.injEq]
  refine le_antisymm ?_ ((Gold.le_dateTruncMinute (WellKeyed.run num h silver).aligned_watermark).mpr hlt.le)
  have hrow : vwapRow num (window t) (Grouping.group window (silver.filter (selects this)) (window t)) ∈
      vwap1min num (silver.filter (selects this)) :=
    Grouping.mem_groupBy.mpr ⟨window t, List.mem_map_of_mem hselected, rfl⟩
  exact le_watermark_of_window (vwap1min_subset_run hrow) hwindow

/-- The run before left the watermark where it was, or of the newest window no trade, or every trade, is
traded at its very start. -/
def Steady (this : Option (List VwapRow)) (silver : List SilverTrade) (table : List VwapRow) : Prop :=
  (∃ old, this = some old ∧ Gold.watermark old = Gold.watermark table) ∨
    (∀ t ∈ silver, t.tradedAt ≠ some (Gold.watermark table)) ∨
    ∀ t ∈ silver, window t = some (Gold.watermark table) → t.tradedAt = some (Gold.watermark table)

/-- Behind a run that moved the watermark the newest window has the row of all its trades. -/
theorem newest_row_mem (h : ∀ old, this = some old → WellKeyed old)
    (hmoved : ∀ old, this = some old → Gold.watermark old ≠ Gold.watermark (runVwap1min num this silver))
    {t : SilverTrade} (ht : t ∈ silver)
    (hwindow : window t = some (Gold.watermark (runVwap1min num this silver))) :
    vwapRow num (window t) (Grouping.group window silver (window t)) ∈ runVwap1min num this silver := by
  have hall : ∀ other ∈ Grouping.group window silver (window t), selects this other = true := by
    intro other hother
    cases this with
    | none => rfl
    | some old =>
        have hlt := lt_of_le_of_ne (watermark_le_run num (h old rfl) silver) (hmoved old rfl)
        exact Gold.after_of_lt_window hlt ((Grouping.mem_group.mp hother).2.trans hwindow)
  have hselected : t ∈ silver.filter (selects this) :=
    List.mem_filter.mpr ⟨ht, hall t (Grouping.mem_group.mpr ⟨ht, rfl⟩)⟩
  refine vwap1min_subset_run (Grouping.mem_groupBy.mpr ⟨window t, List.mem_map_of_mem hselected, ?_⟩)
  rw [Grouping.group_filter_eq hall]

/-- When a second run of the model over the same silver leaves its table as it is. -/
theorem runVwap1min_again_iff (h : ∀ old, this = some old → WellKeyed old) :
    (runVwap1min num (some (runVwap1min num this silver)) silver).Perm (runVwap1min num this silver) ↔
      Steady this silver (runVwap1min num this silver) := by
  have hwell := WellKeyed.run num h silver
  have hnew := wellKeyed_vwap1min num (silver.filter (after (Gold.watermark (runVwap1min num this silver))))
  rw [runVwap1min, KeyedTable.replaceByKey_perm_self_iff _ hwell.nodup hnew.nodup]
  by_cases hsame : ∃ old, this = some old ∧ Gold.watermark old = Gold.watermark (runVwap1min num this silver)
  · -- the same trades are selected again
    refine iff_of_true ?_ (.inl hsame)
    obtain ⟨old, rfl, hsame⟩ := hsame
    rw [← hsame]
    exact @vwap1min_subset_run num (some old) silver
  have hmoved : ∀ old, this = some old → Gold.watermark old ≠ Gold.watermark (runVwap1min num this silver) :=
    fun old hold heq => hsame ⟨old, hold, heq⟩
  constructor
  · intro hsub
    refine .inr ?_
    by_contra hboth
    push Not at hboth
    obtain ⟨⟨first, hfirst, hstart⟩, later, hlater, hwindow, hinside⟩ := hboth
    have hfirstWindow := Gold.window_of_boundary hwell.aligned_watermark hstart
    -- the second run counts the later trade but not the first one
    have hafter := (Gold.after_of_window_eq hwell.aligned_watermark hwindow).mpr hinside
    have hlaterRow := hsub (Grouping.mem_groupBy.mpr ⟨window later,
      List.mem_map_of_mem (List.mem_filter.mpr ⟨hlater, hafter⟩), rfl⟩)
    have hfullRow := newest_row_mem h hmoved hlater hwindow
    have hrows := List.inj_on_of_nodup_map hwell.nodup hlaterRow hfullRow rfl
    have hcounts : _ = _ := congrArg VwapRow.tradeCount hrows
    simp only [vwapRow, Grouping.group_filter, List.length_filter_eq_length_iff] at hcounts
    have hdropped := hcounts first (Grouping.mem_group.mpr ⟨hfirst, hfirstWindow.trans hwindow.symm⟩)
    exact (Gold.after_of_window_eq hwell.aligned_watermark hfirstWindow).mp hdropped hstart
  · intro hsteady row hrow
    obtain ⟨k, hk, rfl⟩ := Grouping.mem_groupBy.mp hrow
    obtain ⟨t, ht, rfl⟩ := List.mem_map.mp hk
    obtain ⟨ht, hafter⟩ := List.mem_filter.mp ht
    have hwindow := window_of_after h ht hafter
    rcases hsteady.resolve_left hsame with hclear | honly
    · rw [Grouping.group_filter_eq fun other hother => ?_]
      · exact newest_row_mem h hmoved ht hwindow
      · obtain ⟨hother, hsamewindow⟩ := Grouping.mem_group.mp hother
        exact (Gold.after_of_window_eq hwell.aligned_watermark (hsamewindow.trans hwindow)).mpr (hclear other hother)
    · exact absurd (honly t ht hwindow) ((Gold.after_of_window_eq hwell.aligned_watermark hwindow).mp hafter)

end Vwap

section Run

variable {pg : Postgres} {num : Numerics} {s t : State} {a : Action}

structure Inv (pg : Postgres) (s : State) : Prop where
  unique : KeyedTable.KeyUnique (RawTrade.tradeId pg) s.bronze
  keyed : ∀ table, s.vwap = some table → WellKeyed table

theorem inv_init : Inv pg init := ⟨List.nodup_nil, fun _ hnone => by cases hnone⟩

theorem inv_step (h : Inv pg s) (hstep : step pg num s a = some t) : Inv pg t := by
  cases a with
  | insert receivedAt trades =>
      obtain rfl := Option.some.inj hstep
      exact ⟨KeyedTable.keyUnique_insertAbsent _ _ h.unique, h.keyed⟩
  | stgTrades =>
      obtain ⟨table, -, rfl⟩ := Option.map_eq_some_iff.mp hstep
      exact ⟨h.unique, h.keyed⟩
  | goldVwap1min =>
      obtain ⟨silver, -, rfl⟩ := Option.map_eq_some_iff.mp hstep
      refine ⟨h.unique, fun table htable => ?_⟩
      obtain rfl := Option.some.inj htable
      exact WellKeyed.run num h.keyed silver
  | goldTradeStats1min =>
      obtain ⟨silver, -, rfl⟩ := Option.map_eq_some_iff.mp hstep
      exact ⟨h.unique, h.keyed⟩

/-- What a run of the three models leaves. -/
theorem dbtRun_eq_some : Runs.run (step pg num) s dbtRun = some t ↔
    ∃ silver, runStgTrades pg s.silver s.bronze = some silver ∧
      t = ⟨s.bronze, some silver, some (Gold.runVwap1min num s.vwap silver),
        some (Gold.tradeStats1min num silver)⟩ := by
  simp only [dbtRun, Runs.run_cons, Runs.run_nil, step, Option.map_eq_some_iff]
  constructor
  · rintro ⟨_, ⟨silver, hsilver, rfl⟩, _, ⟨_, hsame, rfl⟩, _, ⟨_, hsame', rfl⟩, hend⟩
    obtain rfl := Option.some.inj hsame
    obtain rfl := Option.some.inj hsame'
    exact ⟨silver, hsilver, (Option.some.inj hend).symm⟩
  · rintro ⟨silver, hsilver, rfl⟩
    exact ⟨_, ⟨silver, hsilver, rfl⟩, _, ⟨silver, rfl, rfl⟩, _, ⟨silver, rfl, rfl⟩, rfl⟩

end Run

/-- **`dbt_run` is idempotent on silver and on the statistics, and on `gold_vwap_1min` exactly when it is
steady.** After any history and a run of the three models, a second run over the same bronze succeeds. -/
theorem dbtRun_unchanged_iff (pg : Postgres) (num : Numerics) {as : List Action} {s t : State}
    (hhistory : Runs.run (step pg num) init as = some s) (hrun : Runs.run (step pg num) s dbtRun = some t) :
    ∃ u, Runs.run (step pg num) t dbtRun = some u ∧ u.silver = t.silver ∧ u.stats = t.stats ∧
      (Unchanged t u ↔
        ∃ silver table, t.silver = some silver ∧ t.vwap = some table ∧ Steady s.vwap silver table) := by
  have hinv : Inv pg s := Runs.invariant (fun _ _ _ => inv_step) inv_init hhistory
  obtain ⟨silver, hsilver, rfl⟩ := dbtRun_eq_some.mp hrun
  have hagain := runStgTrades_again hinv.unique hsilver
  refine ⟨_, dbtRun_eq_some.mpr ⟨silver, hagain, rfl⟩, rfl, rfl, ?_⟩
  constructor
  · rintro ⟨-, ⟨table, table', htable, htable', hperm⟩, -⟩
    obtain rfl := Option.some.inj htable
    obtain rfl := Option.some.inj htable'
    exact ⟨silver, _, rfl, rfl, (runVwap1min_again_iff hinv.keyed).mp hperm⟩
  · rintro ⟨_, table, hsame, htable, hsteady⟩
    obtain rfl := Option.some.inj hsame
    obtain rfl := Option.some.inj htable
    exact ⟨rfl, ⟨_, _, rfl, rfl, (runVwap1min_again_iff hinv.keyed).mpr hsteady⟩, rfl⟩

def samplePayload (tradeId time : String) : Dict :=
  [("trade_id", .str tradeId), ("price", .str "1"), ("size", .str "1"), ("side", .str "buy"),
    ("time", .str time)]

/-- Postgres on the texts of `samplePayload`. -/
def samplePostgres : Postgres :=
  ⟨fun _ => "", fun _ => some 1,
    fun text => some (if text = "1970-01-01T10:00:00Z" then 36000000000 else 36030000000)⟩

def boundaryTrades : List Dict :=
  [samplePayload "a" "1970-01-01T10:00:00Z", samplePayload "b" "1970-01-01T10:00:30Z"]

/-- A trade at the very start of the newest window and one behind it: the second run drops the first. -/
theorem rerun_drops_boundary_trade :
    ∃ s t u, Runs.run (step samplePostgres Gold.sampleNumerics) init [.insert 1 boundaryTrades] = some s ∧
      Runs.run (step samplePostgres Gold.sampleNumerics) s dbtRun = some t ∧
      Runs.run (step samplePostgres Gold.sampleNumerics) t dbtRun = some u ∧
      t.vwap.map (List.map VwapRow.tradeCount) = some [2] ∧ u.vwap.map (List.map VwapRow.tradeCount) = some [1] ∧
      ¬ Unchanged t u := by
  have hrun : (Runs.run (step samplePostgres Gold.sampleNumerics) init [.insert 1 boundaryTrades]).any (fun s =>
      (Runs.run (step samplePostgres Gold.sampleNumerics) s dbtRun).any fun t =>
        (Runs.run (step samplePostgres Gold.sampleNumerics) t dbtRun).any fun u =>
          decide (t.vwap.map (List.map VwapRow.tradeCount) = some [2]) &&
            decide (u.vwap.map (List.map VwapRow.tradeCount) = some [1])) = true := by
    decide +kernel
  simp only [Option.any_eq_true, Bool.and_eq_true, decide_eq_true_eq] at hrun
  obtain ⟨s, hs, t, ht, u, hu, hfirst, hsecond⟩ := hrun
  refine ⟨s, t, u, hs, ht, hu, hfirst, hsecond, ?_⟩
  rintro ⟨-, ⟨table, table', htable, htable', hperm⟩, -⟩
  rw [htable, Option.map_some, Option.some.injEq] at hfirst
  rw [htable', Option.map_some, Option.some.injEq] at hsecond
  have hcounts := hperm.map VwapRow.tradeCount
  rw [hfirst, hsecond] at hcounts
  exact absurd hcounts (by decide)

/-- A trade behind the start of its window. -/
theorem dbtRun_unchanged_iff_sample :
    ∃ s t, Runs.run (step samplePostgres Gold.sampleNumerics) init
        [.insert 1 [samplePayload "a" "1970-01-01T10:00:30Z"]] = some s ∧
      Runs.run (step samplePostgres Gold.sampleNumerics) s dbtRun = some t ∧
      t.vwap.map (List.map VwapRow.tradeCount) = some [1] ∧
      ∃ u, Runs.run (step samplePostgres Gold.sampleNumerics) t dbtRun = some u ∧ u.silver = t.silver ∧
        u.stats = t.stats ∧ Unchanged t u := by
  have hrun : (Runs.run (step samplePostgres Gold.sampleNumerics) init
      [.insert 1 [samplePayload "a" "1970-01-01T10:00:30Z"]]).any (fun s =>
        (Runs.run (step samplePostgres Gold.sampleNumerics) s dbtRun).any fun t =>
          t.vwap.map (List.map VwapRow.tradeCount) = some [1] ∧ t.silver.any fun silver => t.vwap.any fun table =>
            ∀ trade ∈ silver, trade.tradedAt ≠ some (Gold.watermark table)) = true := by
    decide +kernel
  obtain ⟨s, hs, hnext⟩ := (Option.any_eq_true _ _).mp hrun
  obtain ⟨t, ht, hcolumns⟩ := (Option.any_eq_true _ _).mp hnext
  obtain ⟨hcounts, htables⟩ := of_decide_eq_true hcolumns
  obtain ⟨silver, hsilver, hrest⟩ := (Option.any_eq_true _ _).mp htables
  obtain ⟨table, htable, hbehind⟩ := (Option.any_eq_true _ _).mp hrest
  obtain ⟨u, hu, hsame, hstats, hiff⟩ := dbtRun_unchanged_iff samplePostgres Gold.sampleNumerics hs ht
  have hsteady : Steady s.vwap silver table := Or.inr (Or.inl (of_decide_eq_true hbehind))
  exact ⟨s, t, hs, ht, hcounts, u, hu, hsame, hstats, hiff.mpr ⟨silver, table, hsilver, htable, hsteady⟩⟩

end CryptoLakehouse.Rerun
