import CryptoLakehouse.PipelineRefinement

/-! What the warehouse and the files have said once, and never take back. A table is merged by its watermark and
an export reads behind its bookmark, so what lies before these is settled: no trade that comes late changes it,
and no retry or restart loses it. -/

namespace CryptoLakehouse.History

section Tables

/-- A table that is there stays there, and what it holds has only climbed. -/
def Carried {T : Type} (G : T → T → Prop) (before after : Option T) : Prop :=
  ∀ table, before = some table → ∃ table', after = some table' ∧ G table table'

variable {T : Type} {G : T → T → Prop} {x y z : Option T}

theorem Carried.refl (hrefl : ∀ table, G table table) (x : Option T) : Carried G x x :=
  fun table htable => ⟨table, htable, hrefl table⟩

theorem Carried.trans (htrans : ∀ a b c, G a b → G b c → G a c) (h : Carried G x y) (h' : Carried G y z) :
    Carried G x z := by
  intro table htable
  obtain ⟨table', htable', hclimb⟩ := h table htable
  obtain ⟨table'', htable'', hclimb'⟩ := h' table' htable'
  exact ⟨table'', htable'', htrans _ _ _ hclimb hclimb'⟩

theorem Carried.some {table' : T} (h : ∀ table, x = some table → G table table') : Carried G x (some table') :=
  fun table htable => ⟨table', rfl, h table htable⟩

/-- `silver.stg_trades` is only added to, and by rows with later stamps. -/
def Appended (table table' : List SilverTrade) : Prop :=
  ∃ rows, table' = table ++ rows ∧ ∀ x ∈ rows, watermark table < x.ingestedAt

/-- In `gold.gold_vwap_1min` no minute is lost, and before the newest one every row stays as it is. -/
structure Kept (table table' : List VwapRow) : Prop where
  windows : table.map VwapRow.windowStart ⊆ table'.map VwapRow.windowStart
  watermark : Gold.watermark table ≤ Gold.watermark table'
  settled : ∀ row, (∀ m, row.windowStart = some m → m < Gold.watermark table) → (row ∈ table' ↔ row ∈ table)

/-- In `gold.gold_trade_stats_1min` no minute is lost and none loses a trade. -/
def Counted (table table' : List StatsRow) : Prop :=
  ∀ row ∈ table, ∃ row' ∈ table', row'.windowStart = row.windowStart ∧ row.buyCount ≤ row'.buyCount ∧
    row.sellCount ≤ row'.sellCount

theorem Appended.refl (table : List SilverTrade) : Appended table table :=
  ⟨[], (List.append_nil table).symm, fun _ hx => absurd hx List.not_mem_nil⟩

theorem Appended.watermark_le {table table' : List SilverTrade} (h : Appended table table') :
    watermark table ≤ watermark table' := by
  obtain ⟨rows, rfl, hlater⟩ := h
  cases rows with
  | nil => rw [List.append_nil]
  | cons x rows =>
      calc watermark table
          ≤ x.ingestedAt := (hlater x List.mem_cons_self).le
        _ ≤ watermark (table ++ x :: rows) := le_watermark (List.mem_append_right _ List.mem_cons_self)

theorem Appended.trans (table table' table'' : List SilverTrade) (h : Appended table table')
    (h' : Appended table' table'') : Appended table table'' := by
  have hle := h.watermark_le
  obtain ⟨rows, rfl, hlater⟩ := h
  obtain ⟨rows', rfl, hlater'⟩ := h'
  refine ⟨rows ++ rows', List.append_assoc _ _ _, fun x hx => ?_⟩
  rcases List.mem_append.mp hx with hx | hx
  · exact hlater x hx
  · exact hle.trans_lt (hlater' x hx)

theorem Kept.refl (table : List VwapRow) : Kept table table :=
  ⟨List.Subset.refl _, le_rfl, fun _ _ => Iff.rfl⟩

theorem Kept.trans (table table' table'' : List VwapRow) (h : Kept table table') (h' : Kept table' table'') :
    Kept table table'' where
  windows := List.Subset.trans h.windows h'.windows
  watermark := h.watermark.trans h'.watermark
  settled row hbefore := by
    rw [h'.settled row fun m hm => (hbefore m hm).trans_le h.watermark]
    exact h.settled row hbefore

theorem Counted.refl (table : List StatsRow) : Counted table table :=
  fun row hrow => ⟨row, hrow, rfl, le_rfl, le_rfl⟩

theorem Counted.trans (table table' table'' : List StatsRow) (h : Counted table table')
    (h' : Counted table' table'') : Counted table table'' := by
  intro row hrow
  obtain ⟨row', hrow', hwindow, hbuy, hsell⟩ := h row hrow
  obtain ⟨row'', hrow'', hwindow', hbuy', hsell'⟩ := h' row' hrow'
  exact ⟨row'', hrow'', hwindow'.trans hwindow, hbuy.trans hbuy', hsell.trans hsell'⟩

end Tables

section Builds

variable {pg : Postgres} {num : Numerics} {bronze : Bronze}

/-- The merge on `trade_id` never finds a row to replace: a trade that is in silver is in bronze with a stamp that
the watermark has overtaken. -/
theorem appended_runStgTrades {table table' : List SilverTrade}
    (hunique : KeyedTable.KeyUnique (RawTrade.tradeId pg) bronze) (hparsed : Lineage.Parsed pg bronze table)
    (h : runStgTrades pg (some table) bronze = some table') : Appended table table' := by
  obtain ⟨rows, hrows, rfl⟩ := Option.map_eq_some_iff.mp h
  have hmirrors := mirrors_stgTrades hunique hrows
  have hlater : ∀ x ∈ rows, watermark table < x.ingestedAt := by
    intro x hx
    obtain ⟨row, hrow, hx⟩ := (hmirrors.mem x).mp hx
    rw [parsed_ingestedAt hx]
    exact (mem_sourceData.mp hrow).2.2 _ rfl
  refine ⟨rows, ?_, hlater⟩
  rw [KeyedTable.replaceByKey, List.filter_eq_self.mpr]
  intro y hy
  rw [decide_eq_true_eq]
  intro hreplaced
  obtain ⟨x, hx, hsame⟩ := List.mem_map.mp hreplaced
  obtain ⟨row, hrow, hrowx⟩ := (hmirrors.mem x).mp hx
  obtain ⟨row', hrow', hrowy⟩ := hparsed.mem y hy
  -- a trade id names one row of bronze
  obtain rfl := hunique.eq_of_key _ (mem_sourceData.mp hrow).1 hrow' (parsed_tradeId hrowx)
    (hsame ▸ parsed_tradeId hrowy)
  have hlate := hlater x hx
  rw [parsed_ingestedAt hrowx, ← parsed_ingestedAt hrowy] at hlate
  exact absurd (le_watermark hy) (not_le.mpr hlate)

/-- A trade that the model selects is of the newest minute or of a later one. -/
theorem watermark_le_of_mem {table : List VwapRow} {silver : List SilverTrade} {row : VwapRow}
    (hwell : Rerun.WellKeyed table)
    (hrow : row ∈ Gold.vwap1min num (silver.filter (Gold.after (Gold.watermark table)))) :
    ∃ m, row.windowStart = some m ∧ Gold.watermark table ≤ m := by
  obtain ⟨k, hk, rfl⟩ := Grouping.mem_groupBy.mp hrow
  obtain ⟨t, ht, rfl⟩ := List.mem_map.mp hk
  obtain ⟨x, hx, hlt⟩ := Gold.after_iff.mp (List.mem_filter.mp ht).2
  refine ⟨dateTruncMinute x, Gold.window_eq_some.mpr ⟨x, hx, rfl⟩, ?_⟩
  exact (Gold.le_dateTruncMinute hwell.aligned_watermark).mpr hlt.le

theorem kept_runVwap1min {table : List VwapRow} (hwell : Rerun.WellKeyed table) (silver : List SilverTrade) :
    Kept table (Gold.runVwap1min num (some table) silver) := by
  refine ⟨KeyedTable.map_subset_replaceByKey _ _ _, Rerun.watermark_le_run num hwell silver, fun row hbefore => ?_⟩
  have hnew : ∀ other ∈ Gold.vwap1min num (silver.filter (Gold.after (Gold.watermark table))),
      other.windowStart ≠ row.windowStart := by
    intro other hother hsame
    obtain ⟨m, hm, hle⟩ := watermark_le_of_mem hwell hother
    exact absurd (hbefore m (hsame.symm.trans hm)) (not_lt.mpr hle)
  rw [Gold.runVwap1min, KeyedTable.mem_replaceByKey]
  constructor
  · rintro (⟨hrow, -⟩ | hrow)
    · exact hrow
    · exact absurd rfl (hnew row hrow)
  · intro hrow
    refine Or.inl ⟨hrow, fun hreplaced => ?_⟩
    obtain ⟨other, hother, hsame⟩ := List.mem_map.mp hreplaced
    exact hnew other hother hsame

theorem counted_tradeStats1min {old silver : List SilverTrade} (h : old <+: silver) :
    Counted (Gold.tradeStats1min num old) (Gold.tradeStats1min num silver) := by
  intro row hrow
  obtain ⟨k, hk, rfl⟩ := Grouping.mem_groupBy.mp hrow
  have hgroup : (Grouping.group Gold.window old k).Sublist (Grouping.group Gold.window silver k) :=
    h.sublist.filter _
  refine ⟨Gold.statsRow num k (Grouping.group Gold.window silver k), ?_, rfl, ?_, ?_⟩
  · exact Grouping.mem_groupBy.mpr ⟨k, List.map_subset _ h.subset hk, rfl⟩
  · exact (hgroup.filter _).length_le
  · exact (hgroup.filter _).length_le

end Builds

section Warehouse

variable {pg : Postgres} {num : Numerics} {s t u : Rerun.State} {a : Rerun.Action}

/-- What the tables hold later. -/
structure Settled (s t : Rerun.State) : Prop where
  bronze : s.bronze <+: t.bronze
  silver : Carried Appended s.silver t.silver
  vwap : Carried Kept s.vwap t.vwap
  stats : Carried Counted s.stats t.stats

theorem Settled.refl (s : Rerun.State) : Settled s s :=
  ⟨List.prefix_rfl, .refl Appended.refl _, .refl Kept.refl _, .refl Counted.refl _⟩

theorem Settled.trans (s t u : Rerun.State) (h : Settled s t) (h' : Settled t u) : Settled s u :=
  ⟨h.bronze.trans h'.bronze, h.silver.trans Appended.trans h'.silver, h.vwap.trans Kept.trans h'.vwap,
    h.stats.trans Counted.trans h'.stats⟩

variable (pg num) in
/-- Where the tables come from: the statistics were aggregated of a silver that has only grown since. -/
structure Built (s : Rerun.State) : Prop where
  traced : Lineage.Traced pg num s
  keyed : ∀ table, s.vwap = some table → Rerun.WellKeyed table
  stats : ∀ table, s.stats = some table → ∃ old silver, s.silver = some silver ∧ old <+: silver ∧
    table = Gold.tradeStats1min num old

theorem built_init : Built pg num Rerun.init where
  traced := Lineage.traced_init
  keyed table htable := by cases htable
  stats table htable := by cases htable

theorem built_step (h : Built pg num s) (hstep : Rerun.step pg num s a = some t) :
    Built pg num t ∧ Settled s t := by
  have htraced := (Lineage.traced_step h.traced hstep).1
  have hkeyed := (Rerun.inv_step ⟨h.traced.unique, h.keyed⟩ hstep).keyed
  have hsame := Settled.refl s
  cases a with
  | insert receivedAt trades =>
      obtain rfl := Option.some.inj hstep
      refine ⟨⟨htraced, hkeyed, h.stats⟩, ?_, hsame.silver, hsame.vwap, hsame.stats⟩
      exact KeyedTable.table_isPrefix_insertAbsent _ _ _
  | stgTrades =>
      obtain ⟨table', htable', rfl⟩ := Option.map_eq_some_iff.mp hstep
      have happended : ∀ table, s.silver = some table → Appended table table' := by
        intro table htable
        rw [htable] at htable'
        exact appended_runStgTrades h.traced.unique (h.traced.silver table htable) htable'
      refine ⟨⟨htraced, hkeyed, fun table htable => ?_⟩, hsame.bronze, .some happended, hsame.vwap, hsame.stats⟩
      obtain ⟨old, silver, hsilver, hold, hstats⟩ := h.stats table htable
      obtain ⟨rows, hrows, -⟩ := happended silver hsilver
      exact ⟨old, table', rfl, hold.trans ⟨rows, hrows.symm⟩, hstats⟩
  | goldVwap1min =>
      obtain ⟨silver, hsilver, rfl⟩ := Option.map_eq_some_iff.mp hstep
      refine ⟨⟨htraced, hkeyed, h.stats⟩, hsame.bronze, hsame.silver, .some fun table htable => ?_, hsame.stats⟩
      rw [htable]
      exact kept_runVwap1min (h.keyed table htable) silver
  | goldTradeStats1min =>
      obtain ⟨silver, hsilver, rfl⟩ := Option.map_eq_some_iff.mp hstep
      refine ⟨⟨htraced, hkeyed, fun table htable => ?_⟩, hsame.bronze, hsame.silver, hsame.vwap,
        .some fun table htable => ?_⟩
      · obtain rfl := Option.some.inj htable
        exact ⟨silver, silver, hsilver, List.prefix_rfl, rfl⟩
      · obtain ⟨old, silver', hsilver', hold, rfl⟩ := h.stats table htable
        obtain rfl := Option.some.inj (hsilver.symm.trans hsilver')
        exact counted_tradeStats1min hold

theorem settled_run {as : List Rerun.Action} (h : Built pg num s)
    (hrun : Runs.run (Rerun.step pg num) s as = some t) : Built pg num t ∧ Settled s t :=
  ⟨Runs.invariant (fun _ _ _ hs hstep => (built_step hs hstep).1) h hrun,
    Runs.climbs (C := fun _ _ => True) Settled.refl Settled.trans (fun _ _ _ hs _ hstep => built_step hs hstep) h
      (Runs.meets_of_forall (fun _ _ => trivial) _ _) hrun⟩

end Warehouse

end CryptoLakehouse.History

namespace CryptoLakehouse.Export

variable {R : Type} {windowStart : R → Option Instant} {s t u : State R} {a : Action R}

/-- An export does not read a clock behind its bookmark. -/
def OnTime (s : State R) : Action R → Prop
  | .now clock => ∀ b, s.bookmark = some b → b.lastExportedAt ≤ clock
  | _ => True

variable (windowStart) in
/-- Once there is a bookmark an export deletes nothing and adds rows behind it only. -/
def Ahead (b : Bookmark) : Pc R → Prop
  | .deleting => False
  | .reading since => since = some b.lastExportedAt
  | .writing pending => ∀ p ∈ pending, ∀ row ∈ p.2, ∃ x, windowStart row = some x ∧ b.lastExportedAt < x
  | .upserting newHwm => b.lastExportedAt ≤ newHwm
  | .idle | .uploading => True

variable (windowStart) in
def Bookmarked (s : State R) : Prop := ∀ b, s.bookmark = some b → Ahead windowStart b s.pc

variable (windowStart) in
/-- The files stay, and what comes to them lies behind the bookmark of before. -/
def Settled (s t : State R) : Prop :=
  ∀ b, s.bookmark = some b → (∃ b', t.bookmark = some b' ∧ b.lastExportedAt ≤ b'.lastExportedAt) ∧
    ∃ files, t.files = s.files ++ files ∧
      ∀ file ∈ files, ∀ row ∈ file.rows, ∃ x, windowStart row = some x ∧ b.lastExportedAt < x

theorem Settled.of_files (hbookmark : t.bookmark = s.bookmark) (hfiles : t.files = s.files) :
    Settled windowStart s t := by
  intro b hb
  refine ⟨⟨b, hbookmark.trans hb, le_rfl⟩, [], ?_, fun file hfile => absurd hfile List.not_mem_nil⟩
  rw [hfiles, List.append_nil]

theorem Settled.trans (s t u : State R) (h : Settled windowStart s t) (h' : Settled windowStart t u) :
    Settled windowStart s u := by
  intro b hb
  obtain ⟨⟨b', hb', hle⟩, files, hfiles, hbehind⟩ := h b hb
  obtain ⟨⟨b'', hb'', hle'⟩, files', hfiles', hbehind'⟩ := h' b' hb'
  refine ⟨⟨b'', hb'', hle.trans hle'⟩, files ++ files', ?_, fun file hfile row hrow => ?_⟩
  · rw [hfiles', hfiles, List.append_assoc]
  · rcases List.mem_append.mp hfile with hfile | hfile
    · exact hbehind file hfile row hrow
    · obtain ⟨x, hx, hlt⟩ := hbehind' file hfile row hrow
      exact ⟨x, hx, hle.trans_lt hlt⟩

theorem bookmarked_step (h : Bookmarked windowStart s) (hclock : OnTime s a)
    (hstep : step windowStart s a = some t) : Bookmarked windowStart t ∧ Settled windowStart s t := by
  cases transition_of_step windowStart hstep with
  | refresh gold => exact ⟨h, .of_files rfl rfl⟩
  | beginFull hpc hbookmark =>
      refine ⟨fun b hb => ?_, .of_files rfl rfl⟩
      cases hbookmark.symm.trans hb
  | beginIncremental b hpc hbookmark =>
      refine ⟨fun b' hb' => ?_, .of_files rfl rfl⟩
      obtain rfl := Option.some.inj (hbookmark.symm.trans hb')
      exact rfl
  | unlink kept hpc =>
      have hnone : ∀ b, s.bookmark ≠ some b := fun b hb => by
        have hahead := h b hb
        rwa [hpc] at hahead
      exact ⟨fun b hb => absurd hb (hnone b), fun b hb => absurd hb (hnone b)⟩
  | rmtree hpc =>
      have hnone : ∀ b, s.bookmark ≠ some b := fun b hb => by
        have hahead := h b hb
        rwa [hpc] at hahead
      exact ⟨fun b hb => absurd hb (hnone b), fun b hb => absurd hb (hnone b)⟩
  | read since hpc =>
      refine ⟨fun b hb p hp row hrow => ?_, .of_files rfl rfl⟩
      have hahead := h b hb
      rw [hpc] at hahead
      obtain rfl : since = some b.lastExportedAt := hahead
      obtain ⟨hselected, x, hx⟩ := mem_of_mem_partitions hp hrow
      exact ⟨x, hx, (lt_of_mem_select hselected hx).2 _ rfl⟩
  | writePart uuid day rows pending hpc =>
      have hpending : ∀ b, s.bookmark = some b → _ := fun b hb => by
        have hahead := h b hb
        rw [hpc] at hahead
        exact List.forall_mem_cons.mp hahead
      refine ⟨fun b hb => (hpending b hb).2, fun b hb => ⟨⟨b, hb, le_rfl⟩, _, rfl, fun file hfile => ?_⟩⟩
      obtain rfl := List.mem_singleton.mp hfile
      exact (hpending b hb).1
  | now clock hpc => exact ⟨fun b hb => hclock b hb, .of_files rfl rfl⟩
  | upsert newHwm counted hpc =>
      refine ⟨fun b hb => trivial, fun b hb => ⟨⟨_, rfl, ?_⟩, [], (List.append_nil _).symm, ?_⟩⟩
      · have hahead := h b hb
        rwa [hpc] at hahead
      · exact fun file hfile => absurd hfile List.not_mem_nil
  | upload hpc => exact ⟨fun b hb => trivial, .of_files rfl rfl⟩
  | raise hpc => exact ⟨fun b hb => trivial, .of_files rfl rfl⟩
  | kill => exact ⟨fun b hb => trivial, .of_files rfl rfl⟩

theorem bookmarked_run {as : List (Action R)} (h : Bookmarked windowStart s)
    (hclock : Runs.Meets (step windowStart) OnTime s as) (hrun : Runs.run (step windowStart) s as = some t) :
    Bookmarked windowStart t ∧ Settled windowStart s t :=
  ⟨Runs.invariant_of_meets (fun _ _ _ hs hclock hstep => (bookmarked_step hs hclock hstep).1) h hclock hrun,
    Runs.climbs (fun _ => .of_files rfl rfl) Settled.trans
      (fun _ _ _ hs hclock hstep => bookmarked_step hs hclock hstep) h hclock hrun⟩

end CryptoLakehouse.Export

namespace CryptoLakehouse.System

variable {R Body K : Type} {pg : Postgres} {num : Numerics} {loads : Body → Except Exn Json}
  {s t : State R Body K} {a : Action R Body K} {as bs : List (Action R Body K)}

/-- The clocks that the exports read are not behind their bookmarks. -/
def OnTime (s : State R Body K) : Action R Body K → Prop
  | .dag (.exportVwap _ b) => Export.OnTime s.dag.vwapFiles b
  | .dag (.exportStats _ b) => Export.OnTime s.dag.statsFiles b
  | _ => True

variable (pg num) in
structure Founded (s : State R Body K) : Prop where
  shared : s.dag.warehouse.bronze = s.ingestion.consumer.bronze
  built : History.Built pg num s.dag.warehouse

variable [DecidableEq R] [DecidableEq Body] [DecidableEq K]

theorem founded_step (h : Founded pg num s) (hstep : step pg num loads s a = some t) :
    Founded pg num t ∧ History.Settled s.dag.warehouse t.dag.warehouse := by
  obtain ⟨hshared, hrun⟩ := builds_step h.shared hstep
  have hbuilt := History.settled_run h.built hrun
  exact ⟨⟨hshared, hbuilt.1⟩, hbuilt.2⟩

omit [DecidableEq R] [DecidableEq Body] in
/-- The steps that are not an export's own read no clock. -/
theorem OnTime.writes (h : OnTime s a) (table : Dag.Table) :
    Runs.Meets (Export.step table.windowStart) Export.OnTime (s.dag.files table) (s.writes pg num table a) := by
  cases a with
  | ingestion b => trivial
  | dag b =>
      cases b with
      | exportVwap k c =>
          cases table with
          | goldVwap1min => exact ⟨h, fun _ _ => trivial⟩
          | goldTradeStats1min => trivial
      | exportStats k c =>
          cases table with
          | goldVwap1min => trivial
          | goldTradeStats1min => exact ⟨h, fun _ _ => trivial⟩
      | model k model raises =>
          rw [State.writes, Dag.State.writes]
          cases s.dag.built pg num model raises with
          | none => trivial
          | some warehouse => exact ⟨trivial, fun _ _ => trivial⟩
      | fail k task exception =>
          rw [State.writes, Dag.State.writes]
          split_ifs
          · exact ⟨trivial, fun _ _ => trivial⟩
          · trivial
      | _ => trivial

/-- The files of both tables, and how far they have been written. -/
def Bookmarked (s : State R Body K) : Prop := ∀ table, Export.Bookmarked table.windowStart (s.dag.files table)

omit [DecidableEq R] [DecidableEq Body] [DecidableEq K] in
theorem bookmarked_init (batchSize : Int) : Bookmarked (init batchSize : State R Body K) := by
  intro table b hb
  cases table <;> cases hb

structure FilesSettled (s t : State R Body K) : Prop where
  vwap : Export.Settled VwapRow.windowStart s.dag.vwapFiles t.dag.vwapFiles
  stats : Export.Settled StatsRow.windowStart s.dag.statsFiles t.dag.statsFiles

theorem bookmarked_step (h : Bookmarked s) (hclock : OnTime s a) (hstep : step pg num loads s a = some t) :
    Bookmarked t ∧ FilesSettled s t := by
  have hrun := fun table => Export.bookmarked_run (h table) (hclock.writes table) (writes_step hstep table)
  exact ⟨fun table => (hrun table).1, (hrun .goldVwap1min).2, (hrun .goldTradeStats1min).2⟩

/-- **What is settled stays.** From any reachable state on, with everything that can fail, repeat or come late in
between: silver is only added to, by rows with later stamps; in the gold tables no minute is lost, no row before
the newest minute of `gold_vwap_1min` changes, and no minute of the statistics loses a trade; and while no export
reads a clock behind its bookmark, the files stay as they are and get rows of later minutes only. -/
theorem history_is_settled {batchSize : Int} (hs : Runs.run (step pg num loads) (init batchSize) as = some s)
    (ht : Runs.run (step pg num loads) s bs = some t) : History.Settled s.dag.warehouse t.dag.warehouse ∧
      (Runs.Meets (step pg num loads) OnTime (init batchSize) (as ++ bs) → FilesSettled s t) := by
  have hfounded : Founded pg num (init batchSize : State R Body K) := ⟨rfl, History.built_init⟩
  have hfounded : Founded pg num s := Runs.invariant (fun _ _ _ h hstep => (founded_step h hstep).1) hfounded hs
  refine ⟨?_, fun hclock => ?_⟩
  · apply Runs.climbs (I := Founded pg num) (C := fun _ _ => True)
      (G := fun s t : State R Body K => History.Settled s.dag.warehouse t.dag.warehouse) _ _ _ hfounded _ ht
    · exact fun s => .refl s.dag.warehouse
    · exact fun s t u => .trans s.dag.warehouse t.dag.warehouse u.dag.warehouse
    · exact fun _ _ _ h _ hstep => founded_step h hstep
    · exact Runs.meets_of_forall (fun _ _ => trivial) _ _
  · obtain ⟨hbefore, hafter⟩ := (Runs.meets_append hs).mp hclock
    have hbookmarked : Bookmarked s := Runs.invariant_of_meets
      (fun _ _ _ h hclock hstep => (bookmarked_step h hclock hstep).1) (bookmarked_init batchSize) hbefore hs
    apply Runs.climbs (I := Bookmarked) (C := OnTime) (G := FilesSettled) _ _ _ hbookmarked hafter ht
    · exact fun s => ⟨.of_files rfl rfl, .of_files rfl rfl⟩
    · exact fun s t u h h' => ⟨.trans _ _ _ h.vwap h'.vwap, .trans _ _ _ h.stats h'.stats⟩
    · exact fun _ _ _ h hclock hstep => bookmarked_step h hclock hstep

/-- One run of the DAG, with what its exports do. -/
def dagRun (k : Nat) (vwap : List (Export.Action VwapRow)) (stats : List (Export.Action StatsRow)) :
    List (Dag.Action Nat) :=
  [.start k 0, .model k .stgTrades false, .model k .goldTradeStats1min false, .model k .goldVwap1min false,
    .succeed k 0, .start k 1] ++ (List.range DbtTest.TESTS.length).map (fun test => .test k test false) ++
    [.succeed k 1, .start k 2, .connect k] ++ vwap.map (.exportVwap k) ++ stats.map (.exportStats k) ++
    [.close k, .succeed k 2, .start k 3, .succeed k 3, .finish k 0 none]

def earlyRun : List (Action Unit TradeMessage Nat) :=
  ingestionRun.map .ingestion ++ (dagRun 0 [.begin, .rmtree, .read, .writePart 0, .now 60000000, .upsert true, .upload]
    [.begin, .rmtree, .read, .writePart 1, .now 60000000, .upsert true, .upload]).map .dag

def lateTrade : TradeMessage := { unitTrade with tradeId := "late", tradeId_ne := by decide }

/-- Another trade of the minute, with a stamp from a clock that is behind, and a second run. -/
def lateRun : List (Action Unit TradeMessage Nat) :=
  [Ingestion.Action.call lateTrade, .attempt .answered, .deliver 0, .consumer (.claim (.caller ())),
    .consumer (.insertReturns (.caller ()) 4), .consumer (.release (.caller ())),
    .consumer (.resetTimer (.caller ())), .ack 0].map .ingestion ++
  (dagRun 1 [.begin, .read, .now 120000000, .upsert true, .upload]
    [.begin, .read, .now 120000000, .upsert true, .upload]).map .dag

theorem history_is_settled_late : ∃ s t,
    Runs.run (step offeredPostgres Gold.sixteenDigits sampleLoads) (init 1) earlyRun = some s ∧
    Runs.run (step offeredPostgres Gold.sixteenDigits sampleLoads) s lateRun = some t ∧
    (t.ingestion.consumer.bronze.length = 2 ∧ t.dag.warehouse.silver.map List.length = some 1) ∧
    History.Settled s.dag.warehouse t.dag.warehouse ∧
      (Runs.Meets (step offeredPostgres Gold.sixteenDigits sampleLoads) OnTime (init 1) (earlyRun ++ lateRun) →
        FilesSettled s t) := by
  have hrun : (Runs.run (step offeredPostgres Gold.sixteenDigits sampleLoads) (init 1) earlyRun).any (fun s =>
      (Runs.run (step offeredPostgres Gold.sixteenDigits sampleLoads) s lateRun).any fun t =>
        t.ingestion.consumer.bronze.length = 2 ∧ t.dag.warehouse.silver.map List.length = some 1) = true := by
    decide +kernel
  obtain ⟨s, hs, hrest⟩ := (Option.any_eq_true _ _).mp hrun
  obtain ⟨t, ht, hlate⟩ := (Option.any_eq_true _ _).mp hrest
  exact ⟨s, t, hs, ht, of_decide_eq_true hlate, history_is_settled hs ht⟩

end CryptoLakehouse.System
