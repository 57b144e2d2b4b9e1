import CryptoLakehouse.PipelineDag
import CryptoLakehouse.PipelineIngestion
import CryptoLakehouse.WarehouseLineage

/-! The whole pipeline: the setup, the publisher, the broker and the consumer processes on the one side of
bronze, the runs of the DAG with their builds, tests and exports on the other. The rows of the Parquet files
are followed back to the trades that the producer has validated. -/

namespace CryptoLakehouse.Export

variable {R : Type} {P Q : R → Prop} {s : State R}

theorem AllRows.mono (h : AllRows P s) (himp : ∀ row, P row → Q row) : AllRows Q s where
  files file hfile row hrow := himp row (h.files file hfile row hrow)
  pending pending hpending p hp row hrow := himp row (h.pending pending hpending p hp row hrow)

theorem allRows_init : AllRows P (init : State R) where
  files file hfile := absurd hfile List.not_mem_nil
  pending pending hpending := by cases hpending

/-- A process that is gone has nothing left to write. -/
theorem AllRows.stopped (h : AllRows P s) : AllRows P (Dag.stopped s) where
  files := h.files
  pending pending hpending := by cases hpending

end CryptoLakehouse.Export

namespace CryptoLakehouse.Dag

open Lineage (Traced Traces)

section Descent

variable {K : Type} {pg : Postgres} {num : Numerics} {s t : State K}

variable (pg num) in
/-- The rows of the files were rows of the warehouse. -/
structure Descends (s : State K) : Prop where
  warehouse : Traced pg num s.warehouse
  vwapGold : s.vwapFiles.gold = s.warehouse.vwap.getD []
  statsGold : s.statsFiles.gold = s.warehouse.stats.getD []
  vwap : Export.AllRows (Traces pg VwapRow.windowStart (Gold.vwapRow num) s.warehouse.bronze) s.vwapFiles
  stats : Export.AllRows (Traces pg StatsRow.windowStart (Gold.statsRow num) s.warehouse.bronze) s.statsFiles

theorem descends_init : Descends pg num (init : State K) where
  warehouse := Lineage.traced_init
  vwapGold := rfl
  statsGold := rfl
  vwap := Export.allRows_init
  stats := Export.allRows_init

/-- The scheduler and the tests leave the warehouse and the files alone. -/
theorem Descends.of_eq (h : Descends pg num s) (hwarehouse : t.warehouse = s.warehouse)
    (hvwap : t.vwapFiles = s.vwapFiles) (hstats : t.statsFiles = s.statsFiles) : Descends pg num t := by
  obtain ⟨htraced, hvwapGold, hstatsGold, hvwapRows, hstatsRows⟩ := h
  rw [← hwarehouse] at htraced hvwapGold hstatsGold hvwapRows hstatsRows
  rw [← hvwap] at hvwapGold hvwapRows
  rw [← hstats] at hstatsGold hstatsRows
  exact ⟨htraced, hvwapGold, hstatsGold, hvwapRows, hstatsRows⟩

/-- The consumers have inserted. -/
theorem Descends.grow (h : Descends pg num s) {bronze : Bronze} (hgrows : s.warehouse.bronze ⊆ bronze)
    (hunique : KeyedTable.KeyUnique (RawTrade.tradeId pg) bronze) :
    Descends pg num { s with warehouse.bronze := bronze } where
  warehouse := h.warehouse.grow hgrows hunique
  vwapGold := h.vwapGold
  statsGold := h.statsGold
  vwap := h.vwap.mono fun _ hrow => hrow.mono hgrows
  stats := h.stats.mono fun _ hrow => hrow.mono hgrows

/-- dbt has built a table. -/
theorem Descends.refresh (h : Descends pg num s) {a : Rerun.Action} {warehouse : Rerun.State}
    (hbuilt : Rerun.step pg num s.warehouse a = some warehouse) : Descends pg num (s.refresh warehouse) := by
  obtain ⟨htraced, hgrows⟩ := Lineage.traced_step h.warehouse hbuilt
  have hvwap := h.vwap.mono fun _ hrow => hrow.mono hgrows
  have hstats := h.stats.mono fun _ hrow => hrow.mono hgrows
  exact ⟨htraced, rfl, rfl, ⟨hvwap.files, hvwap.pending⟩, ⟨hstats.files, hstats.pending⟩⟩

theorem ne_refresh {Row : Type} {table : Option (List Row)} {b : Export.Action Row}
    (hmay : mayExport table b = true) (gold : List Row) : b ≠ .refresh gold := by
  rintro rfl
  cases hmay

variable [DecidableEq K]

theorem Descends.release (h : Descends pg num s) (k : K) : Descends pg num (s.release k) := by
  rw [State.release]
  split_ifs
  · exact ⟨h.warehouse, h.vwapGold, h.statsGold, h.vwap.stopped, h.stats.stopped⟩
  · exact h

theorem bronze_release (s : State K) (k : K) : (s.release k).warehouse = s.warehouse := by
  rw [State.release]
  split_ifs <;> rfl

/-- The steps of the DAG itself. -/
def isOwn : Action K → Bool
  | .insert _ _ => false
  | _ => true

theorem descends_step {a : Action K} (h : Descends pg num s) (hown : isOwn a = true)
    (hstep : step pg num s a = some t) : Descends pg num t ∧ t.warehouse.bronze = s.warehouse.bronze := by
  have hchain : ∀ {k b u}, s.chain airflow k b = some u →
      Descends pg num u ∧ u.warehouse.bronze = s.warehouse.bronze := by
    intro k b u hchain
    obtain ⟨run, -, rfl⟩ := chain_eq_some hchain
    exact ⟨h.of_eq rfl rfl rfl, rfl⟩
  cases transition_of_step hstep with
  | insert receivedAt trades => cases hown
  | start k task u hu => exact ⟨(hchain hu).1.of_eq rfl rfl rfl, (hchain hu).2⟩
  | succeed k task u hsucceeds hu => exact ⟨(hchain hu).1.of_eq rfl rfl rfl, (hchain hu).2⟩
  | fail k task exception u hu =>
      refine ⟨((hchain hu).1.release k).of_eq rfl rfl rfl, ?_⟩
      show (u.release k).warehouse.bronze = s.warehouse.bronze
      rw [bronze_release]
      exact (hchain hu).2
  | block k task u hu => exact hchain hu
  | finish k startDate endDate u hu => exact ⟨(hchain hu).1.of_eq rfl rfl rfl, (hchain hu).2⟩
  | built k model raises pending failed warehouse hwork hpending hfirst hbuilt =>
      refine ⟨(h.refresh hbuilt).of_eq rfl rfl rfl, ?_⟩
      show warehouse.bronze = s.warehouse.bronze
      cases model with
      | stgTrades | goldVwap1min | goldTradeStats1min =>
          obtain ⟨table, -, rfl⟩ := Option.map_eq_some_iff.mp hbuilt
          rfl
  | raised k model raises pending left failed hwork => exact ⟨h.of_eq rfl rfl rfl, rfl⟩
  | test k test raises pending failed hwork => exact ⟨h.of_eq rfl rfl rfl, rfl⟩
  | connect k hwork hlock => exact ⟨h.of_eq rfl rfl rfl, rfl⟩
  | exportVwap k b files hwork hlock hmay hfiles =>
      refine ⟨⟨h.warehouse, ?_, h.statsGold, h.vwap.step (fun _ => ?_) hfiles, h.stats⟩, rfl⟩
      · exact (Export.gold_step hfiles (ne_refresh hmay)).trans h.vwapGold
      · rw [h.vwapGold]
        exact h.warehouse.vwap
  | exportStats k b vwap files hwork hlock hmay hfiles =>
      refine ⟨⟨h.warehouse, h.vwapGold, ?_, h.vwap, h.stats.step (fun _ => ?_) hfiles⟩, rfl⟩
      · exact (Export.gold_step hfiles (ne_refresh hmay)).trans h.statsGold
      · rw [h.statsGold]
        exact h.warehouse.stats
  | close k vwap stats hwork hlock => exact ⟨h.of_eq rfl rfl rfl, rfl⟩

end Descent

end CryptoLakehouse.Dag

namespace CryptoLakehouse.Traffic

variable {R M : Type} {P : M → Prop} {s t : State R M} {a : Action R M}

/-- What the publisher has sent, and what it is sending. -/
structure Offers (P : M → Prop) (s : State R M) : Prop where
  accepted : ∀ message ∈ s.accepted, P message
  call : ∀ message replies, s.call = some (message, replies) → P message

theorem offers_init : Offers P (init : State R M) where
  accepted message hmessage := absurd hmessage List.not_mem_nil
  call message replies hcall := by cases hcall

theorem Offers.reply (h : Offers P s) {message : M} (hmessage : P message) (replies : List Reply)
    (result : Except AMQPError Unit × Publisher M) : Offers P (s.reply message replies result) := by
  unfold State.reply
  split
  · exact ⟨h.accepted, fun other replies' hcall => by cases hcall⟩
  · split_ifs
    · refine ⟨h.accepted, fun other replies' hcall => ?_⟩
      cases hcall
      exact hmessage
    · exact ⟨h.accepted, fun other replies' hcall => by cases hcall⟩

theorem Offers.arrive (h : Offers P s) {message : M} (hmessage : P message) : Offers P (s.arrive message) := by
  refine ⟨fun other hother => ?_, h.call⟩
  rcases List.mem_append.mp hother with hold | hnew
  · exact h.accepted other hold
  · obtain ⟨queue, -, rfl⟩ := List.mem_map.mp hnew
    exact hmessage

theorem Offers.step [DecidableEq R] (h : Offers P s) (hcall : ∀ message, a = .call message → P message)
    (hstep : step s a = some t) : Offers P t := by
  cases transition_of_step hstep with
  | setup b p hp => exact ⟨h.accepted, h.call⟩
  | broker b broker hdeliver hbroker => exact ⟨h.accepted, h.call⟩
  | call message hidle =>
      refine ⟨h.accepted, fun other replies hsome => ?_⟩
      cases hsome
      exact hcall message rfl
  | attempt fate message replies hbusy =>
      have hmessage := h.call message replies hbusy
      split_ifs
      · exact (h.arrive hmessage).reply hmessage _ _
      · exact h.reply hmessage _ _
  | disconnect hidle => exact ⟨h.accepted, h.call⟩

/-- What is in a queue was offered. -/
theorem Inv.offered (h : Inv s) (hoffers : Offers P s) {held : Broker.Held String String M}
    (hheld : held ∈ s.broker.held) : P held.body := by
  apply hoffers.accepted
  rw [← h.kept.mem_iff]
  exact List.mem_append_left _ (List.mem_map_of_mem hheld)

end CryptoLakehouse.Traffic

namespace CryptoLakehouse.Ingestion

open Pipeline (Sound Filled)

variable {R Body : Type} {pg : Postgres} {loads : Body → Except Exn Json} {dump : TradeMessage → Body}
  {decimalText : Decimal → String} {timeText : Int → String} {ms : List TradeMessage} {s t : State R Body}

variable (pg loads dump decimalText timeText ms) in
/-- All that is on its way to bronze, and all that is there, comes from the trades. -/
structure Supplied (s : State R Body) : Prop where
  inv : Inv pg loads s
  offers : Traffic.Offers (fun body => ∃ m ∈ ms, dump m = body) s.traffic
  filled : Filled ms pg decimalText timeText s.consumer

theorem supplied_init (batchSize : Int) :
    Supplied pg loads dump decimalText timeText ms (init batchSize : State R Body) where
  inv := inv_init batchSize
  offers := Traffic.offers_init
  filled := Pipeline.filled_init Pipeline.sound_nil batchSize

variable [DecidableEq R] [DecidableEq Body] {a : Action R Body}

theorem supplied_step (hloads : ∀ m, loads (dump m) = .ok (.obj (m.modelDump decimalText timeText)))
    (h : Supplied pg loads dump decimalText timeText ms s)
    (hcall : ∀ message, a = .call message → ∃ m ∈ ms, dump m = message) (hstep : step pg loads s a = some t) :
    Supplied pg loads dump decimalText timeText ms t ∧ s.consumer.bronze ⊆ t.consumer.bronze := by
  have hinv := inv_step h.inv hstep
  have hgrows : ∀ {b consumer}, ConsumerMain.step pg loads s.consumer b = some consumer →
      s.consumer.bronze ⊆ consumer.bronze := by
    intro b consumer hconsumer
    refine ConsumerMain.bronze_step (P := (s.consumer.bronze ⊆ ·)) h.inv.consumer (List.Subset.refl _) ?_ hconsumer
    exact fun receivedAt batch _ => (KeyedTable.table_isPrefix_insertAbsent _ _ _).subset
  cases transition_of_step hstep with
  | traffic a b traffic hack hsame htraffic =>
      exact ⟨⟨hinv, h.offers.step (fun message hb => hcall message (hsame message hb)) htraffic, h.filled⟩,
        List.Subset.refl _⟩
  | deliver i held traffic consumer hi htraffic hconsumer =>
      have hbody := h.inv.traffic.offered h.offers (List.mem_of_getElem? hi)
      refine ⟨⟨hinv, h.offers.step (by simp) htraffic, Filled.step hloads h.filled ?_ hconsumer⟩, hgrows hconsumer⟩
      rintro body heq
      cases heq
      exact hbody
  | ack i held traffic consumer hi hcurrent htraffic hconsumer =>
      refine ⟨⟨hinv, h.offers.step (by simp) htraffic, ?_⟩, hgrows hconsumer⟩
      exact Filled.step hloads h.filled (by simp) hconsumer
  | nack i traffic htraffic => exact ⟨⟨hinv, h.offers.step (by simp) htraffic, h.filled⟩, List.Subset.refl _⟩
  | consumer b consumer hinside hconsumer =>
      refine ⟨⟨hinv, h.offers, Filled.step hloads h.filled ?_ hconsumer⟩, hgrows hconsumer⟩
      rintro body rfl
      cases hinside
  | restart batchSize =>
      exact ⟨⟨hinv, h.offers, Pipeline.filled_init h.filled.sound batchSize⟩, List.Subset.refl _⟩

end CryptoLakehouse.Ingestion

namespace CryptoLakehouse.System

open Lineage (Traced Traces Backed)
open Pipeline (Sound stored trades published)

section Code

variable {R Body K : Type}

structure State (R Body K : Type) where
  ingestion : Ingestion.State R Body
  dag : Dag.State K

inductive Action (R Body K : Type) where
  | ingestion (a : Ingestion.Action R Body)
  | dag (a : Dag.Action K)

def init (batchSize : Int) : State R Body K := ⟨Ingestion.init batchSize, Dag.init⟩

variable [DecidableEq R] [DecidableEq Body] [DecidableEq K] (pg : Postgres) (num : Numerics)
  (loads : Body → Except Exn Json)

/-- The models read what the consumers have committed; nobody else inserts. -/
def step (s : State R Body K) : Action R Body K → Option (State R Body K)
  | .ingestion a => (Ingestion.step pg loads s.ingestion a).map fun ingestion =>
      ⟨ingestion, { s.dag with warehouse.bronze := ingestion.consumer.bronze }⟩
  | .dag a => if Dag.isOwn a then (Dag.step pg num s.dag a).map fun dag => { s with dag := dag } else none

end Code

section Lineage

variable {R Body K Frame : Type} {py : Pydantic} {loadsFrame : Frame → Except Exn Json} {pg : Postgres} {num : Numerics}
  {loads : Body → Except Exn Json} {dump : TradeMessage → Body} {decimalText : Decimal → String}
  {timeText : Int → String} {connections : List (List Frame)} {ms : List TradeMessage} {s t : State R Body K}

variable (pg num loads dump decimalText timeText ms) in
/-- Both sides of bronze. -/
structure Connected (s : State R Body K) : Prop where
  supplied : Ingestion.Supplied pg loads dump decimalText timeText ms s.ingestion
  descends : Dag.Descends pg num s.dag
  shared : s.dag.warehouse.bronze = s.ingestion.consumer.bronze

variable (num ms) in
/-- The rows of gold and those of the files count trades of their minute, each once and no others. -/
structure RowsBacked (s : State R Body K) : Prop where
  vwap : ∀ row ∈ s.dag.warehouse.vwap.getD [], Backed VwapRow.windowStart (Gold.vwapRow num) ms row
  stats : ∀ row ∈ s.dag.warehouse.stats.getD [], Backed StatsRow.windowStart (Gold.statsRow num) ms row
  vwapFiles : ∀ file ∈ s.dag.vwapFiles.files, ∀ row ∈ file.rows,
    Backed VwapRow.windowStart (Gold.vwapRow num) ms row ∧ 0 < row.tradeCount ∧
      row.tradeCount ≤ ((distinct ms).filter fun m => some (dateTruncMinute m.time) = row.windowStart).length
  statsFiles : ∀ file ∈ s.dag.statsFiles.files, ∀ row ∈ file.rows,
    Backed StatsRow.windowStart (Gold.statsRow num) ms row

theorem connected_init (batchSize : Int) :
    Connected pg num loads dump decimalText timeText ms (init batchSize : State R Body K) where
  supplied := Ingestion.supplied_init batchSize
  descends := Dag.descends_init
  shared := rfl

theorem Connected.rowsBacked (h : Connected pg num loads dump decimalText timeText ms s) (hid : Identified ms)
    (hreads : Reads pg decimalText timeText ms) : RowsBacked num (stored pg s.ingestion.consumer.bronze ms) s := by
  have hholds := h.supplied.filled.sound.holds
  have hmem : ∀ {m}, m ∈ stored pg s.ingestion.consumer.bronze ms → m ∈ ms := fun hm => (Pipeline.mem_stored.mp hm).1
  have hstored : Reads pg decimalText timeText (stored pg s.ingestion.consumer.bronze ms) :=
    ⟨fun m hm => hreads.price m (hmem hm), fun m hm => hreads.size m (hmem hm), fun m hm => hreads.time m (hmem hm)⟩
  have hvwap : ∀ row, Traces pg VwapRow.windowStart (Gold.vwapRow num) s.dag.warehouse.bronze row →
      Backed VwapRow.windowStart (Gold.vwapRow num) (stored pg s.ingestion.consumer.bronze ms) row := by
    rw [h.shared]
    exact fun row hrow => hrow.backed Gold.vwapRow_unstamped hholds.sound hstored
  have hstats : ∀ row, Traces pg StatsRow.windowStart (Gold.statsRow num) s.dag.warehouse.bronze row →
      Backed StatsRow.windowStart (Gold.statsRow num) (stored pg s.ingestion.consumer.bronze ms) row := by
    rw [h.shared]
    exact fun row hrow => hrow.backed Gold.statsRow_unstamped hholds.sound hstored
  refine ⟨fun row hrow => hvwap row (h.descends.warehouse.vwap row hrow),
    fun row hrow => hstats row (h.descends.warehouse.stats row hrow), fun file hfile row hrow => ?_,
    fun file hfile row hrow => hstats row (h.descends.stats.files file hfile row hrow)⟩
  have hbacked := hvwap row (h.descends.vwap.files file hfile row hrow)
  exact ⟨hbacked, hbacked.tradeCount_le fun m hm m' hm' => hid m (hmem hm) m' (hmem hm')⟩

variable [DecidableEq R] [DecidableEq Body] [DecidableEq K] {a : Action R Body K}

-- `json.loads` reads what `model_dump_json` has written.
variable (hloads : ∀ m, loads (dump m) = .ok (.obj (m.modelDump decimalText timeText)))
include hloads

theorem connected_step (h : Connected pg num loads dump decimalText timeText ms s)
    (hcall : ∀ message, a = .ingestion (.call message) → ∃ m ∈ ms, dump m = message)
    (hstep : step pg num loads s a = some t) : Connected pg num loads dump decimalText timeText ms t := by
  cases a with
  | ingestion a =>
      obtain ⟨ingestion, hingestion, rfl⟩ := Option.map_eq_some_iff.mp hstep
      obtain ⟨hsupplied, hgrows⟩ := Ingestion.supplied_step hloads h.supplied
        (fun message heq => hcall message (congrArg _ heq)) hingestion
      rw [← h.shared] at hgrows
      exact ⟨hsupplied, h.descends.grow hgrows hsupplied.filled.sound.unique, rfl⟩
  | dag a =>
      simp only [step] at hstep
      split_ifs at hstep with hown
      obtain ⟨dag, hdag, rfl⟩ := Option.map_eq_some_iff.mp hstep
      obtain ⟨hdescends, hbronze⟩ := Dag.descends_step h.descends hown hdag
      exact ⟨h.supplied, hdescends, hbronze.trans h.shared⟩

theorem connected_run {batchSize : Int} {as : List (Action R Body K)}
    (hrun : Runs.run (step pg num loads) (init batchSize) as = some s)
    (hsent : ∀ message, .ingestion (.call message) ∈ as → message ∈ published py loadsFrame dump connections) :
    Connected pg num loads dump decimalText timeText (trades py loadsFrame connections) s := by
  have hlabels : Runs.Meets (step pg num loads) (fun _ a => ∀ message, a = .ingestion (.call message) →
      ∃ m ∈ trades py loadsFrame connections, dump m = message) (init batchSize) as := by
    rw [Runs.meets_label hrun]
    rintro a ha message rfl
    exact Pipeline.mem_published.mp (hsent message ha)
  exact Runs.invariant_of_meets (fun _ _ _ h hcall hstep => connected_step hloads h hcall hstep)
    (connected_init batchSize) hlabels hrun

/-- **Nothing is made up on the way.** In every state of every run, with everything that can fail or repeat in
between, every row of the gold tables and of the Parquet files is the aggregate of trades that the producer has
validated and that bronze has: at least one, each once, all of the row's minute. -/
theorem rows_backed_by_trades {batchSize : Int} {as : List (Action R Body K)}
    (hrun : Runs.run (step pg num loads) (init batchSize) as = some s)
    (hsent : ∀ message, .ingestion (.call message) ∈ as → message ∈ published py loadsFrame dump connections)
    (hid : Identified (trades py loadsFrame connections))
    (hreads : Reads pg decimalText timeText (trades py loadsFrame connections)) :
    RowsBacked num (stored pg s.ingestion.consumer.bronze (trades py loadsFrame connections)) s :=
  (connected_run hloads hrun hsent).rowsBacked hid hreads

omit hloads

deriving instance DecidableEq for TradeMessage

def sampleLoads (m : TradeMessage) : Except Exn Json :=
  .ok (.obj (m.modelDump offeredText fun _ => "1970-01-01T00:00:00Z"))

/-- The trade is sent and stored. -/
def ingestionRun : List (Ingestion.Action Unit TradeMessage) :=
  [.setup (.start ()), .setup (.declare ()), .setup (.declare ()), .setup (.declare ()), .setup (.declare ()),
    .setup (.declare ()), .call unitTrade, .attempt .answered, .deliver 0, .consumer (.claim (.caller ())),
    .consumer (.insertReturns (.caller ()) 5), .consumer (.release (.caller ())),
    .consumer (.resetTimer (.caller ())), .ack 0]

/-- It is aggregated, tested and exported. -/
def wholeRun : List (Action Unit TradeMessage Unit) :=
  ingestionRun.map .ingestion ++ Dag.wholeRun.tail.map .dag

theorem sent_wholeRun : ∀ message, .ingestion (.call message) ∈ wholeRun →
    message ∈ published offeredPydantic .ok id Pipeline.sampleConnections := by
  intro message hmessage
  have hunit : message = unitTrade := by simpa [wholeRun, ingestionRun, Dag.wholeRun] using hmessage
  rw [hunit, Pipeline.mem_published, Pipeline.trades_sample]
  exact ⟨unitTrade, List.mem_singleton_self _, rfl⟩

theorem rows_backed_by_trades_wholeRun : ∃ s,
    Runs.run (step offeredPostgres Gold.sixteenDigits sampleLoads) (init 1) wholeRun = some s ∧
      s.dag.vwapFiles.files.map (fun file => file.rows.map VwapRow.tradeCount) = [[1]] ∧
      RowsBacked Gold.sixteenDigits
        (stored offeredPostgres s.ingestion.consumer.bronze
          (trades offeredPydantic .ok Pipeline.sampleConnections)) s := by
  have hrun : (Runs.run (step offeredPostgres Gold.sixteenDigits sampleLoads) (init 1) wholeRun).any
      (fun s => s.dag.vwapFiles.files.map (fun file => file.rows.map VwapRow.tradeCount) = [[1]]) = true := by
    decide +kernel
  obtain ⟨s, hs, hfiles⟩ := (Option.any_eq_true _ _).mp hrun
  exact ⟨s, hs, of_decide_eq_true hfiles, rows_backed_by_trades (fun _ => rfl) hs sent_wholeRun
    Pipeline.identified_sample Pipeline.reads_sample⟩

end Lineage

end CryptoLakehouse.System
