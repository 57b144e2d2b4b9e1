import CryptoLakehouse.PipelineSystem

/-! The whole pipeline is made of its parts: what a run does to the publisher and the broker, to the consumer, to
the tables of the warehouse, to the files of a table and to the tasks of a run of the DAG is a run of the part's
own machine, and each step of the whole is some steps of the part. What holds in every run of a part holds in
every run of the whole. -/

namespace CryptoLakehouse.Dag

/-- The tables that are exported. -/
inductive Table where
  | goldVwap1min
  | goldTradeStats1min

abbrev Table.Row : Table → Type
  | .goldVwap1min => VwapRow
  | .goldTradeStats1min => StatsRow

def Table.windowStart : (table : Table) → table.Row → Option Instant
  | .goldVwap1min => VwapRow.windowStart
  | .goldTradeStats1min => StatsRow.windowStart

/-- The rows that are there to be read. -/
def Table.rows (warehouse : Rerun.State) : (table : Table) → List table.Row
  | .goldVwap1min => warehouse.vwap.getD []
  | .goldTradeStats1min => warehouse.stats.getD []

variable {K : Type} {pg : Postgres} {num : Numerics} {s t : State K} {a : Action K}

def State.files (s : State K) : (table : Table) → Export.State table.Row
  | .goldVwap1min => s.vwapFiles
  | .goldTradeStats1min => s.statsFiles

/-- A step of the export of this table. -/
def Action.exports : Action K → (table : Table) → List (Export.Action table.Row)
  | .exportVwap _ b, .goldVwap1min => [b]
  | .exportStats _ b, .goldTradeStats1min => [b]
  | _, _ => []

section Code

variable (pg num) [DecidableEq K]

/-- What a step does to the tables of the warehouse. -/
def State.builds (s : State K) : Action K → List Rerun.Action
  | .insert receivedAt trades => [.insert receivedAt trades]
  | .model _ model raises => if (s.built pg num model raises).isSome then [model.action] else []
  | _ => []

/-- What it does to the files of a table: the steps of its export, a table that is built anew, the end of the
process that has the lock. -/
def State.writes (s : State K) (table : Table) : Action K → List (Export.Action table.Row)
  | .model _ model raises =>
      ((s.built pg num model raises).map fun warehouse => .refresh (table.rows warehouse)).toList
  | .fail k _ _ => if s.lock = some k then [.kill] else []
  | a => a.exports table

end Code

theorem files_congr (hvwap : t.vwapFiles = s.vwapFiles) (hstats : t.statsFiles = s.statsFiles) (table : Table) :
    t.files table = s.files table := by
  cases table with
  | goldVwap1min => exact hvwap
  | goldTradeStats1min => exact hstats

theorem files_refresh (s : State K) (warehouse : Rerun.State) (table : Table) :
    (s.refresh warehouse).files table = { s.files table with gold := table.rows warehouse } := by
  cases table <;> rfl

variable [DecidableEq K]

theorem chain_eq {k : K} {b : TaskChain.Action} (h : s.chain airflow k b = some t) :
    t.warehouse = s.warehouse ∧ t.lock = s.lock ∧ ∀ table, t.files table = s.files table := by
  obtain ⟨run, -, rfl⟩ := chain_eq_some h
  exact ⟨rfl, rfl, files_congr rfl rfl⟩

/-- A process that fails with the lock is gone from both exports. -/
theorem files_release (s : State K) (k : K) (table : Table) :
    (s.release k).files table = if s.lock = some k then stopped (s.files table) else s.files table := by
  rw [State.release]
  split_ifs
  · cases table <;> rfl
  · rfl

theorem builds_step (h : step pg num s a = some t) :
    Runs.run (Rerun.step pg num) s.warehouse (s.builds pg num a) = some t.warehouse := by
  cases transition_of_step h with
  | insert receivedAt trades => rfl
  | start k task u hu => exact congrArg some (chain_eq hu).1.symm
  | succeed k task u hsucceeds hu => exact congrArg some (chain_eq hu).1.symm
  | fail k task exception u hu => exact congrArg some ((bronze_release u k).trans (chain_eq hu).1).symm
  | block k task u hu => exact congrArg some (chain_eq hu).1.symm
  | finish k startDate endDate u hu => exact congrArg some (chain_eq hu).1.symm
  | built k model raises pending failed warehouse hwork hpending hfirst hbuilt hsome =>
      rw [State.builds, hsome, Option.isSome_some, if_pos rfl]
      exact Runs.run_singleton.trans hbuilt
  | raised k model raises pending left failed hwork hnone =>
      rw [State.builds, hnone]
      rfl
  | _ => rfl

/-- The models leave bronze alone. -/
theorem bronze_step (hown : isOwn a = true) (h : step pg num s a = some t) :
    t.warehouse.bronze = s.warehouse.bronze := by
  have hrun := builds_step h
  cases a with
  | insert receivedAt trades => cases hown
  | model k model raises =>
      rw [State.builds] at hrun
      split_ifs at hrun
      · rw [Runs.run_singleton] at hrun
        cases model <;> obtain ⟨_, -, hnext⟩ := Option.map_eq_some_iff.mp hrun <;> rw [← hnext]
      · rw [Option.some.inj hrun]
  | _ => exact congrArg Rerun.State.bronze (Option.some.inj hrun).symm

theorem writes_step (h : step pg num s a = some t) (table : Table) :
    Runs.run (Export.step table.windowStart) (s.files table) (s.writes pg num table a) = some (t.files table) := by
  cases transition_of_step h with
  | start k task u hu => exact congrArg some ((chain_eq hu).2.2 table).symm
  | succeed k task u hsucceeds hu => exact congrArg some ((chain_eq hu).2.2 table).symm
  | block k task u hu => exact congrArg some ((chain_eq hu).2.2 table).symm
  | finish k startDate endDate u hu => exact congrArg some ((chain_eq hu).2.2 table).symm
  | fail k task exception u hu =>
      obtain ⟨-, hlock, hfiles⟩ := chain_eq hu
      have hrelease := files_release u k table
      rw [hlock, hfiles] at hrelease
      have hlast : Runs.run (Export.step table.windowStart) (s.files table)
          (s.writes pg num table (.fail k task exception)) = some ((u.release k).files table) := by
        rw [hrelease, State.writes]
        split_ifs <;> rfl
      exact hlast
  | built k model raises pending failed warehouse hwork hpending hfirst hbuilt hsome =>
      rw [State.writes, hsome]
      exact congrArg some (files_refresh s warehouse table).symm
  | raised k model raises pending left failed hwork hnone =>
      rw [State.writes, hnone]
      rfl
  | exportVwap k b files hwork hlock hmay hfiles =>
      cases table with
      | goldVwap1min => exact Runs.run_singleton.trans hfiles
      | goldTradeStats1min => rfl
  | exportStats k b vwap files hwork hlock hmay hfiles =>
      cases table with
      | goldVwap1min => rfl
      | goldTradeStats1min => exact Runs.run_singleton.trans hfiles
  | _ => exact congrArg some (files_congr rfl rfl table).symm

/-- The exports have the tables of the warehouse before them. -/
def Mirrored (s : State K) : Prop := ∀ table, (s.files table).gold = table.rows s.warehouse

omit [DecidableEq K] in
theorem Mirrored.of_eq (h : Mirrored s) (hwarehouse : t.warehouse = s.warehouse)
    (hfiles : ∀ table, t.files table = s.files table) : Mirrored t := by
  intro table
  rw [hfiles, hwarehouse, h table]

omit [DecidableEq K] in
/-- The consumers have inserted. -/
theorem Mirrored.grow (h : Mirrored s) (bronze : Bronze) : Mirrored { s with warehouse.bronze := bronze } := by
  intro table
  cases table with
  | goldVwap1min => exact h .goldVwap1min
  | goldTradeStats1min => exact h .goldTradeStats1min

theorem mirrored_step (h : Mirrored s) (hstep : step pg num s a = some t) : Mirrored t := by
  have hchain : ∀ {k b u}, s.chain airflow k b = some u → Mirrored u :=
    fun hu => h.of_eq (chain_eq hu).1 (chain_eq hu).2.2
  cases transition_of_step hstep with
  | insert receivedAt trades => exact h.grow _
  | start k task u hu => exact (hchain hu).of_eq rfl (files_congr rfl rfl)
  | succeed k task u hsucceeds hu => exact (hchain hu).of_eq rfl (files_congr rfl rfl)
  | block k task u hu => exact hchain hu
  | finish k startDate endDate u hu => exact (hchain hu).of_eq rfl (files_congr rfl rfl)
  | fail k task exception u hu =>
      have hrelease : Mirrored (u.release k) := by
        intro table
        rw [files_release, bronze_release, ← hchain hu table]
        split_ifs <;> rfl
      exact hrelease.of_eq rfl (files_congr rfl rfl)
  | built k model raises pending failed warehouse =>
      intro table
      show ((s.refresh warehouse).files table).gold = table.rows warehouse
      rw [files_refresh]
  | exportVwap k b files hwork hlock hmay hfiles =>
      intro table
      cases table with
      | goldVwap1min => exact (Export.gold_step hfiles (ne_refresh hmay)).trans (h .goldVwap1min)
      | goldTradeStats1min => exact h .goldTradeStats1min
  | exportStats k b vwap files hwork hlock hmay hfiles =>
      intro table
      cases table with
      | goldVwap1min => exact h .goldVwap1min
      | goldTradeStats1min => exact (Export.gold_step hfiles (ne_refresh hmay)).trans (h .goldTradeStats1min)
  | _ => exact h.of_eq rfl (files_congr rfl rfl)

end CryptoLakehouse.Dag

namespace CryptoLakehouse.Traffic

variable {R M : Type} {s t : State R M} {a : Action R M}

theorem accepted_reply (s : State R M) (message : M) (replies : List Reply)
    (result : Except AMQPError Unit × Publisher M) : (s.reply message replies result).accepted = s.accepted := by
  unfold State.reply
  split
  · rfl
  · split_ifs <;> rfl

/-- What was accepted stays so. -/
theorem accepted_subset [DecidableEq R] (hstep : step s a = some t) : s.accepted ⊆ t.accepted := by
  cases transition_of_step hstep with
  | attempt fate message replies hbusy =>
      rw [accepted_reply]
      split_ifs
      · exact List.subset_append_left _ _
      · exact List.Subset.refl _
  | _ => exact List.Subset.refl _

end CryptoLakehouse.Traffic

namespace CryptoLakehouse.Ingestion

open Pipeline (Incarnations)

variable {R Body : Type} {pg : Postgres} {loads : Body → Except Exn Json} {s t : State R Body} {a : Action R Body}

/-- What a step does to the setup, the publisher and the broker. -/
def trafficOf : Action R Body → Option (Traffic.Action R Body)
  | .setup b => some (.setup b)
  | .call message => some (.call message)
  | .attempt fate => some (.attempt fate)
  | .disconnect => some .disconnect
  | .expire i => some (.broker (.expire i))
  | .requeue i => some (.broker (.requeue i))
  | .deliver i => some (.broker (.deliver i))
  | .ack i => some (.broker (.ack i))
  | .nack i => some (.broker (.reject i))
  | .consumer _ | .restart _ => none

/-- What a step inserts into bronze: the batch of the thread whose flush gets through. -/
def State.inserts (s : State R Body) : Action R Body → List Rerun.Action
  | .consumer (.insertReturns th receivedAt) | .consumer (.commitUnseen th receivedAt) =>
      [.insert receivedAt (s.consumer.buffer.pc th).batch]
  | _ => []

variable (pg loads) in
/-- The consumer process that is there has come behind others, and has got what the broker has accepted. -/
def Follows (s : State R Body) : Prop :=
  ∃ bronze batchSize as, Incarnations pg loads s.traffic.accepted bronze ∧
    Runs.run (ConsumerMain.step pg loads) (ConsumerMain.init batchSize bronze) as = some s.consumer ∧
    ∀ body, .deliver body ∈ as → body ∈ s.traffic.accepted

theorem incarnations_mono {sent sent' : List Body} (hsent : sent ⊆ sent') {bronze : Bronze}
    (h : Incarnations pg loads sent bronze) : Incarnations pg loads sent' bronze := by
  induction h with
  | first => exact .first
  | next bronze h batchSize as s hrun hdelivered ih =>
      exact .next bronze ih batchSize as s hrun fun body hbody => hsent (hdelivered body hbody)

/-- The consumer has made some more steps. -/
theorem Follows.append (h : Follows pg loads s) (bs : List (ConsumerMain.Action Body))
    (haccepted : s.traffic.accepted ⊆ t.traffic.accepted)
    (hconsumer : Runs.run (ConsumerMain.step pg loads) s.consumer bs = some t.consumer)
    (hdeliver : ∀ body, .deliver body ∈ bs → body ∈ s.traffic.accepted) : Follows pg loads t := by
  obtain ⟨bronze, batchSize, as, hbronze, hrun, hsent⟩ := h
  refine ⟨bronze, batchSize, as ++ bs, incarnations_mono haccepted hbronze,
    Runs.run_append.mpr ⟨s.consumer, hrun, hconsumer⟩, fun body hbody => haccepted ?_⟩
  rcases List.mem_append.mp hbody with hold | hnew
  · exact hsent body hold
  · exact hdeliver body hnew

variable [DecidableEq R] [DecidableEq Body]

/-- What a step is on either side of the queue; only a step of the consumer itself inserts. -/
theorem sides_of_step (hstep : step pg loads s a = some t) :
    (match trafficOf a with
      | some b => Traffic.step s.traffic b = some t.traffic
      | none => t.traffic = s.traffic) ∧
    match a with
      | .consumer b => ConsumerMain.step pg loads s.consumer b = some t.consumer
      | _ => t.consumer.bronze = s.consumer.bronze := by
  have hbronze : ∀ {b consumer}, ConsumerMain.step pg loads s.consumer b = some consumer →
      ConsumerMain.commits pg s.consumer b = s.consumer.bronze → consumer.bronze = s.consumer.bronze :=
    fun hconsumer hsame => (ConsumerMain.effect_step hconsumer).2.1.trans hsame
  cases a with
  | setup b | call message | attempt fate | disconnect | expire i | requeue i =>
      obtain ⟨traffic, htraffic, rfl⟩ := onTraffic_eq_some hstep
      exact ⟨htraffic, rfl⟩
  | deliver i =>
      simp only [step] at hstep
      split at hstep
      · obtain ⟨u, hu, hrest⟩ := Option.bind_eq_some_iff.mp hstep
        obtain ⟨traffic, htraffic, rfl⟩ := onTraffic_eq_some hu
        obtain ⟨consumer, hconsumer, rfl⟩ := Option.map_eq_some_iff.mp hrest
        exact ⟨htraffic, hbronze hconsumer rfl⟩
      · cases hstep
  | ack i =>
      simp only [step] at hstep
      split at hstep
      · split_ifs at hstep
        obtain ⟨u, hu, hrest⟩ := Option.bind_eq_some_iff.mp hstep
        obtain ⟨traffic, htraffic, rfl⟩ := onTraffic_eq_some hu
        obtain ⟨consumer, hconsumer, rfl⟩ := Option.map_eq_some_iff.mp hrest
        exact ⟨htraffic, hbronze hconsumer rfl⟩
      · cases hstep
  | nack i =>
      simp only [step] at hstep
      split at hstep
      · split at hstep
        · split_ifs at hstep
          obtain ⟨u, hu, rfl⟩ := Option.map_eq_some_iff.mp hstep
          obtain ⟨traffic, htraffic, rfl⟩ := onTraffic_eq_some hu
          exact ⟨htraffic, rfl⟩
        · cases hstep
      · cases hstep
  | consumer b =>
      simp only [step] at hstep
      split_ifs at hstep
      obtain ⟨consumer, hconsumer, rfl⟩ := Option.map_eq_some_iff.mp hstep
      exact ⟨rfl, hconsumer⟩
  | restart batchSize =>
      cases hstep
      exact ⟨rfl, rfl⟩

/-- What a step inserts into the bronze that it sees. -/
theorem inserts_step (num : Numerics) {warehouse : Rerun.State} (hbronze : warehouse.bronze = s.consumer.bronze)
    (hstep : step pg loads s a = some t) : Runs.run (Rerun.step pg num) warehouse (s.inserts a) =
      some { warehouse with bronze := t.consumer.bronze } := by
  have hnone : t.consumer.bronze = s.consumer.bronze →
      Runs.run (Rerun.step pg num) warehouse [] = some { warehouse with bronze := t.consumer.bronze } := by
    intro hsame
    rw [hsame, ← hbronze]
    rfl
  have hside := (sides_of_step hstep).2
  cases a with
  | consumer b =>
      have heffect := (ConsumerMain.effect_step hside).2.1
      cases b with
      | insertReturns th receivedAt | commitUnseen th receivedAt =>
          refine Runs.run_singleton.trans ?_
          rw [heffect, ConsumerMain.commits, ← hbronze]
          rfl
      | _ => exact hnone heffect
  | _ => exact hnone hside

theorem follows_step (hinv : Inv pg loads s) (h : Follows pg loads s) (hstep : step pg loads s a = some t) :
    Follows pg loads t := by
  cases transition_of_step hstep with
  | traffic a b traffic hack hcall htraffic =>
      exact h.append [] (Traffic.accepted_subset htraffic) rfl (by simp)
  | deliver i held traffic consumer hi htraffic hconsumer =>
      refine h.append [.deliver held.body] (Traffic.accepted_subset htraffic)
        (Runs.run_singleton.trans hconsumer) fun body hbody => ?_
      cases List.mem_singleton.mp hbody
      exact hinv.traffic.kept.mem_iff.mp (List.mem_append_left _ (List.mem_map_of_mem (List.mem_of_getElem? hi)))
  | ack i held traffic consumer hi hcurrent htraffic hconsumer =>
      exact h.append [.ack] (Traffic.accepted_subset htraffic) (Runs.run_singleton.trans hconsumer) (by simp)
  | nack i traffic htraffic => exact h.append [] (Traffic.accepted_subset htraffic) rfl (by simp)
  | consumer b consumer hinside hconsumer =>
      refine h.append [b] (List.Subset.refl _) (Runs.run_singleton.trans hconsumer) fun body hbody => ?_
      cases List.mem_singleton.mp hbody
      cases hinside
  | restart batchSize =>
      obtain ⟨bronze, size, as, hbronze, hrun, hsent⟩ := h
      exact ⟨s.consumer.bronze, batchSize, [], .next bronze hbronze size as s.consumer hrun hsent, rfl, by simp⟩

end CryptoLakehouse.Ingestion

namespace CryptoLakehouse.System

variable {R Body K : Type} {pg : Postgres} {num : Numerics} {loads : Body → Except Exn Json}
  {s t : State R Body K} {a : Action R Body K} {as : List (Action R Body K)}

section Code

variable (pg num) [DecidableEq K]

/-- The consumers insert, and the runs of the DAG build. -/
def State.builds (s : State R Body K) : Action R Body K → List Rerun.Action
  | .ingestion a => s.ingestion.inserts a
  | .dag a => s.dag.builds pg num a

def State.writes (table : Dag.Table) (s : State R Body K) : Action R Body K → List (Export.Action table.Row)
  | .ingestion _ => []
  | .dag a => s.dag.writes pg num table a

end Code

def trafficOf : Action R Body K → Option (Traffic.Action R Body)
  | .ingestion a => Ingestion.trafficOf a
  | .dag _ => none

variable [DecidableEq R] [DecidableEq Body] [DecidableEq K]

def chainOf (k : K) : Action R Body K → Option TaskChain.Action
  | .ingestion _ => none
  | .dag a => Dag.ofRun k a

variable (pg num loads) in
/-- The parts have come to where they are by runs of their own. -/
structure Composed (batchSize : Int) (as : List (Action R Body K)) (s : State R Body K) : Prop where
  traffic : Runs.run Traffic.step Traffic.init (as.filterMap trafficOf) = some s.ingestion.traffic
  consumer : Ingestion.Follows pg loads s.ingestion
  shared : s.dag.warehouse.bronze = s.ingestion.consumer.bronze
  mirrored : Dag.Mirrored s.dag
  warehouse : Runs.run (Rerun.step pg num) Rerun.init
    (Runs.outputs (step pg num loads) (State.builds pg num) (init batchSize) as) = some s.dag.warehouse
  files : ∀ table, Runs.run (Export.step table.windowStart) Export.init
    (Runs.outputs (step pg num loads) (State.writes pg num table) (init batchSize) as) = some (s.dag.files table)
  chains : ∀ k, Runs.run (TaskChain.step Dag.TASKS.length Dag.RETRIES) TaskChain.init
    (as.filterMap (chainOf k)) = some (s.dag.runs k)

/-- Either side of bronze makes the step. -/
theorem step_cases (h : step pg num loads s a = some t) :
    (∃ b, a = .ingestion b ∧ Ingestion.step pg loads s.ingestion b = some t.ingestion ∧
      t.dag = { s.dag with warehouse.bronze := t.ingestion.consumer.bronze }) ∨
    ∃ b, a = .dag b ∧ Dag.isOwn b = true ∧ Dag.step pg num s.dag b = some t.dag ∧ t.ingestion = s.ingestion := by
  cases a with
  | ingestion b =>
      obtain ⟨ingestion, hingestion, rfl⟩ := Option.map_eq_some_iff.mp h
      exact Or.inl ⟨b, rfl, hingestion, rfl⟩
  | dag b =>
      simp only [step] at h
      split_ifs at h with hown
      obtain ⟨dag, hdag, rfl⟩ := Option.map_eq_some_iff.mp h
      exact Or.inr ⟨b, rfl, hown, hdag, rfl⟩

theorem builds_step (hshared : s.dag.warehouse.bronze = s.ingestion.consumer.bronze)
    (h : step pg num loads s a = some t) : t.dag.warehouse.bronze = t.ingestion.consumer.bronze ∧
      Runs.run (Rerun.step pg num) s.dag.warehouse (s.builds pg num a) = some t.dag.warehouse := by
  rcases step_cases h with ⟨b, rfl, hingestion, hdag⟩ | ⟨b, rfl, hown, hdag, hsame⟩
  · rw [hdag]
    exact ⟨rfl, Ingestion.inserts_step num hshared hingestion⟩
  · refine ⟨?_, Dag.builds_step hdag⟩
    rw [hsame, ← hshared]
    exact Dag.bronze_step hown hdag

theorem writes_step (h : step pg num loads s a = some t) (table : Dag.Table) :
    Runs.run (Export.step table.windowStart) (s.dag.files table) (s.writes pg num table a) =
      some (t.dag.files table) := by
  rcases step_cases h with ⟨b, rfl, -, hdag⟩ | ⟨b, rfl, -, hdag, -⟩
  · rw [hdag]
    exact congrArg some (Dag.files_congr rfl rfl table).symm
  · exact Dag.writes_step hdag table

theorem follows_step (hinv : Ingestion.Inv pg loads s.ingestion) (hfollows : Ingestion.Follows pg loads s.ingestion)
    (h : step pg num loads s a = some t) :
    Ingestion.Inv pg loads t.ingestion ∧ Ingestion.Follows pg loads t.ingestion := by
  rcases step_cases h with ⟨b, rfl, hingestion, -⟩ | ⟨b, rfl, -, -, hsame⟩
  · exact ⟨Ingestion.inv_step hinv hingestion, Ingestion.follows_step hinv hfollows hingestion⟩
  · rw [hsame]
    exact ⟨hinv, hfollows⟩

theorem traffic_run {batchSize : Int} (h : Runs.run (step pg num loads) (init batchSize) as = some s) :
    Runs.run Traffic.step Traffic.init (as.filterMap trafficOf) = some s.ingestion.traffic := by
  refine Runs.projection (fun s : State R Body K => s.ingestion.traffic) (fun s a t b hstep hlabel => ?_)
    (fun s a t hstep hlabel => ?_) h
  · rcases step_cases hstep with ⟨c, rfl, hingestion, -⟩ | ⟨c, rfl, -⟩
    · have hside := (Ingestion.sides_of_step hingestion).1
      rw [trafficOf] at hlabel
      rwa [hlabel] at hside
    · cases hlabel
  · rcases step_cases hstep with ⟨c, rfl, hingestion, -⟩ | ⟨c, rfl, -, -, hsame⟩
    · have hside := (Ingestion.sides_of_step hingestion).1
      rw [trafficOf] at hlabel
      rwa [hlabel] at hside
    · rw [hsame]

theorem chain_run {batchSize : Int} (h : Runs.run (step pg num loads) (init batchSize) as = some s) (k : K) :
    Runs.run (TaskChain.step Dag.TASKS.length Dag.RETRIES) TaskChain.init (as.filterMap (chainOf k)) =
      some (s.dag.runs k) := by
  refine Runs.projection (fun s : State R Body K => s.dag.runs k) (fun s a t b hstep hlabel => ?_)
    (fun s a t hstep hlabel => ?_) h
  · rcases step_cases hstep with ⟨c, rfl, -⟩ | ⟨c, rfl, -, hdag, -⟩
    · cases hlabel
    · have hmoves := Dag.runs_step hdag k
      rw [chainOf] at hlabel
      rwa [hlabel] at hmoves
  · rcases step_cases hstep with ⟨c, rfl, -, hdag⟩ | ⟨c, rfl, -, hdag, -⟩
    · rw [hdag]
    · have hstays := Dag.runs_step hdag k
      rw [chainOf] at hlabel
      rwa [hlabel] at hstays

theorem warehouse_run {batchSize : Int} (h : Runs.run (step pg num loads) (init batchSize) as = some s) :
    s.dag.warehouse.bronze = s.ingestion.consumer.bronze ∧ Runs.run (Rerun.step pg num) Rerun.init
      (Runs.outputs (step pg num loads) (State.builds pg num) (init batchSize) as) = some s.dag.warehouse := by
  have hinit : (init batchSize : State R Body K).dag.warehouse.bronze =
      (init batchSize : State R Body K).ingestion.consumer.bronze := rfl
  refine ⟨Runs.invariant (I := fun s => s.dag.warehouse.bronze = s.ingestion.consumer.bronze)
    (fun _ _ _ hs hstep => (builds_step hs hstep).1) hinit h, ?_⟩
  exact Runs.run_outputs (I := fun s => s.dag.warehouse.bronze = s.ingestion.consumer.bronze)
    (fun s : State R Body K => s.dag.warehouse) (fun _ _ _ hs hstep => (builds_step hs hstep).1)
    (fun _ _ _ hs hstep => (builds_step hs hstep).2) hinit h

theorem files_run {batchSize : Int} (h : Runs.run (step pg num loads) (init batchSize) as = some s)
    (table : Dag.Table) : Runs.run (Export.step table.windowStart) Export.init
      (Runs.outputs (step pg num loads) (State.writes pg num table) (init batchSize) as) =
        some (s.dag.files table) := by
  have hinit : (init batchSize : State R Body K).dag.files table = Export.init := by cases table <;> rfl
  rw [← hinit]
  exact Runs.run_outputs (I := fun _ => True) (fun s : State R Body K => s.dag.files table) (fun _ _ _ _ _ => trivial)
    (fun _ _ _ _ hstep => writes_step hstep table) trivial h

theorem mirrored_step (hmirrored : Dag.Mirrored s.dag) (h : step pg num loads s a = some t) : Dag.Mirrored t.dag := by
  rcases step_cases h with ⟨b, rfl, -, hdag⟩ | ⟨b, rfl, -, hdag, -⟩
  · rw [hdag]
    exact hmirrored.grow _
  · exact Dag.mirrored_step hmirrored hdag

/-- **The parts keep to their own machines.** Whatever the parts do to each other in a run of the whole, each of
them makes a run of its own machine, the consumers and the models over one bronze, the models and the exports over
the same tables. -/
theorem composed_run {batchSize : Int} (as : List (Action R Body K))
    (h : Runs.run (step pg num loads) (init batchSize) as = some s) : Composed pg num loads batchSize as s := by
  have hfollows : Ingestion.Follows pg loads (init batchSize : State R Body K).ingestion :=
    ⟨[], batchSize, [], .first, rfl, by simp⟩
  obtain ⟨hshared, hwarehouse⟩ := warehouse_run h
  refine ⟨traffic_run h, ?_, hshared, ?_, hwarehouse, files_run h, chain_run h⟩
  · exact (Runs.invariant (I := fun s => Ingestion.Inv pg loads s.ingestion ∧ Ingestion.Follows pg loads s.ingestion)
      (fun _ _ _ hs hstep => follows_step hs.1 hs.2 hstep) ⟨Ingestion.inv_init batchSize, hfollows⟩ h).2
  · exact Runs.invariant (I := fun s => Dag.Mirrored s.dag) (fun _ _ _ hs hstep => mirrored_step hs hstep)
      (fun table => by cases table <;> rfl) h

theorem composed_run_wholeRun : ∃ s,
    Runs.run (step offeredPostgres Gold.sixteenDigits sampleLoads) (init 1) wholeRun = some s ∧
      (s.dag.vwapFiles.files.length = 1 ∧
        (Runs.outputs (step offeredPostgres Gold.sixteenDigits sampleLoads)
          (State.builds offeredPostgres Gold.sixteenDigits) (init 1) wholeRun).length = 4 ∧
        (Runs.outputs (step offeredPostgres Gold.sixteenDigits sampleLoads)
          (State.writes offeredPostgres Gold.sixteenDigits .goldVwap1min) (init 1) wholeRun).length = 10) ∧
      Composed offeredPostgres Gold.sixteenDigits sampleLoads 1 wholeRun s := by
  have hrun : (Runs.run (step offeredPostgres Gold.sixteenDigits sampleLoads) (init 1) wholeRun).any (fun s =>
      s.dag.vwapFiles.files.length = 1 ∧
        (Runs.outputs (step offeredPostgres Gold.sixteenDigits sampleLoads)
          (State.builds offeredPostgres Gold.sixteenDigits) (init 1) wholeRun).length = 4 ∧
        (Runs.outputs (step offeredPostgres Gold.sixteenDigits sampleLoads)
          (State.writes offeredPostgres Gold.sixteenDigits .goldVwap1min) (init 1) wholeRun).length = 10) = true := by
    decide +kernel
  obtain ⟨s, hs, hlengths⟩ := (Option.any_eq_true _ _).mp hrun
  exact ⟨s, hs, of_decide_eq_true hlengths, composed_run wholeRun hs⟩

end CryptoLakehouse.System
