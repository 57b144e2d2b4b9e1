import CryptoLakehouse.LakehouseCatalog
import CryptoLakehouse.LibraryTaskChain
import CryptoLakehouse.WarehouseTests

/-! `dags/crypto_pipeline_dag.py`: any number of runs of `dbt_run >> dbt_test >> lakehouse_export >>
sync_metabase`, beside the consumers and over one warehouse and one lakehouse. An attempt of a task is made of
many steps, and may end in a failure between any two of them. The build of a model is one step: that two runs
build one model at a time, which the DAG does not rule out, is left out. -/

namespace CryptoLakehouse.Dag

open Catalog (GOLD_TABLES)
open DbtTest (TESTS Passes TestedWindow)

/-- The tasks in the order of their dependencies. -/
def TASKS : List String := ["dbt_run", "dbt_test", "lakehouse_export", "sync_metabase"]

def DAG_ID : String := "crypto_pipeline"

/-- `default_args["retries"]` -/
def RETRIES : Nat := 1

inductive Model where
  | stgTrades
  | goldVwap1min
  | goldTradeStats1min
  deriving DecidableEq

def Model.action : Model → Rerun.Action
  | .stgTrades => .stgTrades
  | .goldVwap1min => .goldVwap1min
  | .goldTradeStats1min => .goldTradeStats1min

/-- Where the running attempt of a run stands. `runExport` has the results of `export_table` so far. -/
inductive Work where
  | idle
  | dbtRun (pending : List Model) (failed : Bool)
  | dbtTest (pending : List Nat) (failed : Bool)
  | runExport (results : List (String × Bool))
  | syncMetabase

/-- What `dag_callbacks.py` logs; the duration is in microseconds. -/
inductive Record (K : Type) where
  | dagTaskFailed (dagId taskId : String) (runId : K) (exception : String)
  | dagRunComplete (dagId : String) (runId : K) (duration : Option Int)
  deriving DecidableEq

def Record.runId {K : Type} : Record K → K
  | .dagTaskFailed _ _ runId _ => runId
  | .dagRunComplete _ runId _ => runId

/-- `lock` has the run whose `run_export` has opened the DuckDB file. -/
structure State (K : Type) where
  warehouse : Rerun.State
  vwapFiles : Export.State VwapRow
  statsFiles : Export.State StatsRow
  lock : Option K
  runs : K → TaskChain.State
  work : K → Work
  log : List (Record K)

/-- The steps of the consumers, of the scheduler and of the tasks. -/
inductive Action (K : Type) where
  | insert (receivedAt : Instant) (trades : List Dict)
  | start (k : K) (task : Nat)
  | succeed (k : K) (task : Nat)
  | fail (k : K) (task : Nat) (exception : Option String)
  | block (k : K) (task : Nat)
  | finish (k : K) (startDate : Instant) (endDate : Option Instant)
  | model (k : K) (model : Model) (raises : Bool)
  | test (k : K) (test : Nat) (raises : Bool)
  | connect (k : K)
  | exportVwap (k : K) (a : Export.Action VwapRow)
  | exportStats (k : K) (a : Export.Action StatsRow)
  | close (k : K)

def init {K : Type} : State K :=
  ⟨Rerun.init, Export.init, Export.init, none, fun _ => TaskChain.init, fun _ => .idle, []⟩

/-- `on_task_failure` -/
def onTaskFailure {K : Type} (taskId : String) (runId : K) (exception : Option String) : Record K :=
  .dagTaskFailed DAG_ID taskId runId (exception.getD "None")

/-- `on_dag_success` -/
def onDagSuccess {K : Type} (runId : K) (startDate : Instant) (endDate : Option Instant) : Record K :=
  .dagRunComplete DAG_ID runId (endDate.map fun endDate => endDate - startDate)

def taskId (task : Nat) : String := TASKS.getD task ""

/-- What a task has to do when it starts. -/
def begins : Nat → Work
  | 0 => .dbtRun [.stgTrades, .goldVwap1min, .goldTradeStats1min] false
  | 1 => .dbtTest (List.range TESTS.length) false
  | 2 => .runExport []
  | _ => .syncMetabase

/-- The task that the work is of. -/
def Work.task : Work → Option Nat
  | .idle => none
  | .dbtRun .. => some 0
  | .dbtTest .. => some 1
  | .runExport _ => some 2
  | .syncMetabase => some 3

/-- A step of `export_table` that its run may make: dbt refreshes the table, and a query needs one. -/
def mayExport {R : Type} (table : Option (List R)) : Export.Action R → Bool
  | .refresh _ | .kill => false
  | .read => table.isSome
  | _ => true

/-- The entry of `results` behind a step of `export_table`, when it has returned. -/
def result {R : Type} (table : String) (files : Export.State R) : List (String × Bool) :=
  match files.pc, files.returned with
  | .idle, some ok => [(table, ok)]
  | _, _ => []

/-- The process of an export is gone. -/
def stopped {R : Type} (files : Export.State R) : Export.State R := { files with pc := .idle, returned := none }

section Code

variable {K : Type} [DecidableEq K] (pg : Postgres) (num : Numerics)

def State.working (s : State K) (k : K) (work : Work) : State K :=
  { s with work := Function.update s.work k work }

/-- dbt has built a table; the exports read it from here on. -/
def State.refresh (s : State K) (warehouse : Rerun.State) : State K :=
  { s with
    warehouse := warehouse
    vwapFiles := { s.vwapFiles with gold := warehouse.vwap.getD [] }
    statsFiles := { s.statsFiles with gold := warehouse.stats.getD [] } }

def State.release (s : State K) (k : K) : State K :=
  if s.lock = some k then
    { s with lock := none, vwapFiles := stopped s.vwapFiles, statsFiles := stopped s.statsFiles }
  else s

/-- `dbt_run >> dbt_test >> lakehouse_export >> sync_metabase` with `retries`, for a scheduler that makes every
choice Airflow may make. -/
def airflow : TaskChain.State → TaskChain.Action → Option TaskChain.State := TaskChain.step TASKS.length RETRIES

/-- A step of the scheduler on one run. -/
def State.chain (s : State K) (sched : TaskChain.State → TaskChain.Action → Option TaskChain.State) (k : K)
    (a : TaskChain.Action) : Option (State K) :=
  (sched (s.runs k) a).map fun run => { s with runs := Function.update s.runs k run }

/-- What dbt makes of a model: nothing when it raises, or when what the model reads is not there. -/
def State.built (s : State K) (model : Model) (raises : Bool) : Option Rerun.State :=
  if raises then none else Rerun.step pg num s.warehouse model.action

/-- A test of `dbt test` on the tables as they are. -/
def State.passes (s : State K) (test : Nat) : Bool :=
  match s.warehouse.silver, s.warehouse.vwap, TESTS[test]? with
  | some silver, some vwap, some test => test ⟨silver, vwap⟩ = 0
  | _, _, _ => false

/-- The attempt has come to its end and nothing in it has failed; `sync_metabase_schema` never raises. -/
def State.succeeds (s : State K) (k : K) : Bool :=
  match s.work k with
  | .idle => false
  | .dbtRun pending failed => pending.isEmpty && !failed
  | .dbtTest pending failed => pending.isEmpty && !failed
  | .runExport results => s.lock ≠ some k && results.map Prod.fst = GOLD_TABLES && results.all Prod.snd
  | .syncMetabase => true

/-- The steps under a scheduler. -/
def stepUnder (sched : TaskChain.State → TaskChain.Action → Option TaskChain.State) (s : State K) :
    Action K → Option (State K)
  | .insert receivedAt trades =>
      some { s with warehouse.bronze := insertBatch pg s.warehouse.bronze receivedAt trades }
  | .start k task => (s.chain sched k (.start task)).map fun t => t.working k (begins task)
  | .succeed k task => if s.succeeds k then (s.chain sched k (.succeed task)).map fun t => t.working k .idle else none
  | .fail k task exception => (s.chain sched k (.fail task)).map fun t =>
      { (t.release k).working k .idle with
        log := s.log ++ if (t.runs k).status task = .failed then [onTaskFailure (taskId task) k exception] else [] }
  | .block k task => s.chain sched k (.block task)
  | .finish k startDate endDate => (s.chain sched k .finish).map fun t =>
      { t with log := s.log ++ if (t.runs k).outcome = some true then [onDagSuccess k startDate endDate] else [] }
  -- the two gold models may run at a time; both are skipped when `stg_trades` fails
  | .model k model raises =>
      match s.work k with
      | .dbtRun pending failed =>
          if model ∈ pending ∧ (.stgTrades ∈ pending → model = .stgTrades) then
            match s.built pg num model raises with
            | some warehouse => some ((s.refresh warehouse).working k (.dbtRun (pending.erase model) failed))
            | none =>
                some (s.working k (.dbtRun (if model = .stgTrades then [] else pending.erase model) true))
          else none
      | _ => none
  | .test k test raises =>
      match s.work k with
      | .dbtTest pending failed =>
          if test ∈ pending then
            some (s.working k (.dbtTest (pending.erase test) (failed || raises || !s.passes test)))
          else none
      | _ => none
  | .connect k =>
      match s.work k with
      | .runExport [] => if s.lock = none then some { s with lock := some k } else none
      | _ => none
  | .exportVwap k a =>
      match s.work k with
      | .runExport [] =>
          if s.lock = some k ∧ mayExport s.warehouse.vwap a then
            (Export.step VwapRow.windowStart s.vwapFiles a).map fun files =>
              { s with vwapFiles := files }.working k (.runExport (result "gold_vwap_1min" files))
          else none
      | _ => none
  | .exportStats k a =>
      match s.work k with
      | .runExport [vwap] =>
          if s.lock = some k ∧ mayExport s.warehouse.stats a then
            (Export.step StatsRow.windowStart s.statsFiles a).map fun files =>
              { s with statsFiles := files }.working k (.runExport (vwap :: result "gold_trade_stats_1min" files))
          else none
      | _ => none
  | .close k =>
      match s.work k with
      | .runExport [_, _] => if s.lock = some k then some { s with lock := none } else none
      | _ => none

/-- The steps under `airflow`, which are those of every scheduler that keeps to `TaskChain.Scheduler`. -/
def step : State K → Action K → Option (State K) := stepUnder pg num airflow

/-- The steps with what each needs. -/
inductive Transition (s : State K) : Action K → State K → Prop where
  | insert (receivedAt : Instant) (trades : List Dict) : Transition s (.insert receivedAt trades)
      { s with warehouse.bronze := insertBatch pg s.warehouse.bronze receivedAt trades }
  | start (k : K) (task : Nat) (t : State K) (hchain : s.chain airflow k (.start task) = some t) :
      Transition s (.start k task) (t.working k (begins task))
  | succeed (k : K) (task : Nat) (t : State K) (hsucceeds : s.succeeds k = true)
      (hchain : s.chain airflow k (.succeed task) = some t) : Transition s (.succeed k task) (t.working k .idle)
  | fail (k : K) (task : Nat) (exception : Option String) (t : State K)
      (hchain : s.chain airflow k (.fail task) = some t) : Transition s (.fail k task exception)
        { (t.release k).working k .idle with
          log := s.log ++
            if (t.runs k).status task = .failed then [onTaskFailure (taskId task) k exception] else [] }
  | block (k : K) (task : Nat) (t : State K) (hchain : s.chain airflow k (.block task) = some t) :
      Transition s (.block k task) t
  | finish (k : K) (startDate : Instant) (endDate : Option Instant) (t : State K)
      (hchain : s.chain airflow k .finish = some t) : Transition s (.finish k startDate endDate)
        { t with log := s.log ++ if (t.runs k).outcome = some true then [onDagSuccess k startDate endDate] else [] }
  | built (k : K) (model : Model) (raises : Bool) (pending : List Model) (failed : Bool) (warehouse : Rerun.State)
      (hwork : s.work k = .dbtRun pending failed) (hpending : model ∈ pending)
      (hfirst : .stgTrades ∈ pending → model = .stgTrades)
      (hbuilt : Rerun.step pg num s.warehouse model.action = some warehouse)
      (hsome : s.built pg num model raises = some warehouse) :
      Transition s (.model k model raises) ((s.refresh warehouse).working k (.dbtRun (pending.erase model) failed))
  | raised (k : K) (model : Model) (raises : Bool) (pending left : List Model) (failed : Bool)
      (hwork : s.work k = .dbtRun pending failed) (hnone : s.built pg num model raises = none) :
      Transition s (.model k model raises) (s.working k (.dbtRun left true))
  | test (k : K) (test : Nat) (raises : Bool) (pending : List Nat) (failed : Bool)
      (hwork : s.work k = .dbtTest pending failed) :
      Transition s (.test k test raises)
        (s.working k (.dbtTest (pending.erase test) (failed || raises || !s.passes test)))
  | connect (k : K) (hwork : s.work k = .runExport []) (hlock : s.lock = none) :
      Transition s (.connect k) { s with lock := some k }
  | exportVwap (k : K) (a : Export.Action VwapRow) (files : Export.State VwapRow)
      (hwork : s.work k = .runExport []) (hlock : s.lock = some k) (hmay : mayExport s.warehouse.vwap a = true)
      (hfiles : Export.step VwapRow.windowStart s.vwapFiles a = some files) :
      Transition s (.exportVwap k a)
        ({ s with vwapFiles := files }.working k (.runExport (result "gold_vwap_1min" files)))
  | exportStats (k : K) (a : Export.Action StatsRow) (vwap : String × Bool) (files : Export.State StatsRow)
      (hwork : s.work k = .runExport [vwap]) (hlock : s.lock = some k) (hmay : mayExport s.warehouse.stats a = true)
      (hfiles : Export.step StatsRow.windowStart s.statsFiles a = some files) :
      Transition s (.exportStats k a)
        ({ s with statsFiles := files }.working k (.runExport (vwap :: result "gold_trade_stats_1min" files)))
  | close (k : K) (vwap stats : String × Bool) (hwork : s.work k = .runExport [vwap, stats])
      (hlock : s.lock = some k) : Transition s (.close k) { s with lock := none }

variable {pg num}

theorem transition_of_step {s t : State K} {a : Action K} (h : step pg num s a = some t) :
    Transition pg num s a t := by
  cases a with
  | insert receivedAt trades =>
      cases h
      exact .insert receivedAt trades
  | start k task =>
      obtain ⟨t, hchain, rfl⟩ := Option.map_eq_some_iff.mp h
      exact .start k task t hchain
  | succeed k task =>
      simp only [step, stepUnder] at h
      split_ifs at h with hsucceeds
      obtain ⟨t, hchain, rfl⟩ := Option.map_eq_some_iff.mp h
      exact .succeed k task t hsucceeds hchain
  | fail k task exception =>
      obtain ⟨t, hchain, rfl⟩ := Option.map_eq_some_iff.mp h
      exact .fail k task exception t hchain
  | block k task => exact .block k task t h
  | finish k startDate endDate =>
      obtain ⟨t, hchain, rfl⟩ := Option.map_eq_some_iff.mp h
      exact .finish k startDate endDate t hchain
  | model k model raises =>
      simp only [step, stepUnder] at h
      split at h
      · rename_i pending failed hwork
        split at h
        · rename_i hguard
          split at h
          · rename_i warehouse hsome
            have hbuilt := hsome
            rw [State.built] at hbuilt
            split_ifs at hbuilt
            cases h
            exact .built k model raises pending failed warehouse hwork hguard.1 hguard.2 hbuilt hsome
          · rename_i hnone
            cases h
            exact .raised k model raises pending _ failed hwork hnone
        · cases h
      · cases h
  | test k test raises =>
      simp only [step, stepUnder] at h
      split at h
      · rename_i pending failed hwork
        split_ifs at h
        cases h
        exact .test k test raises pending failed hwork
      · cases h
  | connect k =>
      simp only [step, stepUnder] at h
      split at h
      · rename_i hwork
        split_ifs at h with hlock
        cases h
        exact .connect k hwork hlock
      · cases h
  | exportVwap k a =>
      simp only [step, stepUnder] at h
      split at h
      · rename_i hwork
        split_ifs at h with hmay
        obtain ⟨files, hfiles, rfl⟩ := Option.map_eq_some_iff.mp h
        exact .exportVwap k a files hwork hmay.1 hmay.2 hfiles
      · cases h
  | exportStats k a =>
      simp only [step, stepUnder] at h
      split at h
      · rename_i vwap hwork
        split_ifs at h with hmay
        obtain ⟨files, hfiles, rfl⟩ := Option.map_eq_some_iff.mp h
        exact .exportStats k a vwap files hwork hmay.1 hmay.2 hfiles
      · cases h
  | close k =>
      simp only [step, stepUnder] at h
      split at h
      · rename_i vwap stats hwork
        split_ifs at h with hlock
        cases h
        exact .close k vwap stats hwork hlock
      · cases h

end Code

section Runs

variable {K : Type} [DecidableEq K] {pg : Postgres} {num : Numerics} {s t : State K} {a : Action K}

/-- What the scheduler does to one run. -/
def ofRun (k : K) : Action K → Option TaskChain.Action
  | .start j task => if j = k then some (.start task) else none
  | .succeed j task => if j = k then some (.succeed task) else none
  | .fail j task _ => if j = k then some (.fail task) else none
  | .block j task => if j = k then some (.block task) else none
  | .finish j _ _ => if j = k then some .finish else none
  | _ => none

theorem chain_eq_some {k : K} {b : TaskChain.Action} (h : s.chain airflow k b = some t) : ∃ run,
    TaskChain.step TASKS.length RETRIES (s.runs k) b = some run ∧
      t = { s with runs := Function.update s.runs k run } := by
  obtain ⟨run, hrun, rfl⟩ := Option.map_eq_some_iff.mp h
  exact ⟨run, hrun, rfl⟩

theorem runs_release (s : State K) (k : K) : (s.release k).runs = s.runs := by
  rw [State.release]
  split_ifs <;> rfl

theorem runs_chain {j : K} {b : TaskChain.Action} (h : s.chain airflow j b = some t) (k : K) :
    match if j = k then some b else none with
    | some b => TaskChain.step TASKS.length RETRIES (s.runs k) b = some (t.runs k)
    | none => t.runs k = s.runs k := by
  obtain ⟨run, hrun, rfl⟩ := chain_eq_some h
  by_cases hj : j = k
  · subst hj
    simpa using hrun
  · simpa [hj] using Function.update_of_ne (Ne.symm hj) run s.runs

/-- A run only moves by its own steps. -/
theorem runs_step (h : step pg num s a = some t) (k : K) :
    match ofRun k a with
    | some b => TaskChain.step TASKS.length RETRIES (s.runs k) b = some (t.runs k)
    | none => t.runs k = s.runs k := by
  cases transition_of_step h with
  | start j task u hchain => exact (runs_chain hchain k :)
  | succeed j task u hsucceeds hchain => exact (runs_chain hchain k :)
  | fail j task exception u hchain =>
      have hfail := runs_chain hchain k
      rwa [← runs_release u j] at hfail
  | block j task u hchain => exact runs_chain hchain k
  | finish j startDate endDate u hchain => exact (runs_chain hchain k :)
  | _ => rfl

theorem chain_inv_step {k : K} (hinv : TaskChain.Inv TASKS.length RETRIES (s.runs k)) (h : step pg num s a = some t) :
    TaskChain.Inv TASKS.length RETRIES (t.runs k) := by
  have hmoves := runs_step h k
  cases hb : ofRun k a with
  | none =>
      rw [hb] at hmoves
      exact hmoves ▸ hinv
  | some b =>
      rw [hb] at hmoves
      exact TaskChain.inv_step hinv hmoves

theorem run_ofRun {as : List (Action K)} (h : Runs.run (step pg num) init as = some s) (k : K) :
    Runs.run (TaskChain.step TASKS.length RETRIES) TaskChain.init (as.filterMap (ofRun k)) = some (s.runs k) := by
  refine Runs.projection (fun s : State K => s.runs k) (fun s a t b hstep hlabel => ?_)
    (fun s a t hstep hlabel => ?_) h
  · have hmoves := runs_step hstep k
    rwa [hlabel] at hmoves
  · have hstays := runs_step hstep k
    rwa [hlabel] at hstays

theorem chain_inv {as : List (Action K)} (h : Runs.run (step pg num) init as = some s) (k : K) :
    TaskChain.Inv TASKS.length RETRIES (s.runs k) := TaskChain.inv_run (run_ofRun h k)

end Runs

section Records

variable {K : Type} [DecidableEq K] {pg : Postgres} {num : Numerics} {s t : State K} {a : Action K} {k : K}

/-- What the log has of one run. -/
def State.records (s : State K) (k : K) : List (Record K) := s.log.filter fun record => record.runId = k

/-- The callbacks that a step has called. -/
def called (t : State K) : Action K → List (Record K)
  | .fail k task exception =>
      if (t.runs k).status task = .failed then [onTaskFailure (taskId task) k exception] else []
  | .finish k startDate endDate => if (t.runs k).outcome = some true then [onDagSuccess k startDate endDate] else []
  | _ => []

theorem log_step (h : step pg num s a = some t) : t.log = s.log ++ called t a := by
  have hchain : ∀ {k b u}, s.chain airflow k b = some u → u.log = s.log ++ [] := by
    intro k b u hchain
    obtain ⟨run, -, rfl⟩ := chain_eq_some hchain
    exact (List.append_nil _).symm
  cases transition_of_step h with
  | start k task u hstart => exact (hchain hstart :)
  | succeed k task u hsucceeds hsucceed => exact (hchain hsucceed :)
  | block k task u hblock => exact hchain hblock
  | fail k task exception u hfail =>
      show _ = s.log ++ if ((u.release k).runs k).status task = .failed then _ else _
      rw [runs_release]
  | finish k startDate endDate u hfinish => rfl
  | _ => exact (List.append_nil _).symm

theorem records_step (h : step pg num s a = some t) :
    t.records k = s.records k ++ (called t a).filter fun record => record.runId = k := by
  rw [State.records, log_step h, List.filter_append]
  rfl

/-- A callback is called for the run that the step is one of. -/
theorem called_of_not_ofRun (hnone : ofRun k a = none) : (called t a).filter (fun record => record.runId = k) = [] := by
  cases a with
  | fail j task exception =>
      have hj : j ≠ k := by
        rintro rfl
        simp [ofRun] at hnone
      rw [called]
      split_ifs <;> simp [onTaskFailure, Record.runId, hj]
  | finish j startDate endDate =>
      have hj : j ≠ k := by
        rintro rfl
        simp [ofRun] at hnone
      rw [called]
      split_ifs <;> simp [onDagSuccess, Record.runId, hj]
  | _ => rfl

/-- The records of one run, by where it stands: none yet, the task that was given up, or the end. -/
inductive Logged (k : K) (run : TaskChain.State) : List (Record K) → Prop where
  | silent (hfailures : run.failures = []) (hover : run.outcome ≠ some true) : Logged k run []
  | failed (i : Nat) (exception : String) (hfailures : run.failures = [i]) (hover : run.outcome ≠ some true) :
      Logged k run [.dagTaskFailed DAG_ID (taskId i) k exception]
  | complete (duration : Option Int) (hover : run.outcome = some true) :
      Logged k run [.dagRunComplete DAG_ID k duration]

omit [DecidableEq K] in
theorem Logged.kept {run run' : TaskChain.State} {records : List (Record K)} (h : Logged k run records)
    (hfailures : run'.failures = run.failures) (houtcome : run'.outcome = some true ↔ run.outcome = some true) :
    Logged k run' records := by
  cases h with
  | silent hnone hover => exact .silent (hfailures.trans hnone) (houtcome.not.mpr hover)
  | failed i exception hone hover => exact .failed i exception (hfailures.trans hone) (houtcome.not.mpr hover)
  | complete duration hover => exact .complete duration (houtcome.mpr hover)

omit [DecidableEq K] in
/-- The first task that is given up is the only one. -/
theorem Logged.giveUp {run run' : TaskChain.State} {records : List (Record K)} (h : Logged k run records) {i : Nat}
    (hfailures : run'.failures = run.failures ++ [i]) (hone : run'.failures.length ≤ 1)
    (hover : run.outcome = none) (houtcome : run'.outcome = run.outcome) (exception : Option String) :
    Logged k run' (records ++ [onTaskFailure (taskId i) k exception]) := by
  have hfirst : run.failures = [] := by
    rw [hfailures, List.length_append, List.length_singleton] at hone
    exact List.length_eq_zero_iff.mp (by omega)
  have hopen : run'.outcome ≠ some true := by
    rw [houtcome, hover]
    exact fun hsome => by cases hsome
  cases h with
  | silent => exact .failed i _ (by rw [hfailures, hfirst, List.nil_append]) hopen
  | failed j _ hfailed => cases hfirst.symm.trans hfailed
  | complete duration hcomplete => cases hover.symm.trans hcomplete

omit [DecidableEq K] in
/-- A run that succeeds has given up nothing. -/
theorem Logged.finish {run : TaskChain.State} {records : List (Record K)} (h : Logged k run records)
    (hfailures : run.failures = []) (hover : run.outcome = none) (startDate : Instant) (endDate : Option Instant) :
    Logged k { run with outcome := some true } (records ++ [onDagSuccess k startDate endDate]) := by
  cases h with
  | silent => exact .complete _ rfl
  | failed i _ hfailed => cases hfailures.symm.trans hfailed
  | complete duration hcomplete => cases hover.symm.trans hcomplete

/-- A step that neither fails a task of the run nor ends it calls nothing for the run. -/
theorem Logged.quiet (hs : Logged k (s.runs k) (s.records k)) (h : step pg num s a = some t)
    (hfail : ∀ task, ofRun k a ≠ some (.fail task)) (hfinish : ofRun k a ≠ some .finish)
    (hcalled : (called t a).filter (fun record => record.runId = k) = []) :
    Logged k (t.runs k) (t.records k) := by
  have hmoves := runs_step h k
  have hkept : (t.runs k).failures = (s.runs k).failures ∧ (t.runs k).outcome = (s.runs k).outcome := by
    cases hb : ofRun k a with
    | none =>
        rw [hb] at hmoves
        simp [hmoves]
    | some b =>
        rw [hb] at hmoves hfail hfinish
        exact TaskChain.quiet_of_step hmoves (fun i heq => hfail i (heq ▸ rfl)) fun heq => hfinish (heq ▸ rfl)
  rw [records_step h, hcalled, List.append_nil]
  exact hs.kept hkept.1 (by rw [hkept.2])

theorem logged_step (hinv : TaskChain.Inv TASKS.length RETRIES (s.runs k))
    (hs : Logged k (s.runs k) (s.records k)) (h : step pg num s a = some t) :
    Logged k (t.runs k) (t.records k) := by
  have hmoves := runs_step h k
  cases a with
  | fail j task exception =>
      by_cases hj : j = k
      · subst hj
        rw [ofRun, if_pos rfl] at hmoves
        have hafter := TaskChain.inv_step hinv hmoves
        rw [records_step h, called]
        generalize hrun : t.runs j = run at hmoves hafter
        cases TaskChain.transition_of_step hmoves with
        | retry i hrunning htries =>
            have hnot : ((s.runs j).mark task .retrying).status task ≠ .failed := by simp [TaskChain.State.mark]
            rw [if_neg hnot, List.filter_nil, List.append_nil]
            exact hs.kept rfl Iff.rfl
        | giveUp i hrunning htries =>
            have hgiven : ((s.runs j).mark task .failed).status task = .failed := Function.update_self ..
            have hover := hinv.over_eq_none (hinv.inside task (by simp [hrunning]))
              (by simp [hrunning, TaskChain.Status.Terminal])
            rw [if_pos hgiven]
            simpa [onTaskFailure, Record.runId] using
              hs.giveUp (i := task) rfl hafter.failures_length_le hover rfl exception
      · exact hs.quiet h (by simp [ofRun, hj]) (by simp [ofRun, hj]) (called_of_not_ofRun (by simp [ofRun, hj]))
  | finish j startDate endDate =>
      by_cases hj : j = k
      · subst hj
        rw [ofRun, if_pos rfl] at hmoves
        have hafter := TaskChain.inv_step hinv hmoves
        rw [records_step h, called]
        generalize hrun : t.runs j = run at hmoves hafter
        cases TaskChain.transition_of_step hmoves with
        | finish hover hterminal =>
            by_cases hall : ∀ i < TASKS.length, (s.runs j).status i = .success
            · rw [decide_eq_true hall, if_pos rfl]
              simpa [onDagSuccess, Record.runId] using hs.finish (hinv.failures_eq_nil hall) hover startDate endDate
            · have hnone : some (decide (∀ i < TASKS.length, (s.runs j).status i = .success)) ≠ some true := by
                simpa using hall
              rw [if_neg hnone, List.filter_nil, List.append_nil]
              exact hs.kept rfl (iff_of_false hnone (by rw [hover]; exact fun hsome => by cases hsome))
      · exact hs.quiet h (by simp [ofRun, hj]) (by simp [ofRun, hj]) (called_of_not_ofRun (by simp [ofRun, hj]))
  | start j task | succeed j task | block j task =>
      exact hs.quiet h (fun i => by rw [ofRun]; split_ifs <;> simp) (by rw [ofRun]; split_ifs <;> simp) rfl
  | _ => exact hs.quiet h (by simp [ofRun]) (by simp [ofRun]) rfl

theorem logged_run {as : List (Action K)} (h : Runs.run (step pg num) init as = some s) (k : K) :
    Logged k (s.runs k) (s.records k) := by
  have hboth : TaskChain.Inv TASKS.length RETRIES (s.runs k) ∧ Logged k (s.runs k) (s.records k) := by
    refine Runs.invariant (I := fun s : State K => TaskChain.Inv TASKS.length RETRIES (s.runs k) ∧
      Logged k (s.runs k) (s.records k)) (fun s a t hs hstep => ?_)
      ⟨TaskChain.inv_init, .silent rfl (by simp [init, TaskChain.init])⟩ h
    exact ⟨chain_inv_step hs.1 hstep, logged_step hs.1 hs.2 hstep⟩
  exact hboth.2

end Records

section Scheduled

variable {K : Type} {k : K}

/-- What the log tells of a run: nothing yet, the task that was given up, or the end. -/
inductive Told (k : K) (run : TaskChain.State) : List (Record K) → Prop where
  | silent (hstatus : ∀ i, run.status i ≠ .failed) (hover : run.outcome ≠ some true) : Told k run []
  | failed (i : Nat) (exception : String) (hi : i < TASKS.length) (hstatus : run.status i = .failed)
      (htries : run.tries i = 2) (hahead : ∀ j < i, run.status j = .success) (hbehind : ∀ j, i < j → run.tries j = 0)
      (hover : run.outcome ≠ some true) : Told k run [.dagTaskFailed DAG_ID (taskId i) k exception]
  | complete (duration : Option Int) (hstatus : ∀ i < TASKS.length, run.status i = .success)
      (hover : run.outcome = some true) : Told k run [.dagRunComplete DAG_ID k duration]

theorem Logged.told {run : TaskChain.State} {records : List (Record K)} (h : Logged k run records)
    (hinv : TaskChain.Inv TASKS.length RETRIES run) : Told k run records := by
  cases h with
  | silent hfailures hover =>
      refine .silent (fun i hfailed => ?_) hover
      have hmem := (hinv.failures i).mpr hfailed
      rw [hfailures] at hmem
      exact absurd hmem List.not_mem_nil
  | failed i exception hfailures hover =>
      have hfailed : run.status i = .failed := (hinv.failures i).mp (hfailures ▸ List.mem_singleton_self i)
      have htries := hinv.tries i
      rw [hfailed] at htries
      have hi := hinv.inside i (by simp [hfailed])
      refine .failed i exception hi hfailed htries (fun j hj => ?_) (fun j hj => ?_) hover
      · exact hinv.ahead j i hj (by simp [hfailed, TaskChain.Status.Begun])
      · refine hinv.tries_eq_zero fun hbegun => ?_
        cases hfailed.symm.trans (hinv.ahead i j hj hbegun)
  | complete duration hover => exact .complete duration ((hinv.outcome true hover).2.mp rfl) hover

variable [DecidableEq K]

/-- A run of the DAG: the task at work is the one that the scheduler has running, a task is tried twice at most
and only behind the tasks ahead of it, and the log tells how far the run got. -/
structure Scheduled (s : State K) (k : K) : Prop where
  works : ∀ i, (s.work k).task = some i ↔ (s.runs k).status i = .running
  tries : ∀ i, (s.runs k).tries i ≤ 2
  ahead : ∀ i j, i < j → (s.runs k).tries j ≠ 0 → (s.runs k).status i = .success
  told : Told k (s.runs k) (s.records k)

end Scheduled

section Schedulers

variable {K : Type} [DecidableEq K] {pg : Postgres} {num : Numerics} {s t : State K} {a : Action K} {k : K}
  {sched : TaskChain.State → TaskChain.Action → Option TaskChain.State}

/-- What Airflow does to the DAG is among what `airflow` may do. -/
theorem step_of_stepUnder (hsched : TaskChain.Scheduler TASKS.length RETRIES TaskChain.Follows sched)
    (h : stepUnder pg num sched s a = some t) : step pg num s a = some t := by
  have hchain : ∀ {k b u}, s.chain sched k b = some u → s.chain airflow k b = some u := by
    intro k b u hmap
    obtain ⟨run, hrun, rfl⟩ := Option.map_eq_some_iff.mp hmap
    exact Option.map_eq_some_iff.mpr ⟨run, hsched.step_of_sched hrun, rfl⟩
  cases a with
  | start k task =>
      obtain ⟨u, hu, rfl⟩ := Option.map_eq_some_iff.mp h
      exact Option.map_eq_some_iff.mpr ⟨u, hchain hu, rfl⟩
  | succeed k task =>
      simp only [stepUnder] at h
      split_ifs at h with hsucceeds
      obtain ⟨u, hu, rfl⟩ := Option.map_eq_some_iff.mp h
      rw [step, stepUnder, if_pos hsucceeds]
      exact Option.map_eq_some_iff.mpr ⟨u, hchain hu, rfl⟩
  | fail k task exception =>
      obtain ⟨u, hu, rfl⟩ := Option.map_eq_some_iff.mp h
      exact Option.map_eq_some_iff.mpr ⟨u, hchain hu, rfl⟩
  | block k task => exact hchain h
  | finish k startDate endDate =>
      obtain ⟨u, hu, rfl⟩ := Option.map_eq_some_iff.mp h
      exact Option.map_eq_some_iff.mpr ⟨u, hchain hu, rfl⟩
  | _ => exact h

/-- A step of one run that gives it other work. -/
theorem works_moved (hs : ∀ i, (s.work k).task = some i ↔ (s.runs k).status i = .running) (j : K)
    (run : TaskChain.State) (work : Work) (hmoved : ∀ i, work.task = some i ↔ run.status i = .running) (i : Nat) :
    (Function.update s.work j work k).task = some i ↔ (Function.update s.runs j run k).status i = .running := by
  rw [Function.update_apply, Function.update_apply]
  split_ifs
  · exact hmoved i
  · exact hs i

theorem task_begins {task : Nat} (htask : task < TASKS.length) : (begins task).task = some task := by
  match task, htask with
  | 0, _ | 1, _ | 2, _ | 3, _ => rfl

theorem works_step (hinv : ∀ k, TaskChain.Inv TASKS.length RETRIES (s.runs k))
    (hs : ∀ k i, (s.work k).task = some i ↔ (s.runs k).status i = .running) (h : step pg num s a = some t) (k : K)
    (i : Nat) : (t.work k).task = some i ↔ (t.runs k).status i = .running := by
  have hsame : ∀ {j : K} {work : Work} (work' : Work), s.work j = work → work'.task = work.task →
      ((Function.update s.work j work' k).task = some i ↔ (s.runs k).status i = .running) := by
    intro j work work' hwork htask
    rw [← hs k i, Function.update_apply]
    split_ifs with hj
    · rw [hj, hwork, htask]
    · rfl
  have hstays : ∀ {j run}, (∀ i, run.status i = .running ↔ (s.runs j).status i = .running) →
      ((s.work k).task = some i ↔ (Function.update s.runs j run k).status i = .running) := by
    intro j run hrunning
    have hmoved := works_moved (hs k) j run (s.work j) (fun i => (hs j i).trans (hrunning i).symm) i
    rwa [Function.update_eq_self] at hmoved
  cases transition_of_step h with
  | insert receivedAt trades => exact hs k i
  | start j task u hchain =>
      obtain ⟨run, hrun, rfl⟩ := chain_eq_some hchain
      have htask : task < TASKS.length := by
        cases TaskChain.transition_of_step hrun with
        | start i hi => exact hi
      refine works_moved (hs k) _ _ _ (fun i => ?_) i
      rw [task_begins htask, Option.some.injEq, (hinv j).running_step hrun]
      exact eq_comm
  | succeed j task u hsucceeds hchain =>
      obtain ⟨run, hrun, rfl⟩ := chain_eq_some hchain
      refine works_moved (hs k) _ _ _ (fun i => ?_) i
      rw [(hinv j).running_step hrun]
      exact iff_of_false (fun hnone => by cases hnone) id
  | fail j task exception u hchain =>
      obtain ⟨run, hrun, rfl⟩ := chain_eq_some hchain
      have hidle := works_moved (hs k) j run .idle (fun i => by
        rw [(hinv j).running_step hrun]
        exact iff_of_false (fun hnone => by cases hnone) id) i
      simp only [State.working, State.release]
      split_ifs <;> exact hidle
  | block j task u hchain =>
      obtain ⟨run, hrun, rfl⟩ := chain_eq_some hchain
      exact hstays fun i => (hinv j).running_step hrun
  | finish j startDate endDate u hchain =>
      obtain ⟨run, hrun, rfl⟩ := chain_eq_some hchain
      exact hstays fun i => (hinv j).running_step hrun
  | built j model raises pending failed warehouse hwork => exact hsame (.dbtRun (pending.erase model) failed) hwork rfl
  | raised j model raises pending left failed hwork => exact hsame (.dbtRun left true) hwork rfl
  | test j test raises pending failed hwork =>
      exact hsame (.dbtTest (pending.erase test) (failed || raises || !s.passes test)) hwork rfl
  | connect j hwork hlock => exact hs k i
  | exportVwap j a files hwork => exact hsame (.runExport (result "gold_vwap_1min" files)) hwork rfl
  | exportStats j a vwap files hwork =>
      exact hsame (.runExport (vwap :: result "gold_trade_stats_1min" files)) hwork rfl
  | close j vwap stats hwork hlock => exact hs k i

theorem works_run {as : List (Action K)} (h : Runs.run (step pg num) init as = some s) (k : K) (i : Nat) :
    (s.work k).task = some i ↔ (s.runs k).status i = .running := by
  have hboth : (∀ k, TaskChain.Inv TASKS.length RETRIES (s.runs k)) ∧
      ∀ k i, (s.work k).task = some i ↔ (s.runs k).status i = .running := by
    refine Runs.invariant (I := fun s : State K =>
      (∀ k, TaskChain.Inv TASKS.length RETRIES (s.runs k)) ∧
        ∀ k i, (s.work k).task = some i ↔ (s.runs k).status i = .running)
      (fun s a t hs hstep => ⟨fun k => chain_inv_step (hs.1 k) hstep, works_step hs.1 hs.2 hstep⟩)
      ⟨fun _ => TaskChain.inv_init, fun k i => ?_⟩ h
    exact iff_of_false (fun hnone => by cases hnone) fun hrunning => by cases hrunning
  exact hboth.2 k i

end Schedulers

/-- A part of the work of a task. -/
inductive Part where
  | model (model : Model)
  | test (test : Nat)
  | table (name : String)

/-- What a task has to get done. -/
def parts : Nat → List Part
  | 0 => [.model .stgTrades, .model .goldVwap1min, .model .goldTradeStats1min]
  | 1 => (List.range TESTS.length).map .test
  | 2 => GOLD_TABLES.map .table
  | _ => []

section Attempts

variable {K : Type} [DecidableEq K] (pg : Postgres) (num : Numerics)
  (sched : TaskChain.State → TaskChain.Action → Option TaskChain.State)

/-- The step gets a part done for the run: a model is built, a test passes, `export_table` returns `True`. -/
inductive Does (s : State K) (k : K) : Part → Action K → Prop where
  | model (model : Model) (raises : Bool) (hbuilt : (s.built pg num model raises).isSome) :
      Does s k (.model model) (.model k model raises)
  | test (test : Nat) (hpasses : s.passes test = true) : Does s k (.test test) (.test k test false)
  | vwap (a : Export.Action VwapRow) (files : Export.State VwapRow)
      (hfiles : Export.step VwapRow.windowStart s.vwapFiles a = some files) (hidle : files.pc = .idle)
      (hreturned : files.returned = some true) : Does s k (.table "gold_vwap_1min") (.exportVwap k a)
  | stats (a : Export.Action StatsRow) (files : Export.State StatsRow)
      (hfiles : Export.step StatsRow.windowStart s.statsFiles a = some files) (hidle : files.pc = .idle)
      (hreturned : files.returned = some true) : Does s k (.table "gold_trade_stats_1min") (.exportStats k a)

/-- The last attempt in a run of the DAG has got the part done. -/
def Attempted (as : List (Action K)) (k : K) (part : Part) : Prop :=
  Runs.Since (stepUnder pg num sched) (fun s a => Does pg num s k part a) (fun a => ∃ task, a = .start k task) init as

/-- The attempt that succeeded has got every part of its task done. -/
def Earned (as : List (Action K)) (k : K) (task : Nat) : Prop :=
  ∃ before after, as = before ++ .succeed k task :: after ∧ ∀ part ∈ parts task, Attempted pg num sched before k part

/-- What the attempt at work has behind it is done, unless it has failed at something. -/
def Progress (as : List (Action K)) (k : K) : Work → Prop
  | .idle | .syncMetabase => True
  | .dbtRun pending failed => failed = false → ∀ model ∉ pending, Attempted pg num sched as k (.model model)
  | .dbtTest pending failed =>
      failed = false → ∀ test < TESTS.length, test ∉ pending → Attempted pg num sched as k (.test test)
  | .runExport results => ∀ name, (name, true) ∈ results → Attempted pg num sched as k (.table name)

variable {pg num sched} {s t : State K} {a : Action K} {as : List (Action K)} {k : K}

theorem Progress.snoc {work : Work} (h : Progress pg num sched as k work) (ha : ¬∃ task, a = .start k task) :
    Progress pg num sched (as ++ [a]) k work := by
  cases work with
  | idle | syncMetabase => trivial
  | dbtRun pending failed => exact fun hfailed model hmodel => (h hfailed model hmodel).snoc ha
  | dbtTest pending failed => exact fun hfailed test htest hdone => (h hfailed test htest hdone).snoc ha
  | runExport results => exact fun name hname => (h name hname).snoc ha

/-- An attempt begins with nothing behind it. -/
theorem progress_begins (task : Nat) : Progress pg num sched as k (begins task) := by
  match task with
  | 0 => exact fun _ model hmodel => absurd (by cases model <;> simp) hmodel
  | 1 => exact fun _ test htest hdone => absurd (List.mem_range.mpr htest) hdone
  | 2 => exact fun name hname => absurd hname List.not_mem_nil
  | _ + 3 => trivial

/-- What a step gets done is the attempt's from there on. -/
theorem attempted_snoc (hrun : Runs.run (stepUnder pg num sched) init as = some s) {part : Part}
    (hdoes : Does pg num s k part a) : Attempted pg num sched (as ++ [a]) k part := Runs.since_snoc hrun hdoes

/-- An attempt at its end that has failed at nothing has done all of its work. -/
theorem Progress.attempted_parts (h : Progress pg num sched as k (s.work k)) {task : Nat}
    (htask : (s.work k).task = some task) (hsucceeds : s.succeeds k = true) :
    ∀ part ∈ parts task, Attempted pg num sched as k part := by
  rw [State.succeeds] at hsucceeds
  cases hwork : s.work k with
  | idle =>
      rw [hwork] at htask
      cases htask
  | dbtRun pending failed =>
      simp only [hwork, Bool.and_eq_true, List.isEmpty_iff, Bool.not_eq_true'] at hsucceeds
      obtain ⟨rfl, rfl⟩ := hsucceeds
      rw [hwork] at h htask
      cases htask
      have hall : ∀ model, Attempted pg num sched as k (.model model) := fun model => h rfl model List.not_mem_nil
      simp [parts, hall]
  | dbtTest pending failed =>
      simp only [hwork, Bool.and_eq_true, List.isEmpty_iff, Bool.not_eq_true'] at hsucceeds
      obtain ⟨rfl, rfl⟩ := hsucceeds
      rw [hwork] at h htask
      cases htask
      intro part hpart
      obtain ⟨test, htest, rfl⟩ := List.mem_map.mp hpart
      exact h rfl test (List.mem_range.mp htest) List.not_mem_nil
  | runExport results =>
      simp only [hwork, Bool.and_eq_true, decide_eq_true_eq] at hsucceeds
      obtain ⟨⟨-, hnames⟩, hresults⟩ := hsucceeds
      rw [hwork] at h htask
      cases htask
      intro part hpart
      obtain ⟨name, hname, rfl⟩ := List.mem_map.mp hpart
      rw [← hnames] at hname
      obtain ⟨⟨name, ok⟩, hmem, rfl⟩ := List.mem_map.mp hname
      obtain rfl : ok = true := List.all_eq_true.mp hresults _ hmem
      exact h name hmem
  | syncMetabase =>
      rw [hwork] at htask
      cases htask
      simp [parts]

/-- The table whose export has returned `True`. -/
theorem mem_result {R : Type} {table name : String} {files : Export.State R} (h : (name, true) ∈ result table files) :
    name = table ∧ files.pc = .idle ∧ files.returned = some true := by
  unfold result at h
  split at h
  · rename_i ok hpc hreturned
    obtain ⟨rfl, rfl⟩ := Prod.mk.inj (List.mem_singleton.mp h)
    exact ⟨rfl, hpc, hreturned⟩
  · exact absurd h List.not_mem_nil

theorem progress_step (hrun : Runs.run (stepUnder pg num sched) init as = some s)
    (hs : Progress pg num sched as k (s.work k)) (h : step pg num s a = some t) :
    Progress pg num sched (as ++ [a]) k (t.work k) := by
  -- a step that gives run `j` other work and starts nothing
  have hmoved : ∀ {j : K} {work : Work}, (¬∃ task, a = .start k task) →
      (j = k → Progress pg num sched (as ++ [a]) k work) →
      Progress pg num sched (as ++ [a]) k (Function.update s.work j work k) := by
    intro j work ha hwork
    rw [Function.update_apply]
    split_ifs with hj
    · exact hwork hj.symm
    · exact hs.snoc ha
  cases transition_of_step h with
  | insert receivedAt trades => exact hs.snoc (by simp)
  | start j task u hchain =>
      obtain ⟨run, -, rfl⟩ := chain_eq_some hchain
      simp only [State.working, Function.update_apply]
      split_ifs with hj
      · exact progress_begins task
      · refine hs.snoc ?_
        rintro ⟨_, heq⟩
        cases heq
        exact hj rfl
  | succeed j task u hsucceeds hchain =>
      obtain ⟨run, -, rfl⟩ := chain_eq_some hchain
      exact hmoved (by simp) fun _ => trivial
  | fail j task exception u hchain =>
      obtain ⟨run, -, rfl⟩ := chain_eq_some hchain
      have hidle : Progress pg num sched (as ++ [.fail j task exception]) k (Function.update s.work j .idle k) :=
        hmoved (by simp) fun _ => trivial
      simp only [State.working, State.release]
      split_ifs <;> exact hidle
  | block j task u hchain =>
      obtain ⟨run, -, rfl⟩ := chain_eq_some hchain
      exact hs.snoc (by simp)
  | finish j startDate endDate u hchain =>
      obtain ⟨run, -, rfl⟩ := chain_eq_some hchain
      exact hs.snoc (by simp)
  | built j model raises pending failed warehouse hwork hpending hfirst hbuilt hsome =>
      refine hmoved (by simp) ?_
      rintro rfl hfailed other hother
      rw [hwork] at hs
      by_cases heq : other = model
      · subst heq
        exact attempted_snoc hrun (.model other raises (by rw [hsome]; rfl))
      · exact (hs hfailed other fun hmem => hother ((List.mem_erase_of_ne heq).mpr hmem)).snoc (by simp)
  | raised j model raises pending left failed hwork hnone =>
      exact hmoved (by simp) fun _ hfailed => Bool.noConfusion hfailed
  | test j test raises pending failed hwork =>
      refine hmoved (by simp) ?_
      rintro rfl hfailed other hlt hother
      rw [hwork] at hs
      simp only [Bool.or_eq_false_iff, Bool.not_eq_false'] at hfailed
      obtain ⟨⟨rfl, rfl⟩, hpasses⟩ := hfailed
      by_cases heq : other = test
      · subst heq
        exact attempted_snoc hrun (.test other hpasses)
      · exact (hs rfl other hlt fun hmem => hother ((List.mem_erase_of_ne heq).mpr hmem)).snoc (by simp)
  | connect j hwork hlock => exact hs.snoc (by simp)
  | exportVwap j a files hwork hlock hmay hfiles =>
      refine hmoved (by simp) ?_
      rintro rfl name hname
      obtain ⟨rfl, hidle, hreturned⟩ := mem_result hname
      exact attempted_snoc hrun (.vwap a files hfiles hidle hreturned)
  | exportStats j a vwap files hwork hlock hmay hfiles =>
      refine hmoved (by simp) ?_
      rintro rfl name hname
      rw [hwork] at hs
      rcases List.mem_cons.mp hname with hfirst | hsecond
      · exact (hs name (hfirst ▸ List.mem_singleton_self _)).snoc (by simp)
      · obtain ⟨rfl, hidle, hreturned⟩ := mem_result hsecond
        exact attempted_snoc hrun (.stats a files hfiles hidle hreturned)
  | close j vwap stats hwork hlock => exact hs.snoc (by simp)

theorem progress_run (hsched : TaskChain.Scheduler TASKS.length RETRIES TaskChain.Follows sched)
    (h : Runs.run (stepUnder pg num sched) init as = some s) (k : K) : Progress pg num sched as k (s.work k) := by
  induction as using List.reverseRecOn generalizing s with
  | nil =>
      cases h
      trivial
  | append_singleton as a ih =>
      obtain ⟨u, hrun, hstep⟩ := Runs.run_snoc.mp h
      exact progress_step hrun (ih hrun) (step_of_stepUnder hsched hstep)

theorem Earned.snoc {task : Nat} (h : Earned pg num sched as k task) (a : Action K) :
    Earned pg num sched (as ++ [a]) k task := by
  obtain ⟨before, after, rfl, hparts⟩ := h
  exact ⟨before, after ++ [a], by rw [List.append_assoc, List.cons_append], hparts⟩

theorem succeeds_of_ofRun {task : Nat} (hlabel : ofRun k a = some (.succeed task)) (h : step pg num s a = some t) :
    a = .succeed k task ∧ s.succeeds k = true := by
  cases transition_of_step h with
  | succeed j task' u hsucceeds hchain =>
      simp only [ofRun] at hlabel
      split_ifs at hlabel with hj
      cases hlabel
      exact ⟨hj ▸ rfl, hj ▸ hsucceeds⟩
  | _ => simp [ofRun] at hlabel

/-- A task is a success for what its last attempt did. -/
theorem earned_run (hsched : TaskChain.Scheduler TASKS.length RETRIES TaskChain.Follows sched)
    (h : Runs.run (stepUnder pg num sched) init as = some s) {task : Nat}
    (hsuccess : (s.runs k).status task = .success) : Earned pg num sched as k task := by
  induction as using List.reverseRecOn generalizing s with
  | nil =>
      cases h
      cases hsuccess
  | append_singleton as a ih =>
      obtain ⟨u, hrun, hunder⟩ := Runs.run_snoc.mp h
      have hstep := step_of_stepUnder hsched hunder
      have hmoves := runs_step hstep k
      cases hlabel : ofRun k a with
      | none =>
          rw [hlabel] at hmoves
          exact (ih hrun (hmoves ▸ hsuccess)).snoc a
      | some b =>
          rw [hlabel] at hmoves
          rcases TaskChain.success_of_step hmoves hsuccess with hbefore | rfl
          · exact (ih hrun hbefore).snoc a
          · obtain ⟨rfl, hsucceeds⟩ := succeeds_of_ofRun hlabel hstep
            obtain ⟨hrunning, -⟩ := (TaskChain.scheduler_step TASKS.length RETRIES).succeeds _ _ _ hmoves
            have hairflow := Runs.run_of_run (fun _ _ _ hstep => step_of_stepUnder hsched hstep) hrun
            have htask := (works_run hairflow k task).mpr hrunning
            exact ⟨as, [], rfl, (progress_run hsched hrun k).attempted_parts htask hsucceeds⟩

/-- **The runs of the DAG**, under every scheduler that keeps to its rules and whatever the other runs and the
consumers do. A task succeeds by an attempt that did all of its work, and a run logs one record at most: a task
that failed on its retry too, with nothing behind it tried, or the end of a run whose four tasks have all
succeeded. It is over within seventeen steps of the scheduler. -/
theorem run_scheduled (hsched : TaskChain.Scheduler TASKS.length RETRIES TaskChain.Follows sched)
    (h : Runs.run (stepUnder pg num sched) init as = some s) (k : K) :
    Scheduled s k ∧ (∀ task, (s.runs k).status task = .success → Earned pg num sched as k task) ∧
      (as.filterMap (ofRun k)).length ≤ 17 := by
  have hrun := Runs.run_of_run (fun _ _ _ hstep => step_of_stepUnder hsched hstep) h
  have hinv := chain_inv hrun k
  refine ⟨⟨works_run hrun k, hinv.tries_le, fun i j hij hj => ?_, (logged_run hrun k).told hinv⟩,
    fun task => earned_run hsched h, ?_⟩
  · exact hinv.ahead i j hij (not_not.mp fun hnot => hj (hinv.tries_eq_zero hnot))
  · calc (as.filterMap (ofRun k)).length
        ≤ (as.filterMap (ofRun k)).length + TaskChain.work TASKS.length RETRIES (s.runs k) := Nat.le_add_right ..
      _ ≤ TASKS.length * (2 * (RETRIES + 1)) + 1 := TaskChain.length_add_work_le (run_ofRun hrun k)

end Attempts

def sampleTrade : Dict := unitTrade.modelDump offeredText fun _ => "1970-01-01T00:00:00Z"

/-- Its size is zero in silver. -/
def dustTrade : Dict :=
  { unitTrade with size := ⟨1, -9⟩, size_pos := by decide }.modelDump offeredText fun _ => "1970-01-01T00:00:00Z"

/-- The first two tasks of a run. -/
def firstTasks : List (Action Unit) :=
  [.start () 0, .model () .stgTrades false, .model () .goldTradeStats1min false, .model () .goldVwap1min false,
    .succeed () 0, .start () 1] ++ (List.range TESTS.length).map (fun test => .test () test false) ++ [.succeed () 1]

def lastTasks : List (Action Unit) :=
  [.start () 2, .connect ()] ++
  [Export.Action.begin, .rmtree, .read, .writePart 0, .now 60000000, .upsert true, .upload].map (.exportVwap ()) ++
  [Export.Action.begin, .rmtree, .read, .writePart 1, .now 60000000, .upsert true, .upload].map (.exportStats ()) ++
  [.close (), .succeed () 2, .start () 3, .succeed () 3, .finish () 0 (some 120000000)]

/-- One run behind the insert of a trade; its first attempt to export fails. -/
def wholeRun : List (Action Unit) :=
  [.insert 5 [sampleTrade]] ++ firstTasks ++ [.start () 2, .fail () 2 (some "database is locked")] ++ lastTasks

/-- A run whose first task fails twice. -/
def abandonedRun : List (Action Unit) :=
  [.start () 0, .fail () 0 (some "timeout"), .start () 0, .model () .stgTrades true, .fail () 0 (some "exit code 1"),
    .block () 1, .block () 2, .block () 3, .finish () 0 (some 120000000)]

theorem run_scheduled_samples :
    (∃ s, Runs.run (stepUnder offeredPostgres Gold.sixteenDigits airflow) init wholeRun = some s ∧
      (s.runs ()).tries 2 = 2 ∧ s.log = [.dagRunComplete "crypto_pipeline" () (some 120000000)] ∧ Scheduled s () ∧
      (∀ task < TASKS.length, Earned offeredPostgres Gold.sixteenDigits airflow wholeRun () task) ∧
      (wholeRun.filterMap (ofRun ())).length ≤ 17) ∧
    ∃ s, Runs.run (stepUnder offeredPostgres Gold.sixteenDigits airflow) init abandonedRun = some s ∧
      (s.runs ()).outcome = some false ∧
      s.log = [.dagTaskFailed "crypto_pipeline" "dbt_run" () "exit code 1"] ∧
      Scheduled s () ∧ (abandonedRun.filterMap (ofRun ())).length ≤ 17 := by
  have hwhole : (Runs.run (stepUnder offeredPostgres Gold.sixteenDigits airflow) init wholeRun).any (fun s =>
      (s.runs ()).tries 2 = 2 ∧ s.log = [.dagRunComplete "crypto_pipeline" () (some 120000000)] ∧
        ∀ task < TASKS.length, (s.runs ()).status task = .success) = true := by
    decide +kernel
  have habandoned : (Runs.run (stepUnder offeredPostgres Gold.sixteenDigits airflow) init abandonedRun).any (fun s =>
      (s.runs ()).outcome = some false ∧
        s.log = [.dagTaskFailed "crypto_pipeline" "dbt_run" () "exit code 1"]) = true := by
    decide +kernel
  have hsched := TaskChain.scheduler_step TASKS.length RETRIES
  obtain ⟨s, hs, hlog⟩ := (Option.any_eq_true _ _).mp hwhole
  obtain ⟨t, ht, hlog'⟩ := (Option.any_eq_true _ _).mp habandoned
  obtain ⟨htries, hcomplete, hall⟩ := of_decide_eq_true hlog
  obtain ⟨hover, hfailed⟩ := of_decide_eq_true hlog'
  obtain ⟨hscheduled, hearned, hlength⟩ := run_scheduled hsched hs ()
  obtain ⟨hscheduled', -, hlength'⟩ := run_scheduled hsched ht ()
  exact ⟨⟨s, hs, htries, hcomplete, hscheduled, fun task htask => hearned task (hall task htask), hlength⟩,
    t, ht, hover, hfailed, hscheduled', hlength'⟩

end CryptoLakehouse.Dag

namespace CryptoLakehouse.Export

variable {R : Type} {windowStart : R → Option Instant} {P : R → Prop} {s t : State R} {a : Action R}

/-- The rows in the files and those that are still to be written. -/
structure AllRows (P : R → Prop) (s : State R) : Prop where
  files : ∀ file ∈ s.files, ∀ row ∈ file.rows, P row
  pending : ∀ pending, s.pc = .writing pending → ∀ p ∈ pending, ∀ row ∈ p.2, P row

theorem AllRows.step (h : AllRows P s) (hread : a = .read → ∀ row ∈ s.gold, P row)
    (hstep : step windowStart s a = some t) : AllRows P t := by
  cases transition_of_step windowStart hstep with
  | refresh gold => exact ⟨h.files, h.pending⟩
  | beginFull hpc hbookmark => exact ⟨h.files, by simp⟩
  | beginIncremental b hpc hbookmark => exact ⟨h.files, by simp⟩
  | unlink kept hpc => exact ⟨fun file hfile => h.files file (List.mem_of_mem_filter hfile), h.pending⟩
  | rmtree hpc => exact ⟨fun file hfile => absurd hfile List.not_mem_nil, by simp⟩
  | read since hpc =>
      refine ⟨h.files, fun pending hpending p hp row hrow => ?_⟩
      cases hpending
      obtain ⟨hselected, x, hx⟩ := mem_of_mem_partitions hp hrow
      exact hread rfl row (lt_of_mem_select hselected hx).1
  | writePart uuid day rows pending hpc =>
      have hpending := List.forall_mem_cons.mp (h.pending _ hpc)
      refine ⟨fun file hfile => ?_, fun left hleft => ?_⟩
      · rcases List.mem_append.mp hfile with hold | hnew
        · exact h.files file hold
        · rw [List.mem_singleton.mp hnew]
          exact hpending.1
      · cases hleft
        exact hpending.2
  | now clock hpc => exact ⟨h.files, by simp⟩
  | upsert newHwm counted hpc => exact ⟨h.files, by simp⟩
  | upload hpc => exact ⟨h.files, by simp⟩
  | raise hpc => exact ⟨h.files, by simp⟩
  | kill => exact ⟨h.files, by simp⟩

/-- Only dbt refreshes the table. -/
theorem gold_step (hstep : step windowStart s a = some t) (hown : ∀ gold, a ≠ .refresh gold) : t.gold = s.gold := by
  cases transition_of_step windowStart hstep with
  | refresh gold => exact absurd rfl (hown gold)
  | _ => rfl

end CryptoLakehouse.Export

namespace CryptoLakehouse.Dag

open DbtTest (TESTS Passes TestedWindow)

section Gate

variable {K : Type} {s t : State K}

/-- Between the end of a run's tests and that of its export. -/
def BeforeExport (run : TaskChain.State) : Prop := run.status 1 = .success ∧ ¬ (run.status 2).Terminal

/-- No model is built while another run tests, or has tested and not exported. -/
def Apart (s : State K) : Action K → Prop
  | .model k _ _ => ∀ j, j ≠ k → (s.runs j).status 1 ≠ .running ∧ ¬ BeforeExport (s.runs j)
  | _ => True

/-- What the attempt of a run has done, by where it stands. -/
def Stands (s : State K) (run : TaskChain.State) : Work → Prop
  | .idle => True
  | .dbtRun _ _ => run.status 0 = .running
  | .dbtTest pending failed => run.status 1 = .running ∧
      (failed = false → ∀ test < TESTS.length, test ∉ pending → s.passes test = true)
  | .runExport _ => run.status 2 = .running
  | .syncMetabase => run.status 3 = .running

/-- All tests pass on the tables as they are. -/
def TablesPass (s : State K) : Prop := ∀ test < TESTS.length, s.passes test = true

structure Gated (s : State K) : Prop where
  chain : ∀ k, TaskChain.Inv TASKS.length RETRIES (s.runs k)
  gold : s.vwapFiles.gold = s.warehouse.vwap.getD []
  stands : ∀ k, Stands s (s.runs k) (s.work k)
  locked : ∀ k, s.lock = some k → ∃ results, s.work k = .runExport results
  passed : ∀ k, BeforeExport (s.runs k) → TablesPass s
  rows : Export.AllRows TestedWindow s.vwapFiles

theorem exists_passes (h : TablesPass s) : ∃ silver vwap, s.warehouse.silver = some silver ∧
    s.warehouse.vwap = some vwap ∧ Passes ⟨silver, vwap⟩ := by
  have hfirst := h 0 (by decide)
  rw [State.passes] at hfirst
  cases hsilver : s.warehouse.silver with
  | none =>
      rw [hsilver] at hfirst
      cases hfirst
  | some silver =>
      cases hvwap : s.warehouse.vwap with
      | none =>
          rw [hsilver, hvwap] at hfirst
          cases hfirst
      | some vwap =>
          refine ⟨silver, vwap, rfl, rfl, fun test htest => ?_⟩
          obtain ⟨i, hi, rfl⟩ := List.getElem_of_mem htest
          have hcount := h i hi
          rw [State.passes, hsilver, hvwap, List.getElem?_eq_getElem hi] at hcount
          exact of_decide_eq_true hcount

theorem passes_congr (h : t.warehouse = s.warehouse) : t.passes = s.passes := by
  funext test
  rw [State.passes, State.passes, h]

theorem stands_congr (h : t.warehouse = s.warehouse) {run : TaskChain.State} {work : Work} :
    Stands t run work ↔ Stands s run work := by
  cases work <;> simp only [Stands, passes_congr h]

/-- A step of the scheduler leaves a run before its export only if it was there, or its tests succeed. -/
theorem beforeExport_of_step {run run' : TaskChain.State} {b : TaskChain.Action}
    (hstep : TaskChain.step TASKS.length RETRIES run b = some run') (hafter : BeforeExport run') :
    BeforeExport run ∨ b = .succeed 1 := by
  have hmark : ∀ i status, ¬ (run.status i).Terminal → run'.status = Function.update run.status i status →
      BeforeExport run ∨ i = 1 ∧ status = .success := by
    intro i status hold hstatus
    obtain ⟨htested, hopen⟩ := hafter
    rw [hstatus, Function.update_apply] at htested hopen
    by_cases hone : i = 1
    · rw [if_pos hone.symm] at htested
      exact Or.inr ⟨hone, htested⟩
    · rw [if_neg (Ne.symm hone)] at htested
      refine Or.inl ⟨htested, ?_⟩
      by_cases htwo : i = 2
      · exact htwo ▸ hold
      · rwa [if_neg (Ne.symm htwo)] at hopen
  cases TaskChain.transition_of_step hstep with
  | start i hi hover hstatus =>
      have hold : ¬ (run.status i).Terminal := by
        rcases hstatus with hretrying | ⟨hwaiting, -⟩
        · simp [hretrying, TaskChain.Status.Terminal]
        · simp [hwaiting, TaskChain.Status.Terminal]
      exact (hmark i .running hold rfl).imp_right fun hand => by cases hand.2
  | succeed i hrunning =>
      refine (hmark i .success (by simp [hrunning, TaskChain.Status.Terminal]) rfl).imp_right fun hand => ?_
      rw [hand.1]
  | retry i hrunning htries =>
      refine (hmark i .retrying (by simp [hrunning, TaskChain.Status.Terminal]) rfl).imp_right fun hand => ?_
      cases hand.2
  | giveUp i hrunning htries =>
      refine (hmark i .failed (by simp [hrunning, TaskChain.Status.Terminal]) rfl).imp_right fun hand => ?_
      cases hand.2
  | block i hi hwaiting hstuck =>
      refine (hmark i .blocked (by simp [hwaiting, TaskChain.Status.Terminal]) rfl).imp_right fun hand => ?_
      cases hand.2
  | finish hover hterminal => exact Or.inl hafter

/-- The start of an attempt gives its run the work. -/
theorem stands_begins {run run' : TaskChain.State} {task : Nat} (s : State K)
    (hstep : TaskChain.step TASKS.length RETRIES run (.start task) = some run') : Stands s run' (begins task) := by
  cases TaskChain.transition_of_step hstep with
  | start i hi hover hstatus =>
      have hrunning : (run.attempt task).status task = .running := Function.update_self ..
      match task, hi with
      | 0, _ => exact hrunning
      | 1, _ => exact ⟨hrunning, fun _ test htest hleft => absurd (List.mem_range.mpr htest) hleft⟩
      | 2, _ => exact hrunning
      | 3, _ => exact hrunning

/-- What a run works on is not touched by the scheduler's other steps. -/
theorem Stands.kept {run run' : TaskChain.State} {work : Work} (h : Stands s run work)
    (hkept : ∀ i, run.status i = .running → run'.status i = .running) : Stands s run' work := by
  cases work with
  | idle => trivial
  | dbtRun pending failed => exact hkept 0 h
  | dbtTest pending failed => exact ⟨hkept 1 h.1, h.2⟩
  | runExport results => exact hkept 2 h
  | syncMetabase => exact hkept 3 h

theorem gated_init : Gated (init : State K) where
  chain _ := TaskChain.inv_init
  gold := rfl
  stands _ := trivial
  locked k hlock := by cases hlock
  passed k hbefore := by cases hbefore.1
  rows := ⟨fun file hfile => absurd hfile List.not_mem_nil, fun pending hpending => by cases hpending⟩

variable [DecidableEq K] {pg : Postgres} {num : Numerics} {a : Action K}

/-- A step of one run that leaves the warehouse. -/
theorem Gated.moved (h : Gated s) {k : K} {run : TaskChain.State} (work : Work)
    (hinv : TaskChain.Inv TASKS.length RETRIES run) (hbefore : BeforeExport run → TablesPass s)
    (hstands : Stands s run work) (hruns : t.runs = Function.update s.runs k run)
    (hwork : t.work = Function.update s.work k work) (hwarehouse : t.warehouse = s.warehouse)
    (hgold : t.vwapFiles.gold = s.vwapFiles.gold) (hrows : Export.AllRows TestedWindow t.vwapFiles)
    (hlock : ∀ j, t.lock = some j → ∃ results, t.work j = .runExport results) : Gated t := by
  have hpass : TablesPass s → TablesPass t := by
    intro hs
    rw [TablesPass, passes_congr hwarehouse]
    exact hs
  refine ⟨fun j => ?_, by rw [hgold, hwarehouse, h.gold], fun j => ?_, hlock, fun j hj => ?_, hrows⟩
  · rw [hruns, Function.update_apply]
    split_ifs
    · exact hinv
    · exact h.chain j
  · rw [stands_congr hwarehouse, hruns, hwork, Function.update_apply, Function.update_apply]
    split_ifs
    · exact hstands
    · exact h.stands j
  · apply hpass
    rw [hruns, Function.update_apply] at hj
    split_ifs at hj
    · exact hbefore hj
    · exact h.passed j hj

/-- A run whose tests succeed has seen all of them pass. -/
theorem Gated.tablesPass (h : Gated s) {k : K} (hrunning : (s.runs k).status 1 = .running)
    (hsucceeds : s.succeeds k = true) : TablesPass s := by
  have hstands := h.stands k
  have hother : ∀ i, (s.runs k).status i = .running → i = 1 := fun i hi => (h.chain k).running_unique hi hrunning
  rw [State.succeeds] at hsucceeds
  cases hwork : s.work k with
  | idle => simp [hwork] at hsucceeds
  | dbtRun pending failed =>
      rw [hwork] at hstands
      cases hother 0 hstands
  | dbtTest pending failed =>
      rw [hwork] at hstands
      simp only [hwork, Bool.and_eq_true, List.isEmpty_iff, Bool.not_eq_true'] at hsucceeds
      obtain ⟨rfl, rfl⟩ := hsucceeds
      exact fun test htest => hstands.2 rfl test htest List.not_mem_nil
  | runExport results =>
      rw [hwork] at hstands
      cases hother 2 hstands
  | syncMetabase =>
      rw [hwork] at hstands
      cases hother 3 hstands

theorem gated_step (hs : Gated s) (hC : Apart s a) (h : step pg num s a = some t) : Gated t := by
  have hlocked : ∀ {k : K} {work : Work}, s.lock ≠ some k → ∀ j, s.lock = some j →
      ∃ results, Function.update s.work k work j = .runExport results := by
    intro k work hfree j hj
    rw [Function.update_of_ne fun heq : j = k => hfree (heq ▸ hj)]
    exact hs.locked j hj
  have hfree : ∀ {k : K} {work : Work}, s.work k = work → (∀ results, work ≠ .runExport results) →
      s.lock ≠ some k := by
    intro k work hwork hother hlock
    obtain ⟨results, hresults⟩ := hs.locked k hlock
    exact hother results (hwork.symm.trans hresults)
  have hbefore : ∀ {k b run}, TaskChain.step TASKS.length RETRIES (s.runs k) b = some run → b ≠ .succeed 1 →
      BeforeExport run → TablesPass s :=
    fun hrun hb hafter => hs.passed _ ((beforeExport_of_step hrun hafter).resolve_right hb)
  have hinv : ∀ {k b run}, TaskChain.step TASKS.length RETRIES (s.runs k) b = some run →
      TaskChain.Inv TASKS.length RETRIES run := fun hrun => TaskChain.inv_step (hs.chain _) hrun
  cases transition_of_step h with
  | insert receivedAt trades => exact ⟨hs.chain, hs.gold, hs.stands, hs.locked, hs.passed, hs.rows⟩
  | start k task u hchain =>
      obtain ⟨run, hrun, rfl⟩ := chain_eq_some hchain
      refine hs.moved (begins task) (hinv hrun) (hbefore hrun (by simp)) (stands_begins s hrun) rfl rfl rfl rfl hs.rows
        (hlocked fun hlock => ?_)
      obtain ⟨results, hwork⟩ := hs.locked k hlock
      have hrunning := hs.stands k
      rw [hwork] at hrunning
      exact (hs.chain k).not_start hrunning hrun
  | succeed k task u hsucceeds hchain =>
      obtain ⟨run, hrun, rfl⟩ := chain_eq_some hchain
      refine hs.moved .idle (hinv hrun) (fun hafter => ?_) trivial rfl rfl rfl rfl hs.rows
        (hlocked fun hlock => ?_)
      · by_cases htask : task = 1
        · subst htask
          cases TaskChain.transition_of_step hrun with
          | succeed i hrunning => exact hs.tablesPass hrunning hsucceeds
        · exact hbefore hrun (by simpa using htask) hafter
      · obtain ⟨results, hwork⟩ := hs.locked k hlock
        simp [State.succeeds, hwork, hlock] at hsucceeds
  | fail k task exception u hchain =>
      obtain ⟨run, hrun, rfl⟩ := chain_eq_some hchain
      refine hs.moved (k := k) .idle (hinv hrun) (hbefore hrun (by simp)) trivial ?_ ?_ ?_ ?_ ?_ ?_
      · exact runs_release _ k
      · simp only [State.working, State.release]
        split_ifs <;> rfl
      · simp only [State.working, State.release]
        split_ifs <;> rfl
      · simp only [State.working, State.release]
        split_ifs <;> rfl
      · simp only [State.working, State.release]
        split_ifs
        · exact ⟨hs.rows.files, by simp [stopped]⟩
        · exact hs.rows
      · simp only [State.working, State.release]
        split_ifs with hlock
        · simp
        · exact hlocked hlock
  | block k task u hchain =>
      obtain ⟨run, hrun, rfl⟩ := chain_eq_some hchain
      refine hs.moved _ (hinv hrun) (hbefore hrun (by simp)) ((hs.stands k).kept fun i hi => ?_) rfl
        (Function.update_eq_self k s.work).symm rfl rfl hs.rows hs.locked
      cases TaskChain.transition_of_step hrun with
      | block j hj hwaiting hstuck =>
          rw [TaskChain.mark_status, if_neg (by rintro rfl; cases hi.symm.trans hwaiting), hi]
  | finish k startDate endDate u hchain =>
      obtain ⟨run, hrun, rfl⟩ := chain_eq_some hchain
      refine hs.moved _ (hinv hrun) (hbefore hrun (by simp)) ((hs.stands k).kept fun i hi => ?_) rfl
        (Function.update_eq_self k s.work).symm rfl rfl hs.rows hs.locked
      cases TaskChain.transition_of_step hrun with
      | finish => exact hi
  | built k model raises pending failed warehouse hwork hpending hfirst hbuilt =>
      have hstands := hs.stands k
      rw [hwork] at hstands
      refine ⟨hs.chain, rfl, fun j => ?_, hlocked (hfree hwork (by simp)), fun j hj => ?_,
        ⟨hs.rows.files, hs.rows.pending⟩⟩
      · show Stands _ (s.runs j) (Function.update s.work k _ j)
        by_cases hjk : j = k
        · subst hjk
          rw [Function.update_self]
          exact hstands
        · have hother := hs.stands j
          rw [Function.update_of_ne hjk]
          cases hworkj : s.work j with
          | dbtTest pending failed =>
              rw [hworkj] at hother
              exact absurd hother.1 (hC j hjk).1
          | _ =>
              rw [hworkj] at hother
              exact hother
      · by_cases hjk : j = k
        · subst hjk
          have htested : (s.runs j).status 1 = .success := hj.1
          have hahead := (hs.chain j).ahead 0 1 Nat.zero_lt_one (by simp [htested, TaskChain.Status.Begun])
          cases hstands.symm.trans hahead
        · exact absurd hj (hC j hjk).2
  | raised k model raises pending left failed hwork =>
      have hstands := hs.stands k
      rw [hwork] at hstands
      exact hs.moved (.dbtRun left true) (hs.chain k) (hs.passed k) hstands
        (Function.update_eq_self k s.runs).symm rfl rfl rfl hs.rows (hlocked (hfree hwork (by simp)))
  | test k test raises pending failed hwork =>
      have hstands := hs.stands k
      rw [hwork] at hstands
      refine hs.moved (.dbtTest (pending.erase test) _) (hs.chain k) (hs.passed k)
        ⟨hstands.1, fun hnone other hother hleft => ?_⟩ (Function.update_eq_self k s.runs).symm rfl rfl rfl hs.rows
        (hlocked (hfree hwork (by simp)))
      simp only [Bool.or_eq_false_iff, Bool.not_eq_false'] at hnone
      by_cases hsame : other = test
      · rw [hsame]
        exact hnone.2
      · exact hstands.2 hnone.1.1 other hother fun hmem => hleft ((List.mem_erase_of_ne hsame).mpr hmem)
  | connect k hwork hlock =>
      refine hs.moved _ (hs.chain k) (hs.passed k) (hs.stands k) (Function.update_eq_self k s.runs).symm
        (Function.update_eq_self k s.work).symm rfl rfl hs.rows fun j hj => ?_
      obtain rfl := Option.some.inj hj
      exact ⟨[], hwork⟩
  | exportVwap k a files hwork hlock hmay hfiles =>
      have hstands := hs.stands k
      rw [hwork] at hstands
      have hgold := Export.gold_step hfiles (by rintro gold rfl; cases hmay)
      refine hs.moved (.runExport (result "gold_vwap_1min" files)) (hs.chain k) (hs.passed k) hstands
        (Function.update_eq_self k s.runs).symm rfl rfl hgold (hs.rows.step (fun hread row hrow => ?_) hfiles)
        fun j hj => ?_
      · -- the run has passed its tests, and its table is still the one that they were made on
        subst hread
        obtain ⟨vwap, hvwap⟩ := Option.isSome_iff_exists.mp hmay
        have hexporting : (s.runs k).status 2 = .running := hstands
        have htested := (hs.chain k).ahead 1 2 (by omega) (by simp [hexporting, TaskChain.Status.Begun])
        have hpassed := hs.passed k ⟨htested, by simp [hexporting, TaskChain.Status.Terminal]⟩
        obtain ⟨silver, vwap', -, hvwap', hpasses⟩ := exists_passes hpassed
        obtain rfl := Option.some.inj (hvwap.symm.trans hvwap')
        rw [hs.gold, hvwap, Option.getD_some] at hrow
        exact (DbtTest.passes_iff.mp hpasses).2.2 row hrow
      · obtain rfl := Option.some.inj (hlock.symm.trans hj)
        exact ⟨_, Function.update_self ..⟩
  | exportStats k a vwap files hwork hlock hmay hfiles =>
      have hstands := hs.stands k
      rw [hwork] at hstands
      refine hs.moved (.runExport (vwap :: result "gold_trade_stats_1min" files)) (hs.chain k) (hs.passed k) hstands
        (Function.update_eq_self k s.runs).symm rfl rfl rfl hs.rows fun j hj => ?_
      obtain rfl := Option.some.inj (hlock.symm.trans hj)
      exact ⟨_, Function.update_self ..⟩
  | close k vwap stats hwork hlock =>
      exact hs.moved _ (hs.chain k) (hs.passed k) (hs.stands k) (Function.update_eq_self k s.runs).symm
        (Function.update_eq_self k s.work).symm rfl rfl hs.rows fun j hj => by cases hj

/-- **The gate**: while no model is built between the tests of another run and the end of its export, every row
of the files has passed the tests of its columns. -/
theorem exported_tested {as : List (Action K)} (h : Runs.run (step pg num) init as = some s)
    (hC : Runs.Meets (step pg num) Apart init as) :
    (∀ file ∈ s.vwapFiles.files, ∀ row ∈ file.rows, TestedWindow row) ∧
      ∀ k, BeforeExport (s.runs k) → ∃ silver vwap, s.warehouse.silver = some silver ∧
        s.warehouse.vwap = some vwap ∧ Passes ⟨silver, vwap⟩ := by
  have hgated := Runs.invariant_of_meets (fun _ _ _ hs => gated_step hs) gated_init hC h
  exact ⟨hgated.rows.files, fun k hbefore => exists_passes (hgated.passed k hbefore)⟩

theorem exported_tested_wholeRun : ∃ s, Runs.run (step offeredPostgres Gold.sixteenDigits) init wholeRun = some s ∧
    s.vwapFiles.files.length = 1 ∧ (∀ file ∈ s.vwapFiles.files, ∀ row ∈ file.rows, TestedWindow row) ∧
      ∀ k, BeforeExport (s.runs k) → ∃ silver vwap, s.warehouse.silver = some silver ∧
        s.warehouse.vwap = some vwap ∧ Passes ⟨silver, vwap⟩ := by
  have hrun : (Runs.run (step offeredPostgres Gold.sixteenDigits) init wholeRun).any
      (fun s => s.vwapFiles.files.length = 1) = true := by decide +kernel
  obtain ⟨s, hs, hfiles⟩ := (Option.any_eq_true _ _).mp hrun
  refine ⟨s, hs, of_decide_eq_true hfiles, exported_tested hs ?_⟩
  refine Runs.meets_of_forall (fun s a => ?_) init wholeRun
  cases a <;> simp [Apart]

/-- The tests of one run pass on empty tables; then another run builds them from a trade without volume, and
the first run exports what was never tested. -/
def overlapping : List (Action Bool) :=
  [.start false 0, .model false .stgTrades false, .model false .goldVwap1min false,
    .model false .goldTradeStats1min false, .succeed false 0, .start false 1] ++
  (List.range TESTS.length).map (fun test => .test false test false) ++
  [.succeed false 1, .insert 5 [dustTrade], .start true 0, .model true .stgTrades false,
    .model true .goldVwap1min false, .start false 2, .connect false] ++
  [Export.Action.begin, .rmtree, .read, .writePart 0].map (.exportVwap false)

theorem overlapping_runs_export_untested : ∃ s,
    Runs.run (step offeredPostgres Gold.sixteenDigits) init overlapping = some s ∧
      ∃ file ∈ s.vwapFiles.files, ∃ row ∈ file.rows, ¬ TestedWindow row := by
  have hrun : (Runs.run (step offeredPostgres Gold.sixteenDigits) init overlapping).any
      (fun s => s.vwapFiles.files.any fun file => file.rows.any fun row => row.vwap.isNone) = true := by
    decide +kernel
  obtain ⟨s, hs, hfiles⟩ := (Option.any_eq_true _ _).mp hrun
  obtain ⟨file, hfile, hrows⟩ := List.any_eq_true.mp hfiles
  obtain ⟨row, hrow, hnone⟩ := List.any_eq_true.mp hrows
  refine ⟨s, hs, file, hfile, row, hrow, fun htested => ?_⟩
  obtain ⟨low, vwap, high, -, hvwap, -⟩ := htested.vwap
  rw [hvwap] at hnone
  cases hnone

end Gate

end CryptoLakehouse.Dag
