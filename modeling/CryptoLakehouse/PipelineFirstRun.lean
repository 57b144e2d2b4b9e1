import CryptoLakehouse.PipelineSystem

/-! The first run of the DAG when nothing goes wrong: a run that succeeds without a retry over tables that were
not built before, while no trade is committed to bronze, exports exactly the aggregates of the trades in bronze. -/

namespace CryptoLakehouse.Export

variable {R : Type} {windowStart : R → Option Instant} {s t : State R} {a : Action R}

/-- What is in the files, without their names. -/
def parts (files : List (PartFile R)) : List (Int × List R) := files.map fun file => (file.day, file.rows)

/-- No export has begun. -/
structure Unbegun (s : State R) : Prop where
  files : s.files = []
  bookmark : s.bookmark = none
  pc : s.pc = .idle
  returned : s.returned = none

variable (windowStart) in
/-- An export that was successful has written the table. -/
def Done (s : State R) (ok : Bool) : Prop := ok = true → parts s.files = partitions windowStart s.gold

variable (windowStart) in
/-- The first export of the table, where it stands. -/
def First (s : State R) : Prop :=
  match s.pc with
  | .idle =>
      match s.returned with
      | none => s.files = [] ∧ s.bookmark = none
      | some ok => Done windowStart s ok
  | .deleting => s.files = [] ∧ s.bookmark = none
  | .reading since => since = none ∧ s.files = [] ∧ s.bookmark = none
  | .writing pending => parts s.files ++ pending = partitions windowStart s.gold ∧ s.bookmark = none
  | .upserting _ => parts s.files = partitions windowStart s.gold ∧ s.bookmark = none
  | .uploading => parts s.files = partitions windowStart s.gold

theorem Unbegun.first (h : Unbegun s) : First windowStart s := by
  rw [First, h.pc, h.returned]
  exact ⟨h.files, h.bookmark⟩

theorem first_step (h : First windowStart s) (hrefresh : ∀ gold, a ≠ .refresh gold) (hkill : a ≠ .kill)
    (hbegin : s.pc = .idle → s.returned = none) (hstep : step windowStart s a = some t) : First windowStart t := by
  cases transition_of_step windowStart hstep with
  | refresh gold => exact absurd rfl (hrefresh gold)
  | kill => exact absurd rfl hkill
  | beginFull hpc hbookmark =>
      rw [First, hpc, hbegin hpc] at h
      exact h
  | beginIncremental b hpc hbookmark =>
      rw [First, hpc, hbegin hpc] at h
      cases hbookmark.symm.trans h.2
  | unlink kept hpc =>
      rw [First, hpc] at h
      rw [First]
      simp only [hpc]
      exact ⟨by rw [h.1, List.filter_nil], h.2⟩
  | rmtree hpc =>
      rw [First, hpc] at h
      exact ⟨rfl, rfl, h.2⟩
  | read since hpc =>
      rw [First, hpc] at h
      obtain ⟨rfl, hfiles, hbookmark⟩ := h
      refine ⟨?_, hbookmark⟩
      show parts s.files ++ _ = _
      rw [hfiles]
      rfl
  | writePart uuid day rows pending hpc =>
      rw [First, hpc] at h
      refine ⟨?_, h.2⟩
      show parts (s.files ++ [⟨uuid, day, rows⟩]) ++ pending = _
      rw [← h.1, parts, List.map_append, List.append_assoc]
      rfl
  | now clock hpc =>
      rw [First, hpc] at h
      obtain ⟨hparts, hbookmark⟩ := h
      rw [List.append_nil] at hparts
      exact ⟨hparts, hbookmark⟩
  | upsert newHwm counted hpc =>
      rw [First, hpc] at h
      exact h.1
  | upload hpc =>
      rw [First, hpc] at h
      exact fun _ => h
  | raise hpc => exact fun hok => by cases hok

/-- The rows that were read are in the files, each as often as in the table. -/
theorem rows_perm_of_done (h : Done windowStart s true) (hdated : ∀ row ∈ s.gold, (windowStart row).isSome) :
    (s.files.flatMap PartFile.rows).Perm s.gold := by
  have hrows : s.files.flatMap PartFile.rows = (parts s.files).flatMap Prod.snd := by
    rw [parts, List.flatMap_map]
  have hperm := flatMap_partitions_perm windowStart s.gold
  rw [hrows, h rfl]
  rwa [List.filter_eq_self.mpr hdated] at hperm

end CryptoLakehouse.Export

namespace CryptoLakehouse.Dag

open Catalog (GOLD_TABLES)

section Stages

variable {K : Type} {pg : Postgres} {num : Numerics} {Snapshot : Bronze → Prop} {k : K} {s t : State K} {a : Action K}

/-- How far a run has come with the tables and the files. -/
inductive Stage where
  | unbuilt
  | building (pending : List Model) (failed : Bool)
  | built
  | exporting (results : List (String × Bool))
  | exported

/-- The stage by the run's tasks. -/
def At (run : TaskChain.State) (work : Work) : Stage → Prop
  | .unbuilt => run.status 0 = .waiting ∧ work = .idle
  | .building pending failed => run.status 0 = .running ∧ work = .dbtRun pending failed
  | .built => run.status 0 = .success ∧ run.status 2 = .waiting ∧
      (work = .idle ∨ ∃ pending failed, work = .dbtTest pending failed)
  | .exporting results => run.status 2 = .running ∧ work = .runExport results
  | .exported => run.status 2 = .success ∧ (work = .idle ∨ work = .syncMetabase)

variable (pg num Snapshot) in
/-- The tables behind the models that have been run. Silver has what bronze had when it was built. -/
def Built (pending : List Model) (warehouse : Rerun.State) : Prop :=
  pending.Nodup ∧
    if .stgTrades ∈ pending then
      .goldVwap1min ∈ pending ∧ .goldTradeStats1min ∈ pending ∧
        warehouse.silver = none ∧ warehouse.vwap = none ∧ warehouse.stats = none
    else ∃ bronze silver, Snapshot bronze ∧ bronze ⊆ warehouse.bronze ∧
      stgTrades pg none bronze = some silver ∧ warehouse.silver = some silver ∧
      warehouse.vwap = (if .goldVwap1min ∈ pending then none else some (Gold.vwap1min num silver)) ∧
      warehouse.stats = (if .goldTradeStats1min ∈ pending then none else some (Gold.tradeStats1min num silver))

/-- The two exports, one after the other. -/
def Exporting (s : State K) : List (String × Bool) → Prop
  | [] => Export.First VwapRow.windowStart s.vwapFiles ∧ (s.vwapFiles.pc = .idle → s.vwapFiles.returned = none) ∧
      Export.Unbegun s.statsFiles
  | [vwap] => Export.Done VwapRow.windowStart s.vwapFiles vwap.2 ∧ Export.First StatsRow.windowStart s.statsFiles ∧
      (s.statsFiles.pc = .idle → s.statsFiles.returned = none)
  | [vwap, stats] => Export.Done VwapRow.windowStart s.vwapFiles vwap.2 ∧
      Export.Done StatsRow.windowStart s.statsFiles stats.2
  | _ => False

variable (pg num Snapshot) in
/-- The tables and the files in a stage. -/
def Reached (s : State K) : Stage → Prop
  | .unbuilt => (s.warehouse.silver = none ∧ s.warehouse.vwap = none ∧ s.warehouse.stats = none) ∧
      Export.Unbegun s.vwapFiles ∧ Export.Unbegun s.statsFiles
  | .building pending failed => (failed = false → Built pg num Snapshot pending s.warehouse) ∧
      Export.Unbegun s.vwapFiles ∧ Export.Unbegun s.statsFiles
  | .built => Built pg num Snapshot [] s.warehouse ∧ Export.Unbegun s.vwapFiles ∧ Export.Unbegun s.statsFiles
  | .exporting results => Built pg num Snapshot [] s.warehouse ∧ Exporting s results
  | .exported => Built pg num Snapshot [] s.warehouse ∧ Exporting s (GOLD_TABLES.map fun table => (table, true))

/-- No attempt of the task has failed, nor one of a task ahead of it. -/
def Untroubled (status : TaskChain.Status) : Prop := status = .waiting ∨ status = .running ∨ status = .success

/-- A step of the run itself that is no failure. -/
def Smooth (k : K) : Action K → Prop
  | .insert _ _ | .fail _ _ _ | .block _ _ => False
  | .start j _ | .succeed j _ | .finish j _ _ | .model j _ _ | .test j _ _ | .connect j | .exportVwap j _
  | .exportStats j _ | .close j => j = k

instance [DecidableEq K] (k : K) : DecidablePred (Smooth k)
  | .insert _ _ | .fail _ _ _ | .block _ _ => inferInstanceAs (Decidable False)
  | .start j _ | .succeed j _ | .finish j _ _ | .model j _ _ | .test j _ _ | .connect j | .exportVwap j _
  | .exportStats j _ | .close j => inferInstanceAs (Decidable (j = k))

variable (pg num Snapshot k) in
structure Underway (s : State K) : Prop where
  chain : TaskChain.Inv TASKS.length RETRIES (s.runs k)
  smooth : ∀ i, Untroubled ((s.runs k).status i)
  vwapGold : s.vwapFiles.gold = s.warehouse.vwap.getD []
  statsGold : s.statsFiles.gold = s.warehouse.stats.getD []
  stage : ∃ stage, At (s.runs k) (s.work k) stage ∧ Reached pg num Snapshot s stage

/-- The stages that the start of a task lies between. -/
inductive Starts : Nat → Stage → Stage → Prop where
  | dbtRun : Starts 0 .unbuilt (.building [.stgTrades, .goldVwap1min, .goldTradeStats1min] false)
  | dbtTest : Starts 1 .built .built
  | lakehouseExport : Starts 2 .built (.exporting [])
  | syncMetabase : Starts 3 .exported .exported

/-- The stages that the success of a task lies between. -/
inductive Ends : Nat → Stage → Stage → Prop where
  | dbtRun (pending : List Model) (failed : Bool) : Ends 0 (.building pending failed) .built
  | dbtTest : Ends 1 .built .built
  | lakehouseExport (results : List (String × Bool)) : Ends 2 (.exporting results) .exported
  | syncMetabase : Ends 3 .exported .exported

section Scheduler

variable {run run' : TaskChain.State} {work : Work} {stage : Stage} {task : Nat}

theorem At.start (hinv : TaskChain.Inv TASKS.length RETRIES run) (hsmooth : ∀ i, Untroubled (run.status i))
    (hat : At run work stage) (hstep : TaskChain.step TASKS.length RETRIES run (.start task) = some run') :
    ∃ stage', At run' (begins task) stage' ∧ Starts task stage stage' := by
  cases TaskChain.transition_of_step hstep with
  | start i hi hover hstatus =>
      obtain ⟨hwaiting, hready⟩ := hstatus.resolve_left fun hretrying => by
        rcases hsmooth task with hother | hother | hother <;> cases hretrying.symm.trans hother
      have hahead : ∀ {i}, i < task → run.status i = .success := fun hlt => hinv.ahead_of_ready hready _ hlt
      have hbehind : ∀ {i}, task ≤ i → ¬ (run.status i).Begun := by
        intro i hle hbegun
        rcases Nat.lt_or_eq_of_le hle with hlt | rfl
        · cases hwaiting.symm.trans (hinv.ahead task i hlt hbegun)
        · exact hbegun.1 hwaiting
      have hnone : ∀ i, run.status i ≠ .running := by
        intro i hrunning
        rcases Nat.lt_or_ge i task with hlt | hle
        · cases hrunning.symm.trans (hahead hlt)
        · exact hbehind hle (by simp [hrunning, TaskChain.Status.Begun])
      have hmark : ∀ i, (run.attempt task).status i = if i = task then .running else run.status i :=
        fun i => Function.update_apply ..
      cases stage with
      | unbuilt =>
          obtain rfl : task = 0 := Nat.eq_zero_of_not_pos fun hpos => by cases hat.1.symm.trans (hahead hpos)
          exact ⟨.building _ _, ⟨hmark 0, rfl⟩, .dbtRun⟩
      | building pending failed => exact absurd hat.1 (hnone 0)
      | built =>
          have hpos : 0 < task := Nat.pos_of_ne_zero fun hzero =>
            hbehind hzero.le (by simp [hat.1, TaskChain.Status.Begun])
          have hle : ¬ 2 < task := fun hlt => by cases hat.2.1.symm.trans (hahead hlt)
          obtain rfl | rfl : task = 1 ∨ task = 2 := by omega
          · exact ⟨.built, ⟨(hmark 0).trans hat.1, (hmark 2).trans hat.2.1, Or.inr ⟨_, _, rfl⟩⟩, .dbtTest⟩
          · exact ⟨.exporting [], ⟨hmark 2, rfl⟩, .lakehouseExport⟩
      | exporting results => exact absurd hat.1 (hnone 2)
      | exported =>
          have hlt : 2 < task := not_le.mp fun hle => hbehind hle (by simp [hat.1, TaskChain.Status.Begun])
          obtain rfl : task = 3 := Nat.le_antisymm (Nat.le_of_lt_succ hi) hlt
          exact ⟨.exported, ⟨(hmark 2).trans hat.1, Or.inr rfl⟩, .syncMetabase⟩

theorem At.succeed (hinv : TaskChain.Inv TASKS.length RETRIES run) (hsmooth : ∀ i, Untroubled (run.status i))
    (hat : At run work stage)
    (hstep : TaskChain.step TASKS.length RETRIES run (.succeed task) = some run') :
    ∃ stage', At run' .idle stage' ∧ Ends task stage stage' := by
  cases TaskChain.transition_of_step hstep with
  | succeed i hrunning =>
      have hi : task < TASKS.length := hinv.inside task (by simp [hrunning])
      have hahead : ∀ {i}, i < task → run.status i = .success :=
        fun hlt => hinv.ahead _ task hlt (by simp [hrunning, TaskChain.Status.Begun])
      have hbehind : ∀ {i}, task < i → ¬ (run.status i).Begun := by
        intro i hlt hbegun
        cases hrunning.symm.trans (hinv.ahead task i hlt hbegun)
      have honly : ∀ {i}, run.status i = .running → task = i := fun hother => hinv.running_unique hrunning hother
      have hmark : ∀ i, (run.mark task .success).status i = if i = task then .success else run.status i :=
        fun i => Function.update_apply ..
      cases stage with
      | unbuilt =>
          rcases Nat.eq_zero_or_pos task with rfl | hpos
          · cases hrunning.symm.trans hat.1
          · cases hat.1.symm.trans (hahead hpos)
      | building pending failed =>
          obtain rfl := honly hat.1
          refine ⟨.built, ⟨hmark 0, ?_, Or.inl rfl⟩, .dbtRun pending failed⟩
          rcases hsmooth 2 with hwaiting | hother | hother
          · exact (hmark 2).trans hwaiting
          · exact absurd (by simp [hother, TaskChain.Status.Begun]) (hbehind (i := 2) (by omega))
          · exact absurd (by simp [hother, TaskChain.Status.Begun]) (hbehind (i := 2) (by omega))
      | built =>
          have hne : task ≠ 0 := fun hzero => by
            rw [hzero] at hrunning
            cases hrunning.symm.trans hat.1
          have hle : ¬ 2 < task := fun hlt => by cases hat.2.1.symm.trans (hahead hlt)
          have hne' : task ≠ 2 := fun htwo => by
            rw [htwo] at hrunning
            cases hrunning.symm.trans hat.2.1
          obtain rfl : task = 1 := by omega
          exact ⟨.built, ⟨(hmark 0).trans hat.1, (hmark 2).trans hat.2.1, Or.inl rfl⟩, .dbtTest⟩
      | exporting results =>
          obtain rfl := honly hat.1
          exact ⟨.exported, ⟨hmark 2, Or.inl rfl⟩, .lakehouseExport results⟩
      | exported =>
          have hlt : 2 < task := by
            rcases Nat.lt_trichotomy task 2 with hlt | rfl | hlt
            · exact absurd (by simp [hat.1, TaskChain.Status.Begun]) (hbehind hlt)
            · cases hrunning.symm.trans hat.1
            · exact hlt
          obtain rfl : task = 3 := Nat.le_antisymm (Nat.le_of_lt_succ hi) hlt
          exact ⟨.exported, ⟨(hmark 2).trans hat.1, Or.inl rfl⟩, .syncMetabase⟩

/-- Nothing is troubled by a start or a success. -/
theorem untroubled_step {b : TaskChain.Action} (hsmooth : ∀ i, Untroubled (run.status i)) (hfail : ∀ i, b ≠ .fail i)
    (hblock : ∀ i, b ≠ .block i) (hstep : TaskChain.step TASKS.length RETRIES run b = some run') (i : Nat) :
    Untroubled (run'.status i) := by
  have hmark : ∀ {j status}, Untroubled status → Untroubled (Function.update run.status j status i) := by
    intro j status hstatus
    rw [Function.update_apply]
    split_ifs
    · exact hstatus
    · exact hsmooth i
  cases TaskChain.transition_of_step hstep with
  | start j hj hover hstatus => exact hmark (Or.inr (Or.inl rfl))
  | succeed j hrunning => exact hmark (Or.inr (Or.inr rfl))
  | retry j hrunning htries => exact absurd rfl (hfail j)
  | giveUp j hrunning htries => exact absurd rfl (hfail j)
  | block j hj hwaiting hstuck => exact absurd rfl (hblock j)
  | finish hover hterminal => exact hsmooth i

end Scheduler

section Reach

/-- Only the tables and the files count. -/
theorem Reached.of_eq {stage : Stage} (h : Reached pg num Snapshot s stage) (hwarehouse : t.warehouse = s.warehouse)
    (hvwap : t.vwapFiles = s.vwapFiles) (hstats : t.statsFiles = s.statsFiles) : Reached pg num Snapshot t stage := by
  obtain ⟨warehouse, vwapFiles, statsFiles, lock, runs, work, log⟩ := s
  obtain ⟨warehouse', vwapFiles', statsFiles', lock', runs', work', log'⟩ := t
  obtain rfl : warehouse' = warehouse := hwarehouse
  obtain rfl : vwapFiles' = vwapFiles := hvwap
  obtain rfl : statsFiles' = statsFiles := hstats
  cases stage <;> exact h

theorem Reached.starts {stage stage' : Stage} {task : Nat} (h : Reached pg num Snapshot s stage)
    (hstarts : Starts task stage stage') : Reached pg num Snapshot s stage' := by
  cases hstarts with
  | dbtRun =>
      obtain ⟨hwarehouse, hvwap, hstats⟩ := h
      refine ⟨fun _ => ⟨by decide, ?_⟩, hvwap, hstats⟩
      rw [if_pos List.mem_cons_self]
      exact ⟨by simp, by simp, hwarehouse⟩
  | dbtTest => exact h
  | lakehouseExport => exact ⟨h.1, h.2.1.first, fun _ => h.2.1.returned, h.2.2⟩
  | syncMetabase => exact h

variable [DecidableEq K]

theorem Reached.ends {stage stage' : Stage} {task : Nat} (h : Reached pg num Snapshot s stage)
    (hat : At (s.runs k) (s.work k) stage) (hsucceeds : s.succeeds k = true) (hends : Ends task stage stage') :
    Reached pg num Snapshot s stage' := by
  rw [State.succeeds] at hsucceeds
  cases hends with
  | dbtRun pending failed =>
      rw [hat.2] at hsucceeds
      simp only [Bool.and_eq_true, List.isEmpty_iff, Bool.not_eq_true'] at hsucceeds
      obtain ⟨rfl, rfl⟩ := hsucceeds
      exact ⟨h.1 rfl, h.2⟩
  | dbtTest => exact h
  | lakehouseExport results =>
      rw [hat.2] at hsucceeds
      simp only [Bool.and_eq_true, decide_eq_true_eq, List.all_eq_true] at hsucceeds
      obtain ⟨⟨-, hnames⟩, hall⟩ := hsucceeds
      have hresults : results = GOLD_TABLES.map fun table => (table, true) := by
        rw [← hnames, List.map_map]
        exact (List.map_id results).symm.trans (List.map_congr_left fun r hr => Prod.ext rfl (hall r hr))
      exact ⟨h.1, hresults ▸ h.2⟩
  | syncMetabase => exact h

/-- A model that is run in its place. -/
theorem Built.step {pending : List Model} {warehouse warehouse' : Rerun.State} {model : Model}
    (h : Built pg num Snapshot pending warehouse) (hsnapshot : Snapshot warehouse.bronze) (hpending : model ∈ pending)
    (hfirst : .stgTrades ∈ pending → model = .stgTrades)
    (hbuilt : Rerun.step pg num warehouse model.action = some warehouse') :
    Built pg num Snapshot (pending.erase model) warehouse' := by
  obtain ⟨hnodup, htables⟩ := h
  have hmem : ∀ other, other ∈ pending.erase model ↔ other ≠ model ∧ other ∈ pending :=
    fun other => hnodup.mem_erase_iff
  by_cases hstg : Model.stgTrades ∈ pending
  · obtain rfl := hfirst hstg
    rw [if_pos hstg] at htables
    obtain ⟨hvwap, hstats, hnosilver, hnovwap, hnostats⟩ := htables
    obtain ⟨silver, hsilver, rfl⟩ := Option.map_eq_some_iff.mp hbuilt
    rw [hnosilver] at hsilver
    refine ⟨hnodup.erase _, ?_⟩
    rw [if_neg fun hleft => ((hmem _).mp hleft).1 rfl]
    refine ⟨warehouse.bronze, silver, hsnapshot, List.Subset.refl _, hsilver, rfl, ?_, ?_⟩
    · rw [if_pos ((hmem _).mpr ⟨by decide, hvwap⟩)]
      exact hnovwap
    · rw [if_pos ((hmem _).mpr ⟨by decide, hstats⟩)]
      exact hnostats
  · rw [if_neg hstg] at htables
    obtain ⟨bronze, silver, hbronze, hgrown, hsilver, hthere, hvwap, hstats⟩ := htables
    have hstg' : Model.stgTrades ∉ pending.erase model := fun hleft => hstg ((hmem _).mp hleft).2
    cases model with
    | stgTrades => exact absurd hpending hstg
    | goldVwap1min =>
        rw [if_pos hpending] at hvwap
        simp only [Model.action, Rerun.step, hthere, hvwap] at hbuilt
        obtain rfl := Option.some.inj hbuilt
        refine ⟨hnodup.erase _, ?_⟩
        rw [if_neg hstg']
        refine ⟨bronze, silver, hbronze, hgrown, hsilver, rfl, ?_, ?_⟩
        · rw [if_neg fun hleft => ((hmem _).mp hleft).1 rfl]
          rfl
        · simpa only [hmem, ne_eq, reduceCtorEq, not_false_eq_true, true_and] using hstats
    | goldTradeStats1min =>
        simp only [Model.action, Rerun.step, hthere] at hbuilt
        obtain rfl := Option.some.inj hbuilt
        refine ⟨hnodup.erase _, ?_⟩
        rw [if_neg hstg']
        refine ⟨bronze, silver, hbronze, hgrown, hsilver, rfl, ?_, ?_⟩
        · simpa only [hmem, ne_eq, reduceCtorEq, not_false_eq_true, true_and] using hvwap
        · rw [if_neg fun hleft => ((hmem _).mp hleft).1 rfl]

omit [DecidableEq K]

/-- A table is built ahead of the exports. -/
theorem Reached.refresh {pending : List Model} {failed : Bool} {model : Model} {warehouse : Rerun.State}
    (h : Reached pg num Snapshot s (.building pending failed)) (hsnapshot : Snapshot s.warehouse.bronze)
    (hpending : model ∈ pending)
    (hfirst : .stgTrades ∈ pending → model = .stgTrades)
    (hbuilt : Rerun.step pg num s.warehouse model.action = some warehouse) :
    Reached pg num Snapshot (s.refresh warehouse) (.building (pending.erase model) failed) := by
  obtain ⟨htables, hvwap, hstats⟩ := h
  refine ⟨fun hfailed => (htables hfailed).step hsnapshot hpending hfirst hbuilt, ?_, ?_⟩
  · exact ⟨hvwap.files, hvwap.bookmark, hvwap.pc, hvwap.returned⟩
  · exact ⟨hstats.files, hstats.bookmark, hstats.pc, hstats.returned⟩

/-- What `export_table` has returned is what it has done. -/
theorem result_cases {R : Type} {windowStart : R → Option Instant} {files : Export.State R}
    (h : Export.First windowStart files) (table : String) :
    result table files = [] ∧ (files.pc = .idle → files.returned = none) ∨
      ∃ ok, result table files = [(table, ok)] ∧ Export.Done windowStart files ok := by
  rw [Export.First] at h
  cases hpc : files.pc with
  | idle =>
      cases hreturned : files.returned with
      | none => exact Or.inl ⟨by rw [result, hpc, hreturned], fun _ => rfl⟩
      | some ok =>
          rw [hpc, hreturned] at h
          exact Or.inr ⟨ok, by rw [result, hpc, hreturned], h⟩
  | deleting | reading since | writing pending | upserting newHwm | uploading =>
      exact Or.inl ⟨by rw [result, hpc], fun hidle => by cases hidle⟩

theorem first_exported {R : Type} {windowStart : R → Option Instant} {table : Option (List R)}
    {files files' : Export.State R} {b : Export.Action R} (h : Export.First windowStart files)
    (hbegin : files.pc = .idle → files.returned = none) (hmay : mayExport table b = true)
    (hstep : Export.step windowStart files b = some files') : Export.First windowStart files' := by
  refine Export.first_step h (ne_refresh hmay) ?_ hbegin hstep
  rintro rfl
  cases hmay

/-- The first table is exported. -/
theorem Reached.exportVwap {b : Export.Action VwapRow} {files : Export.State VwapRow}
    (h : Reached pg num Snapshot s (.exporting [])) (hmay : mayExport s.warehouse.vwap b = true)
    (hstep : Export.step VwapRow.windowStart s.vwapFiles b = some files) :
    Reached pg num Snapshot { s with vwapFiles := files } (.exporting (result "gold_vwap_1min" files)) := by
  obtain ⟨hbuilt, hfirst, hbegin, hfresh⟩ := h
  have hnext := first_exported hfirst hbegin hmay hstep
  rcases result_cases hnext "gold_vwap_1min" with ⟨hnone, hidle⟩ | ⟨ok, hsome, hdone⟩
  · rw [hnone]
    exact ⟨hbuilt, hnext, hidle, hfresh⟩
  · rw [hsome]
    exact ⟨hbuilt, hdone, hfresh.first, fun _ => hfresh.returned⟩

theorem Reached.exportStats {vwap : String × Bool} {b : Export.Action StatsRow} {files : Export.State StatsRow}
    (h : Reached pg num Snapshot s (.exporting [vwap])) (hmay : mayExport s.warehouse.stats b = true)
    (hstep : Export.step StatsRow.windowStart s.statsFiles b = some files) :
    Reached pg num Snapshot { s with statsFiles := files }
      (.exporting (vwap :: result "gold_trade_stats_1min" files)) := by
  obtain ⟨hbuilt, hvwap, hfirst, hbegin⟩ := h
  have hnext := first_exported hfirst hbegin hmay hstep
  rcases result_cases hnext "gold_trade_stats_1min" with ⟨hnone, hidle⟩ | ⟨ok, hsome, hdone⟩
  · rw [hnone]
    exact ⟨hbuilt, hvwap, hnext, hidle⟩
  · rw [hsome]
    exact ⟨hbuilt, hvwap, hdone⟩

end Reach

section Steps

/-- The work tells the stage. -/
theorem At.of_work {run : TaskChain.State} {stage : Stage} :
    (∀ pending failed, At run (.dbtRun pending failed) stage → stage = .building pending failed) ∧
      (∀ pending failed, At run (.dbtTest pending failed) stage → stage = .built) ∧
      ∀ results, At run (.runExport results) stage → stage = .exporting results := by
  refine ⟨fun pending failed h => ?_, fun pending failed h => ?_, fun results h => ?_⟩ <;>
    cases stage <;> simp_all [At]

theorem At.of_status {run run' : TaskChain.State} {work : Work} {stage : Stage} (h : At run work stage)
    (hstatus : run'.status = run.status) : At run' work stage := by
  cases stage <;> simp only [At, hstatus] <;> exact h

/-- A step that leaves the scheduler alone. -/
theorem Underway.work (h : Underway pg num Snapshot k s) (stage : Stage) (hruns : t.runs = s.runs)
    (hvwapGold : t.vwapFiles.gold = t.warehouse.vwap.getD [])
    (hstatsGold : t.statsFiles.gold = t.warehouse.stats.getD [])
    (hat : At (s.runs k) (t.work k) stage) (hreached : Reached pg num Snapshot t stage) :
    Underway pg num Snapshot k t := by
  refine ⟨?_, fun i => ?_, hvwapGold, hstatsGold, stage, ?_, hreached⟩
  · rw [hruns]
    exact h.chain
  · rw [hruns]
    exact h.smooth i
  · rw [hruns]
    exact hat

/-- A step of the scheduler. -/
theorem Underway.schedule (h : Underway pg num Snapshot k s) {b : TaskChain.Action} {run : TaskChain.State}
    (hstep : TaskChain.step TASKS.length RETRIES (s.runs k) b = some run) (hfail : ∀ i, b ≠ .fail i)
    (hblock : ∀ i, b ≠ .block i) (hruns : t.runs k = run) (hwarehouse : t.warehouse = s.warehouse)
    (hvwapFiles : t.vwapFiles = s.vwapFiles) (hstatsFiles : t.statsFiles = s.statsFiles) {stage : Stage}
    (hat : At run (t.work k) stage) (hreached : Reached pg num Snapshot s stage) :
    Underway pg num Snapshot k t := by
  subst hruns
  refine ⟨TaskChain.inv_step h.chain hstep, untroubled_step h.smooth hfail hblock hstep, ?_, ?_, stage, hat,
    hreached.of_eq hwarehouse hvwapFiles hstatsFiles⟩
  · rw [hvwapFiles, hwarehouse]
    exact h.vwapGold
  · rw [hstatsFiles, hwarehouse]
    exact h.statsGold

/-- The consumers have inserted. -/
theorem Underway.grow (h : Underway pg num Snapshot k s) {bronze : Bronze} (hgrows : s.warehouse.bronze ⊆ bronze) :
    Underway pg num Snapshot k { s with warehouse.bronze := bronze } := by
  have hbuilt : ∀ {pending}, Built pg num Snapshot pending s.warehouse →
      Built pg num Snapshot pending { s.warehouse with bronze := bronze } := by
    rintro pending ⟨hnodup, htables⟩
    refine ⟨hnodup, ?_⟩
    by_cases hstg : Model.stgTrades ∈ pending
    · rw [if_pos hstg] at htables ⊢
      exact htables
    · rw [if_neg hstg] at htables ⊢
      obtain ⟨bronze', silver, hsnapshot, hgrown, hrest⟩ := htables
      exact ⟨bronze', silver, hsnapshot, List.Subset.trans hgrown hgrows, hrest⟩
  obtain ⟨stage, hat, hreached⟩ := h.stage
  refine h.work stage rfl h.vwapGold h.statsGold hat ?_
  cases stage with
  | unbuilt => exact hreached
  | building pending failed => exact ⟨fun hfailed => hbuilt (hreached.1 hfailed), hreached.2⟩
  | built | exporting results | exported => exact ⟨hbuilt hreached.1, hreached.2⟩

variable [DecidableEq K]

theorem work_working (s : State K) (k : K) (work : Work) : (s.working k work).work k = work :=
  Function.update_self ..

theorem Underway.working (h : Underway pg num Snapshot k s) (stage : Stage) {work : Work} (hruns : t.runs = s.runs)
    (hvwapGold : t.vwapFiles.gold = t.warehouse.vwap.getD [])
    (hstatsGold : t.statsFiles.gold = t.warehouse.stats.getD []) (hat : At (s.runs k) work stage)
    (hreached : Reached pg num Snapshot t stage) : Underway pg num Snapshot k (t.working k work) := by
  refine h.work stage hruns hvwapGold hstatsGold ?_ (hreached.of_eq rfl rfl rfl)
  rwa [work_working]

theorem underway_step (h : Underway pg num Snapshot k s) (hsnapshot : Snapshot s.warehouse.bronze)
    (hsmooth : Smooth k a) (hstep : step pg num s a = some t) : Underway pg num Snapshot k t := by
  obtain ⟨stage, hat, hreached⟩ := h.stage
  cases transition_of_step hstep with
  | insert receivedAt trades => exact hsmooth.elim
  | fail j task exception u hu => exact hsmooth.elim
  | block j task u hu => exact hsmooth.elim
  | start j task u hu =>
      obtain rfl : j = k := hsmooth
      obtain ⟨run, hrun, rfl⟩ := chain_eq_some hu
      obtain ⟨stage', hat', hstarts⟩ := hat.start h.chain h.smooth hrun
      refine h.schedule hrun (by simp) (by simp) (Function.update_self ..) rfl rfl rfl ?_ (hreached.starts hstarts)
      rwa [work_working]
  | succeed j task u hsucceeds hu =>
      obtain rfl : j = k := hsmooth
      obtain ⟨run, hrun, rfl⟩ := chain_eq_some hu
      obtain ⟨stage', hat', hends⟩ := hat.succeed h.chain h.smooth hrun
      refine h.schedule hrun (by simp) (by simp) (Function.update_self ..) rfl rfl rfl ?_
        (hreached.ends hat hsucceeds hends)
      rwa [work_working]
  | finish j startDate endDate u hu =>
      obtain rfl : j = k := hsmooth
      obtain ⟨run, hrun, rfl⟩ := chain_eq_some hu
      refine h.schedule hrun (by simp) (by simp) (Function.update_self ..) rfl rfl rfl (hat.of_status ?_) hreached
      cases TaskChain.transition_of_step hrun with
      | finish hover hterminal => rfl
  | built j model raises pending failed warehouse hwork hpending hfirst hbuilt =>
      obtain rfl : j = k := hsmooth
      rw [hwork] at hat
      obtain rfl := At.of_work.1 _ _ hat
      exact h.working (.building (pending.erase model) failed) rfl rfl rfl ⟨hat.1, rfl⟩
        (hreached.refresh hsnapshot hpending hfirst hbuilt)
  | raised j model raises pending left failed hwork =>
      obtain rfl : j = k := hsmooth
      rw [hwork] at hat
      obtain rfl := At.of_work.1 _ _ hat
      refine h.working (.building left true) rfl h.vwapGold h.statsGold ⟨hat.1, rfl⟩ ⟨fun hfailed => ?_, hreached.2⟩
      cases hfailed
  | test j test raises pending failed hwork =>
      obtain rfl : j = k := hsmooth
      rw [hwork] at hat
      obtain rfl := At.of_work.2.1 _ _ hat
      exact h.working .built rfl h.vwapGold h.statsGold ⟨hat.1, hat.2.1, Or.inr ⟨_, _, rfl⟩⟩ hreached
  | connect j hwork hlock => exact h.work stage rfl h.vwapGold h.statsGold hat (hreached.of_eq rfl rfl rfl)
  | exportVwap j b files hwork hlock hmay hfiles =>
      obtain rfl : j = k := hsmooth
      rw [hwork] at hat
      obtain rfl := At.of_work.2.2 _ hat
      have hgold := (Export.gold_step hfiles (ne_refresh hmay)).trans h.vwapGold
      exact h.working (.exporting (result "gold_vwap_1min" files)) rfl hgold h.statsGold ⟨hat.1, rfl⟩
        (hreached.exportVwap hmay hfiles)
  | exportStats j b vwap files hwork hlock hmay hfiles =>
      obtain rfl : j = k := hsmooth
      rw [hwork] at hat
      obtain rfl := At.of_work.2.2 _ hat
      have hgold := (Export.gold_step hfiles (ne_refresh hmay)).trans h.statsGold
      exact h.working (.exporting (vwap :: result "gold_trade_stats_1min" files)) rfl h.vwapGold hgold ⟨hat.1, rfl⟩
        (hreached.exportStats hmay hfiles)
  | close j vwap stats hwork hlock => exact h.work stage rfl h.vwapGold h.statsGold hat (hreached.of_eq rfl rfl rfl)

end Steps

section Exact

open Pipeline (stored)

variable {ms : List TradeMessage}

variable (num) in
/-- The files have the aggregates of the trades, and nothing else. -/
def Exports (ms : List TradeMessage) (s : State K) : Prop :=
  ∃ expected, (distinct ms).mapM silverOf = some expected ∧
    (s.vwapFiles.files.flatMap Export.PartFile.rows).Perm (Gold.vwap1min num expected) ∧
    (s.statsFiles.files.flatMap Export.PartFile.rows).Perm (Gold.tradeStats1min num expected) ∧
    ((s.vwapFiles.files.flatMap Export.PartFile.rows).map VwapRow.tradeCount).sum = (distinct ms).length

theorem isSome_window {expected : List SilverTrade} (h : ms.mapM silverOf = some expected) :
    ∀ trade ∈ expected, (Gold.window trade).isSome := by
  intro trade htrade
  obtain ⟨m, -, hsilver⟩ := (PartialMap.mem_of_mapM h).mp htrade
  simp only [silverOf, Option.bind_eq_bind, Option.bind_eq_some_iff, Option.some.injEq] at hsilver
  obtain ⟨price, -, size, -, rfl⟩ := hsilver
  rfl

/-- The rows of a table over trades with a time are dated. -/
theorem isSome_windowStart {R : Type} (windowStart : R → Option Instant)
    {aggregate : Option Instant → List SilverTrade → R} (hkey : ∀ k trades, windowStart (aggregate k trades) = k)
    {trades : List SilverTrade} (h : ∀ trade ∈ trades, (Gold.window trade).isSome) {rows : List R}
    (hrows : rows.Perm (Grouping.groupBy Gold.window aggregate trades)) :
    ∀ row ∈ rows, (windowStart row).isSome := by
  intro row hrow
  obtain ⟨key, hmem, rfl⟩ := Grouping.mem_groupBy.mp (hrows.mem_iff.mp hrow)
  obtain ⟨trade, htrade, rfl⟩ := List.mem_map.mp hmem
  rw [hkey]
  exact h trade htrade

/-- A run that is over and has succeeded has exported a snapshot. -/
theorem Underway.exports (h : Underway pg num Snapshot k s) (hover : (s.runs k).outcome = some true)
    (hreflects : ∀ bronze, Snapshot bronze → Reflects pg num bronze (stored pg bronze ms)) :
    ∃ bronze, Snapshot bronze ∧ bronze ⊆ s.warehouse.bronze ∧ Exports num (stored pg bronze ms) s := by
  have hsuccess := ((h.chain.outcome true hover).2.mp rfl)
  obtain ⟨stage, hat, hreached⟩ := h.stage
  have hfirst := hsuccess 0 (by decide)
  have hthird := hsuccess 2 (by decide)
  obtain rfl : stage = .exported := by
    cases stage with
    | unbuilt | building pending failed => cases hfirst.symm.trans hat.1
    | built => cases hthird.symm.trans hat.2.1
    | exporting results => cases hthird.symm.trans hat.1
    | exported => rfl
  obtain ⟨⟨-, htables⟩, hvwapDone, hstatsDone⟩ := hreached
  rw [if_neg List.not_mem_nil] at htables
  obtain ⟨bronze, silver, hsnapshot, hgrown, hsilver, -, hvwap, hstats⟩ := htables
  have hvwapGold : s.vwapFiles.gold = Gold.vwap1min num silver := by
    rw [h.vwapGold, hvwap]
    rfl
  have hstatsGold : s.statsFiles.gold = Gold.tradeStats1min num silver := by
    rw [h.statsGold, hstats]
    rfl
  have hbuilt := (hreflects bronze hsnapshot).tables
    ⟨bronze, some silver, some (Gold.vwap1min num silver), some (Gold.tradeStats1min num silver)⟩
    (by rw [run_dbtRun, hsilver, Option.map_some])
  obtain ⟨_, vwap, stats, expected, -, hsameVwap, hsameStats, hexpected, -, hvwapPerm, hstatsPerm, hcount⟩ := hbuilt
  obtain rfl : Gold.vwap1min num silver = vwap := Option.some.inj hsameVwap
  obtain rfl : Gold.tradeStats1min num silver = stats := Option.some.inj hsameStats
  have htimed := isSome_window hexpected
  have hvwapRows := Export.rows_perm_of_done hvwapDone
    (hvwapGold ▸ isSome_windowStart VwapRow.windowStart (fun _ _ => rfl) htimed hvwapPerm)
  have hstatsRows := Export.rows_perm_of_done hstatsDone
    (hstatsGold ▸ isSome_windowStart StatsRow.windowStart (fun _ _ => rfl) htimed hstatsPerm)
  rw [hvwapGold] at hvwapRows
  rw [hstatsGold] at hstatsRows
  refine ⟨bronze, hsnapshot, hgrown, expected, hexpected, hvwapRows.trans hvwapPerm, hstatsRows.trans hstatsPerm, ?_⟩
  rw [(hvwapRows.map VwapRow.tradeCount).sum_eq]
  exact hcount

end Exact

end Stages

end CryptoLakehouse.Dag

namespace CryptoLakehouse.Ingestion

open Bootstrap (QUEUE DLQ)
open Pipeline (stored)

variable {R Body : Type} {pg : Postgres} {loads : Body → Except Exn Json} {dump : TradeMessage → Body}
  {decimalText : Decimal → String} {timeText : Int → String} {ms : List TradeMessage} {s : State R Body}

variable (pg dump decimalText timeText ms) in
/-- A message whose `publish` returned `True` waits in a queue, or is a trade that is stored or in the hands of
a process. -/
def Placed (bronze : Bronze) (s : State R Body) : Prop :=
  ∀ body ∈ Publisher.returning true (Publisher.init.results s.traffic.events),
    body ∈ s.traffic.contents QUEUE ∨ body ∈ s.traffic.contents DLQ ∨ ∃ m ∈ ms, dump m = body ∧
      (m ∈ stored pg bronze ms ∨ ∃ p ∈ s.consumer :: s.ended, InHand p (m.modelDump decimalText timeText))

theorem Supplied.placed (hloads : ∀ m, loads (dump m) = .ok (.obj (m.modelDump decimalText timeText)))
    (h : Supplied pg loads dump decimalText timeText ms s) :
    Placed pg dump decimalText timeText ms s.consumer.bronze s := by
  intro body hbody
  have hheld := (h.inv.traffic.published h.inv.publisher).subset hbody
  rw [List.mem_append, List.mem_append, or_assoc] at hheld
  refine hheld.imp_right (Or.imp_right fun hacked => ?_)
  have haccepted : body ∈ s.traffic.accepted :=
    h.inv.traffic.kept.mem_iff.mp (List.mem_append_right _ hacked)
  obtain ⟨m, hm, rfl⟩ := h.offers.accepted body haccepted
  obtain ⟨trade, hparse, hkept⟩ := h.inv.acked _ hacked
  rw [Pipeline.parse_dump hloads] at hparse
  obtain rfl := Except.ok.inj hparse
  exact ⟨m, hm, rfl, (h.inv.stored_or_inHand hkept).imp_left (Pipeline.mem_stored_of_stored hm)⟩

theorem Placed.mono {bronze bronze' : Bronze} (h : Placed pg dump decimalText timeText ms bronze s)
    (hgrows : bronze ⊆ bronze') : Placed pg dump decimalText timeText ms bronze' s := by
  intro body hbody
  refine (h body hbody).imp_right (Or.imp_right fun hplace => ?_)
  obtain ⟨m, hm, hdump, hstored⟩ := hplace
  refine ⟨m, hm, hdump, hstored.imp_left fun hstored => ?_⟩
  obtain ⟨-, row, hrow, hid⟩ := Pipeline.mem_stored.mp hstored
  exact Pipeline.mem_stored.mpr ⟨hm, row, hgrows hrow, hid⟩

end CryptoLakehouse.Ingestion

namespace CryptoLakehouse.System

open Dag (Smooth Underway Exports)
open Ingestion (Placed)
open Pipeline (Sound stored trades published)

variable {R Body K Frame : Type} {py : Pydantic} {loadsFrame : Frame → Except Exn Json} {pg : Postgres} {num : Numerics}
  {loads : Body → Except Exn Json} {dump : TradeMessage → Body} {decimalText : Decimal → String}
  {timeText : Int → String} {connections : List (List Frame)} {ms : List TradeMessage} {k : K} {u s t : State R Body K}

variable (pg decimalText timeText ms u) in
/-- Bronze as it may be from this state on. -/
def Later (bronze : Bronze) : Prop :=
  u.ingestion.consumer.bronze ⊆ bronze ∧ Sound pg decimalText timeText ms bronze

variable (pg num loads dump decimalText timeText ms) in
/-- Nothing but the ingestion has been at work. -/
structure Idle (s : State R Body K) : Prop where
  connected : Connected pg num loads dump decimalText timeText ms s
  dag : s.dag = { Dag.init with warehouse.bronze := s.ingestion.consumer.bronze }

variable (pg num loads dump decimalText timeText ms k u) in
/-- The run has begun in the state `u`. -/
structure FirstRun (s : State R Body K) : Prop where
  connected : Connected pg num loads dump decimalText timeText ms s
  grows : u.ingestion.consumer.bronze ⊆ s.ingestion.consumer.bronze
  underway : Underway pg num (Later pg decimalText timeText ms u) k s.dag

theorem Idle.firstRun (h : Idle pg num loads dump decimalText timeText ms u) :
    FirstRun pg num loads dump decimalText timeText ms k u u := by
  refine ⟨h.connected, List.Subset.refl _, ?_⟩
  rw [h.dag]
  refine ⟨TaskChain.inv_init, fun _ => Or.inl rfl, rfl, rfl, .unbuilt, ⟨rfl, rfl⟩, ⟨rfl, rfl, rfl⟩, ?_, ?_⟩
  · exact ⟨rfl, rfl, rfl, rfl⟩
  · exact ⟨rfl, rfl, rfl, rfl⟩

variable [DecidableEq R] [DecidableEq Body] [DecidableEq K] {a : Action R Body K}

variable (dump ms k) in
/-- What the steps of a first run are. -/
def Calm : Action R Body K → Prop
  | .ingestion a => ∀ message, a = .call message → ∃ m ∈ ms, dump m = message
  | .dag a => Smooth k a

variable (hloads : ∀ m, loads (dump m) = .ok (.obj (m.modelDump decimalText timeText)))
include hloads

theorem Idle.step (h : Idle pg num loads dump decimalText timeText ms s) {a : Ingestion.Action R Body}
    (hcall : ∀ message, a = .call message → ∃ m ∈ ms, dump m = message)
    (hstep : step pg num loads s (.ingestion a) = some t) : Idle pg num loads dump decimalText timeText ms t := by
  refine ⟨connected_step hloads h.connected (fun message heq => ?_) hstep, ?_⟩
  · cases heq
    exact hcall message rfl
  · obtain ⟨ingestion, -, rfl⟩ := Option.map_eq_some_iff.mp hstep
    rw [h.dag]

theorem idle_run {batchSize : Int} {as : List (Ingestion.Action R Body)}
    (hrun : Runs.run (step pg num loads) (init batchSize) (as.map .ingestion) = some u)
    (hcall : ∀ message, .call message ∈ as → ∃ m ∈ ms, dump m = message) :
    Idle pg num loads dump decimalText timeText ms (u : State R Body K) := by
  induction as using List.reverseRecOn generalizing u with
  | nil =>
      cases hrun
      exact ⟨connected_init batchSize, rfl⟩
  | append_singleton as a ih =>
      rw [List.map_append] at hrun
      obtain ⟨s, hs, hstep⟩ := Runs.run_snoc.mp hrun
      refine (ih hs fun message hmem => hcall message (List.mem_append_left _ hmem)).step hloads ?_ hstep
      rintro message rfl
      exact hcall message (by simp)

theorem FirstRun.step (h : FirstRun pg num loads dump decimalText timeText ms k u s) (hcalm : Calm dump ms k a)
    (hstep : step pg num loads s a = some t) : FirstRun pg num loads dump decimalText timeText ms k u t := by
  have hconnected : Connected pg num loads dump decimalText timeText ms t := by
    refine connected_step hloads h.connected (fun message heq => ?_) hstep
    subst heq
    exact hcalm message rfl
  cases a with
  | ingestion a =>
      obtain ⟨ingestion, hingestion, rfl⟩ := Option.map_eq_some_iff.mp hstep
      have hgrows := (Ingestion.supplied_step hloads h.connected.supplied hcalm hingestion).2
      refine ⟨hconnected, List.Subset.trans h.grows hgrows, h.underway.grow ?_⟩
      rw [h.connected.shared]
      exact hgrows
  | dag a =>
      simp only [System.step] at hstep
      split_ifs at hstep with hown
      obtain ⟨dag, hdag, rfl⟩ := Option.map_eq_some_iff.mp hstep
      refine ⟨hconnected, h.grows, Dag.underway_step h.underway ?_ hcalm hdag⟩
      rw [h.connected.shared]
      exact ⟨h.grows, h.connected.supplied.filled.sound⟩

/-- **The first run of the DAG is exact.** The ingestion is at work before it and beside it, with all that can
fail there. When no attempt of the run fails, the files have the aggregates of the trades that bronze had at
one time between the beginning and the end of the run, each trade once; among these trades is every one whose
`publish` had returned `True`, but for those that were still in a queue or in the hands of a process. -/
theorem first_run_exports {batchSize : Int} {before : List (Ingestion.Action R Body)}
    {during : List (Action R Body K)}
    (hbefore : Runs.run (System.step pg num loads) (init batchSize) (before.map .ingestion) = some u)
    (hduring : Runs.run (System.step pg num loads) u during = some s)
    (hsmooth : ∀ a, .dag a ∈ during → Smooth k a) (hover : (s.dag.runs k).outcome = some true)
    (hsent : ∀ message, .call message ∈ before ∨ .ingestion (.call message) ∈ during →
      message ∈ published py loadsFrame dump connections)
    (hid : Identified (trades py loadsFrame connections))
    (hreads : Reads pg decimalText timeText (trades py loadsFrame connections)) (hnum : Gold.Unordered num) :
    ∃ bronze, u.ingestion.consumer.bronze ⊆ bronze ∧ bronze ⊆ s.ingestion.consumer.bronze ∧
      Exports num (stored pg bronze (trades py loadsFrame connections)) s.dag ∧
      Placed pg dump decimalText timeText (trades py loadsFrame connections) bronze u.ingestion := by
  have hcall : ∀ message, .call message ∈ before ∨ .ingestion (.call message) ∈ during →
      ∃ m ∈ trades py loadsFrame connections, dump m = message :=
    fun message hmessage => Pipeline.mem_published.mp (hsent message hmessage)
  have hidle := idle_run hloads hbefore fun message hmessage => hcall message (Or.inl hmessage)
  have hcalm : Runs.Meets (System.step pg num loads)
      (fun _ a => Calm dump (trades py loadsFrame connections) k a) u during := by
    rw [Runs.meets_label hduring]
    rintro (a | a) ha
    · rintro message rfl
      exact hcall message (Or.inr ha)
    · exact hsmooth a ha
  have hrun := Runs.invariant_of_meets (fun _ _ _ h hcalm hstep => h.step hloads hcalm hstep) hidle.firstRun hcalm
    hduring
  obtain ⟨bronze, ⟨hstart, -⟩, hend, hexports⟩ := hrun.underway.exports hover
    fun bronze hbronze => hbronze.2.reflects hid hreads hnum
  rw [hrun.connected.shared] at hend
  exact ⟨bronze, hstart, hend, hexports, (hidle.connected.supplied.placed hloads).mono hstart⟩

omit hloads

/-- One run without the attempt that fails. -/
def firstRun : List (Action Unit TradeMessage Unit) := (Dag.firstTasks ++ Dag.lastTasks).map .dag

theorem smooth_firstRun : ∀ a, .dag a ∈ firstRun → Smooth () a := by
  intro a ha
  obtain ⟨b, hb, heq⟩ := List.mem_map.mp ha
  obtain rfl := Action.dag.inj heq
  have hall : ∀ b ∈ Dag.firstTasks ++ Dag.lastTasks, Smooth () b := by decide
  exact hall b hb

theorem first_run_exports_firstRun : ∃ u s,
    Runs.run (System.step offeredPostgres Gold.sixteenDigits sampleLoads) (init 1) (ingestionRun.map .ingestion) =
      some u ∧
    Runs.run (System.step offeredPostgres Gold.sixteenDigits sampleLoads) u firstRun = some s ∧
    ∃ bronze, u.ingestion.consumer.bronze ⊆ bronze ∧ bronze ⊆ s.ingestion.consumer.bronze ∧
      Exports Gold.sixteenDigits
        (stored offeredPostgres bronze (trades offeredPydantic .ok Pipeline.sampleConnections)) s.dag ∧
      Placed offeredPostgres id offeredText (fun _ => "1970-01-01T00:00:00Z")
        (trades offeredPydantic .ok Pipeline.sampleConnections) bronze u.ingestion := by
  have hrun : (Runs.run (System.step offeredPostgres Gold.sixteenDigits sampleLoads) (init 1)
      (ingestionRun.map .ingestion)).any (fun u =>
        (Runs.run (System.step offeredPostgres Gold.sixteenDigits sampleLoads) u firstRun).any
          fun s => (s.dag.runs ()).outcome = some true) = true := by
    decide +kernel
  obtain ⟨u, hbefore, hnext⟩ := (Option.any_eq_true _ _).mp hrun
  obtain ⟨s, hduring, hover⟩ := (Option.any_eq_true _ _).mp hnext
  refine ⟨u, s, hbefore, hduring, first_run_exports (fun _ => rfl) hbefore hduring smooth_firstRun
    (of_decide_eq_true hover) (fun message hmessage => ?_) Pipeline.identified_sample Pipeline.reads_sample ?_⟩
  · have hunit : message = unitTrade := by simpa [ingestionRun, firstRun] using hmessage
    rw [hunit, Pipeline.mem_published, Pipeline.trades_sample]
    exact ⟨unitTrade, List.mem_singleton_self _, rfl⟩
  · intro xs ys hperm
    simp only [Gold.sixteenDigits, hperm.length_eq]

end CryptoLakehouse.System
