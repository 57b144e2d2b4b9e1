import CryptoLakehouse.ConsumerAck

/-! The shutdown sequence of `consumer/main.py`: `buffer.flush()`, `buffer.stop()`, `consumer.close()`,
`db_conn.close()`. A flush of the timer may be anywhere when the first of them takes the lock, and then
`flush()` returns at once, without a word on what the other flush still has to do. -/

namespace CryptoLakehouse.BatchBuffer

variable {T M : Type}

/-- Nothing is in the buffer, nor in the hands of some of the threads. -/
structure Clear (among : Thread T → Prop) (s : System T M) : Prop where
  buffer : s.obj.buffer = []
  batch : ∀ th, among th → (s.pc th).batch = []

/-- Past the claim of a flush that has not raised. -/
def Pc.Past : Pc M → Prop
  | .entering | .raised _ => False
  | _ => True

variable [DecidableEq T] {s s' : System T M} {a : Action T M} {among : Thread T → Prop}

theorem goto_clear (h : Clear among s) {th : Thread T} {pc : Pc M} (hpc : among th → pc.batch = []) :
    Clear among (s.goto th pc) := by
  refine ⟨h.buffer, fun th' hth' => ?_⟩
  by_cases heq : th' = th
  · subst heq
    rw [s.goto_pc_self]
    exact hpc hth'
  · rw [s.goto_pc_of_ne pc heq]
    exact h.batch th' hth'

/-- What is clear stays so while nothing is added and nothing is given back from elsewhere. -/
theorem Clear.step (h : Clear among s) (hputs : a.puts = []) (hback : ∀ th, a = .giveBack th → among th)
    (hstep : step s a = some s') : Clear among s' := by
  cases transition_of_step hstep with
  | add t m | addFull t m => cases hputs
  | flush t hpc | skip th hpc => exact goto_clear h fun _ => rfl
  | stop t hpc timers => exact ⟨h.buffer, h.batch⟩
  | expire k hpc =>
      refine goto_clear ?_ fun _ => rfl
      exact ⟨h.buffer, h.batch⟩
  | claim th hpc hopen hne => exact absurd h.buffer hne
  | insertReturns th batch hpc =>
      refine goto_clear ?_ fun _ => rfl
      exact ⟨h.buffer, h.batch⟩
  | insertRaises th batch hpc =>
      refine goto_clear h fun hth => ?_
      have hbatch := h.batch th hth
      rw [hpc] at hbatch
      exact hbatch
  | giveBack th batch hpc =>
      have hbatch := h.batch th (hback th rfl)
      rw [hpc] at hbatch
      obtain rfl : batch = [] := hbatch
      refine goto_clear ?_ fun _ => rfl
      exact ⟨h.buffer, h.batch⟩
  | release th hpc | resetTimer th hpc =>
      refine goto_clear ?_ fun _ => rfl
      exact ⟨h.buffer, h.batch⟩

/-- A thread past its claim stays so while it neither adds, flushes nor raises. -/
theorem past_step {th : Thread T} (hpast : (s.pc th).Past) (hadd : ∀ t m, a ≠ .add t m) (hflush : ∀ t, a ≠ .flush t)
    (hraises : ∀ th, a ≠ .insertRaises th) (hexpire : ∀ k, a = .expire k → th ≠ .timer k)
    (hstep : step s a = some s') : (s'.pc th).Past := by
  by_cases hactor : th = a.actor
  · subst hactor
    cases transition_of_step hstep with
    | add t m => exact absurd rfl (hadd t m)
    | addFull t m => exact absurd rfl (hadd t m)
    | flush t => exact absurd rfl (hflush t)
    | stop t hpc => exact hpast
    | expire k => exact absurd rfl (hexpire k rfl)
    | insertRaises th => exact absurd rfl (hraises th)
    | skip th hpc | claim th hpc | insertReturns th batch hpc | giveBack th batch hpc | release th hpc
    | resetTimer th hpc =>
        rw [Action.actor, System.goto_pc_self]
        trivial
  · rw [pc_step hactor hstep]
    exact hpast

end CryptoLakehouse.BatchBuffer

namespace CryptoLakehouse.ConsumerMain

open BatchBuffer (Clear)

variable {Body : Type} (pg : Postgres) (loads : Body → Except Exn Json)

/-- No `insert_batch` raises. -/
def Succeeds : Action Body → Prop
  | .insertRaises _ | .commitUnseen _ _ => False
  | _ => True

/-- Nothing is in the buffer or in flight, and everything added is committed. -/
structure Drained (s : State Body) : Prop where
  settled : Settled s
  committed : ∀ message ∈ s.buffer.added, Stored pg s.bronze message

/-- When the `flush()` of the shutdown takes the lock, no other flush is in progress, or nothing is in the
buffer or in flight. -/
def Undisturbed (s : State Body) (a : Action Body) : Prop :=
  s.main = .flushing → a = .claim (.caller ()) → s.buffer.obj.flushing = false ∨ Settled s

/-- What the shutdown has done for the buffer so far. -/
def Draining (s : State Body) : Prop :=
  match s.main with
  | .consuming | .handling _ => True
  | .flushing => s.buffer.pc (.caller ()) = .entering ∨
      (s.buffer.pc (.caller ())).Past ∧ Clear (· ≠ .caller ()) s.buffer
  | .stopping | .closing | .finished => Settled s

variable {pg loads} {s s' : State Body} {a : Action Body}

theorem settled_iff_clear : Settled s ↔ Clear (fun _ => True) s.buffer :=
  ⟨fun h => ⟨h.1, fun th _ => h.2 th⟩, fun h => ⟨h.buffer, fun th => h.batch th trivial⟩⟩

theorem Inv.drained (h : Inv pg s) (hsettled : Settled s) : Drained pg s where
  settled := hsettled
  committed message hmessage := by
    obtain ⟨q, holder, href⟩ := h.refines
    rw [← href.losslessFifo.flatten_eq hsettled.1 hsettled.2] at hmessage
    obtain ⟨batch, hbatch, hmem⟩ := List.mem_flatten.mp hmessage
    exact h.committed batch hbatch message hmem

/-- The step of a flush or a timer inside the buffer. -/
def Action.inside : Action Body → Option (BatchBuffer.Action Unit Dict)
  | .expire k => some (.expire k)
  | .claim th => some (.claim th)
  | .insertReturns th _ => some (.insertReturns th)
  | .insertRaises th | .commitUnseen th _ => some (.insertRaises th)
  | .giveBack th => some (.giveBack th)
  | .release th => some (.release th)
  | .resetTimer th => some (.resetTimer th)
  | _ => none

theorem inside_step {b : BatchBuffer.Action Unit Dict} (ha : a.inside = some b)
    (hstep : step pg loads s a = some s') :
    BatchBuffer.step s.buffer b = some s'.buffer ∧ s'.main = s.main := by
  cases a <;> cases ha
  all_goals
    obtain ⟨buffer, hbuffer, rfl⟩ := onBuffer_eq_some.mp hstep
    exact ⟨hbuffer, rfl⟩

/-- The claim of the shutdown takes whatever is left, unless another flush is in progress. -/
theorem Inv.clear_of_claim (h : Inv pg s)
    (hopen : s.buffer.obj.flushing = false ∨ Settled s) {buffer : BatchBuffer.System Unit Dict}
    (hstep : BatchBuffer.step s.buffer (.claim (.caller ())) = some buffer) :
    (buffer.pc (.caller ())).Past ∧ Clear (· ≠ .caller ()) buffer := by
  obtain ⟨q, holder, href⟩ := h.refines
  have hothers : ∀ th, (s.buffer.pc th).batch = [] := by
    intro th
    rcases hopen with hflushing | hsettled
    · have hnone := (href.losslessFifo.not_flushing_iff.mp hflushing) th
      cases hth : s.buffer.pc th <;> simp_all [BatchBuffer.Pc.Holds, BatchBuffer.Pc.batch]
    · exact hsettled.2 th
  cases BatchBuffer.transition_of_step hstep with
  | skip _ _ hguard =>
      have hbuffer : s.buffer.obj.buffer = [] := by
        rcases hopen with hflushing | hsettled
        · exact hguard.resolve_left (by simp [hflushing])
        · exact hsettled.1
      refine ⟨?_, BatchBuffer.goto_clear ⟨hbuffer, fun th _ => hothers th⟩ fun _ => rfl⟩
      rw [BatchBuffer.System.goto_pc_self]
      trivial
  | claim _ _ _ hne =>
      refine ⟨?_, BatchBuffer.goto_clear ?_ fun hcaller => absurd rfl hcaller⟩
      · rw [BatchBuffer.System.goto_pc_self]
        trivial
      · exact ⟨rfl, fun th _ => hothers th⟩

/-- Only a delivery adds, and only the main thread flushes from outside. -/
theorem inside_eq_some {b : BatchBuffer.Action Unit Dict} (ha : a.inside = some b) :
    b.puts = [] ∧ (∀ t m, b ≠ .add t m) ∧ (∀ t, b ≠ .flush t) ∧
      (Succeeds a → ∀ th, b ≠ .insertRaises th) := by
  cases a <;> cases ha
  all_goals simp [BatchBuffer.Action.puts, Succeeds]

theorem Settled.inside_step {b : BatchBuffer.Action Unit Dict} (h : Settled s) (hputs : b.puts = [])
    (hstep : BatchBuffer.step s.buffer b = some s'.buffer) : Settled s' :=
  settled_iff_clear.mpr ((settled_iff_clear.mp h).step hputs (fun _ _ => trivial) hstep)

theorem Draining.inside_step (h : Draining s) (hinv : Inv pg s) (hsucceeds : Succeeds a)
    (hopen : Undisturbed s a) {b : BatchBuffer.Action Unit Dict} (ha : a.inside = some b)
    (hstep : step pg loads s a = some s') : Draining s' := by
  obtain ⟨hbuffer, hmain⟩ := ConsumerMain.inside_step ha hstep
  obtain ⟨hputs, hadd, hflush, hraises⟩ := inside_eq_some ha
  unfold Draining at h ⊢
  rw [hmain]
  cases hpc : s.main with
  | consuming | handling message => trivial
  | flushing =>
      simp only [hpc] at h ⊢
      rcases h with hentering | ⟨hpast, hclear⟩
      · rcases BatchBuffer.entering_step hentering hbuffer with rfl | hstays
        · have hclaim : a = .claim (.caller ()) := by
            cases a <;> cases ha
            rfl
          exact .inr (hinv.clear_of_claim (hopen hpc hclaim) hbuffer)
        · exact .inl hstays
      · refine .inr ⟨BatchBuffer.past_step hpast hadd hflush (hraises hsucceeds) (by simp) hbuffer, ?_⟩
        refine hclear.step hputs (fun th hback hth => ?_) hbuffer
        -- the main thread has nothing to give back, as its call has not raised
        subst hback hth
        cases hcaller : s.buffer.pc (.caller ()) with
        | raised batch => simp [hcaller, BatchBuffer.Pc.Past] at hpast
        | _ => simp [BatchBuffer.step, hcaller] at hbuffer
  | stopping | closing | finished =>
      simp only [hpc] at h ⊢
      exact h.inside_step hputs hbuffer

theorem draining_step (h : Draining s) (hinv : Inv pg s) (hsucceeds : Succeeds a) (hopen : Undisturbed s a)
    (hstep : step pg loads s a = some s') : Draining s' := by
  cases ha : a.inside with
  | some b => exact h.inside_step hinv hsucceeds hopen ha hstep
  | none =>
      cases a with
      | deliver body =>
          simp only [step] at hstep
          split at hstep
          · rename_i hmain
            split at hstep
            · cases hstep
              simp [Draining, hmain]
            · obtain ⟨buffer, -, rfl⟩ := onBuffer_eq_some.mp hstep
              trivial
          · cases hstep
      | ack =>
          simp only [step] at hstep
          split at hstep <;> cases hstep
          trivial
      | shutdown =>
          obtain ⟨buffer, hbuffer, rfl⟩ := onBuffer_eq_some.mp (onBuffer_of_shutdown pg loads hstep)
          cases BatchBuffer.transition_of_step hbuffer
          exact .inl (BatchBuffer.System.goto_pc_self ..)
      | stop =>
          simp only [step] at hstep
          split at hstep
          · rename_i hmain hcaller
            obtain ⟨buffer, hbuffer, rfl⟩ := onBuffer_eq_some.mp hstep
            simp only [Draining, hmain, hcaller] at h
            have hclear := (h.resolve_left (by simp)).2
            have hsettled : Settled s := by
              refine ⟨hclear.buffer, fun th => ?_⟩
              by_cases hth : th = .caller ()
              · rw [hth, hcaller]
                rfl
              · exact hclear.batch th hth
            exact hsettled.inside_step rfl hbuffer
          · cases hstep
      | close | disconnect =>
          simp only [step] at hstep
          split at hstep <;> cases hstep
          rename_i hmain
          simpa [Draining, hmain, Settled] using h
      | _ => cases ha

/-- A run whose last flush is undisturbed has drained the buffer when `db_conn.close()` comes. Where the last
flush finds another one in progress with something left, the main thread may reach `db_conn.close()` first. -/
theorem drained_of_undisturbed {batchSize : Int} {bronze : Bronze} {as : List (Action Body)}
    (hrun : Runs.run (step pg loads) (init batchSize bronze) as = some s) (hsucceeds : ∀ a ∈ as, Succeeds a) :
    (Runs.Meets (step pg loads) Undisturbed (init batchSize bronze) as → s.main = .closing → Drained pg s) ∧
      (∀ s₁, step pg loads s (.claim (.caller ())) = some s₁ → ¬ Undisturbed s (.claim (.caller ())) →
        ∃ s', Runs.run (step pg loads) s₁ [.stop, .close] = some s' ∧ s'.main = .closing ∧ ¬ Drained pg s') := by
  constructor
  · intro hmeets hmain
    have hkeep : ∀ (s : State Body) a s', (Inv pg s ∧ Draining s) → (Succeeds a ∧ Undisturbed s a) →
        step pg loads s a = some s' → Inv pg s' ∧ Draining s' :=
      fun s a s' ⟨hinv, hdraining⟩ ⟨hok, hopen⟩ hstep =>
        ⟨inv_step hinv hstep, draining_step hdraining hinv hok hopen hstep⟩
    have hlabels := (Runs.meets_label (P := Succeeds) hrun).mpr hsucceeds
    obtain ⟨hinv, hdraining⟩ :=
      Runs.invariant_of_meets hkeep ⟨inv_init batchSize bronze, trivial⟩ (hlabels.and hmeets) hrun
    simp only [Draining, hmain] at hdraining
    exact hinv.drained hdraining
  · intro s₁ hclaim hdisturbed
    unfold Undisturbed at hdisturbed
    push Not at hdisturbed
    obtain ⟨hmain, -, hflushing, hleft⟩ := hdisturbed
    obtain ⟨buffer, hbuffer, rfl⟩ := onBuffer_eq_some.mp hclaim
    cases BatchBuffer.transition_of_step hbuffer with
    | claim _ _ hopen => simp [hopen] at hflushing
    | skip _ hpc =>
        obtain ⟨timers, hcancel⟩ := BatchBuffer.System.cancelTimer_eq (s.buffer.goto (.caller ()) .outside)
        refine ⟨{ s with buffer := (s.buffer.goto (.caller ()) .outside).stop, main := .closing },
          Runs.run_cons.mpr ⟨{ s with buffer := (s.buffer.goto (.caller ()) .outside).stop, main := .stopping },
            by simp [step, hmain, State.onBuffer, BatchBuffer.step], rfl⟩, rfl, fun hdrained => hleft ?_⟩
        obtain ⟨hbuffer, hbatch⟩ := hdrained.settled
        simp only [BatchBuffer.System.stop, hcancel] at hbuffer hbatch
        refine ⟨hbuffer, fun th => ?_⟩
        by_cases hth : th = .caller ()
        · rw [hth, hpc]
          rfl
        · rw [← hbatch th, BatchBuffer.System.goto_pc_of_ne _ _ hth]

/-- The timer's flush is over when the shutdown begins. -/
def quietShutdown : List (Action Json) :=
  [.deliver (.obj [("trade_id", .str "1")]), .ack, .expire 0, .claim (.timer 0), .insertReturns (.timer 0) 0,
    .release (.timer 0), .resetTimer (.timer 0), .deliver (.obj [("trade_id", .str "2")]), .ack, .shutdown,
    .claim (.caller ()), .insertReturns (.caller ()) 1, .release (.caller ()), .resetTimer (.caller ()), .stop,
    .close]

theorem drained_of_undisturbed_quietShutdown :
    ∃ s, Runs.run (step ⟨fun _ => "", fun _ => none, fun _ => none⟩ .ok) (init 200 []) quietShutdown = some s ∧
      Drained ⟨fun _ => "", fun _ => none, fun _ => none⟩ s := by
  obtain ⟨s, hrun, hmain⟩ : ∃ s, Runs.run (step ⟨fun _ => "", fun _ => none, fun _ => none⟩ .ok) (init 200 [])
      quietShutdown = some s ∧ s.main = .closing := ⟨_, rfl, rfl⟩
  refine ⟨s, hrun, (drained_of_undisturbed hrun ?_).1 ?_ hmain⟩
  · simp [quietShutdown, Succeeds]
  · iterate 10 refine (Runs.meets_cons rfl).mpr ⟨nofun, ?_⟩
    refine (Runs.meets_cons rfl).mpr ⟨fun _ _ => .inl rfl, ?_⟩
    iterate 4 refine (Runs.meets_cons rfl).mpr ⟨fun _ => nofun, ?_⟩
    exact (Runs.meets_cons rfl).mpr ⟨nofun, trivial⟩

/-- The timer's flush is in its `insert_batch` when the shutdown begins, and a message has come since. -/
def overtakenShutdown : List (Action Json) :=
  [.deliver (.obj [("trade_id", .str "1")]), .ack, .expire 0, .claim (.timer 0),
    .deliver (.obj [("trade_id", .str "2")]), .ack, .shutdown, .claim (.caller ()), .stop, .close]

theorem shutdown_overtakes_flush :
    (∀ a ∈ overtakenShutdown, Succeeds a) ∧
      ∃ s, Runs.run (step ⟨fun _ => "", fun _ => none, fun _ => none⟩ .ok) (init 200 []) overtakenShutdown = some s ∧
        s.main = .closing ∧ s.buffer.obj.buffer.length = 1 ∧ (s.buffer.pc (.timer 0)).batch.length = 1 ∧
        ¬ Drained ⟨fun _ => "", fun _ => none, fun _ => none⟩ s := by
  refine ⟨by simp [overtakenShutdown, Succeeds], _, rfl, rfl, rfl, rfl, fun hdrained => ?_⟩
  cases hdrained.settled.1

end CryptoLakehouse.ConsumerMain
