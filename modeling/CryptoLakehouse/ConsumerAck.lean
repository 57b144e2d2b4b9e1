import CryptoLakehouse.ConsumerMain

/-! What an acknowledgement promises. `basic_ack` follows the `add` of a delivery, so the trade may
still be in the buffer or in a batch in flight; it is committed once both are empty, and in general no
earlier. -/

namespace CryptoLakehouse.ConsumerMain

open BatchBuffer (Refines)

variable {Body : Type} (pg : Postgres) (loads : Body → Except Exn Json)

/-- Every acknowledged delivery has its trade committed. -/
def Durable (s : State Body) : Prop := ∀ message ∈ s.acked, Stored pg s.bronze message

/-- No message is in the buffer or in the hands of a flush. -/
def Settled (s : State Body) : Prop :=
  s.buffer.obj.buffer = [] ∧ ∀ th, (s.buffer.pc th).batch = []

/-- An acknowledgement is given in a settled state only. -/
def AcksSettled (s : State Body) (a : Action Body) : Prop := a = .ack → Settled s

structure Inv (s : State Body) : Prop where
  refines : ∃ q holder, Refines s.buffer holder q
  committed : ∀ batch ∈ s.buffer.flushed, ∀ message ∈ batch, Stored pg s.bronze message
  last_added : ∀ message, s.main = .handling message → s.buffer.added.getLast? = some message

theorem onBuffer_eq_some {s s' : State Body} {a : BatchBuffer.Action Unit Dict} :
    s.onBuffer a = some s' ↔
      ∃ buffer, BatchBuffer.step s.buffer a = some buffer ∧ { s with buffer := buffer } = s' := by
  rw [State.onBuffer, Option.map_eq_some_iff]

theorem onBuffer_of_shutdown {s s' : State Body} (h : step pg loads s .shutdown = some s') :
    ({ s with main := .flushing } : State Body).onBuffer (.flush ()) = some s' := by
  simp only [step] at h
  split at h
  · exact h
  · exact h
  · cases h

variable {pg loads}

/-- A step inside the buffer keeps its refinement and adds to its history. -/
theorem onBuffer_cases {s s' : State Body} {a : BatchBuffer.Action Unit Dict}
    (hrefines : ∃ q holder, Refines s.buffer holder q) (hstep : s.onBuffer a = some s') :
    ∃ buffer, { s with buffer := buffer } = s' ∧ (∃ q holder, Refines buffer holder q) ∧
      buffer.added = s.buffer.added ++ a.puts ∧
      buffer.flushed = s.buffer.flushed ++ BatchBuffer.flushes s.buffer a := by
  obtain ⟨buffer, hbuffer, hs'⟩ := onBuffer_eq_some.mp hstep
  obtain ⟨hadded, hflushed⟩ := BatchBuffer.history_step hbuffer
  obtain ⟨q, holder, href⟩ := hrefines
  obtain ⟨-, q', -, holder', href'⟩ := BatchBuffer.refines_step href hbuffer
  exact ⟨buffer, hs', ⟨q', holder', href'⟩, hadded, hflushed⟩

/-- Steps inside the buffer that append nothing. -/
theorem Inv.onBuffer {s s' : State Body} {a : BatchBuffer.Action Unit Dict} (h : Inv pg s)
    (hputs : a.puts = []) (hflushes : ∀ batch ∈ BatchBuffer.flushes s.buffer a, ∀ message ∈ batch,
      Stored pg s.bronze message) (hstep : s.onBuffer a = some s') : Inv pg s' := by
  obtain ⟨buffer, rfl, hrefines, hadded, hflushed⟩ := onBuffer_cases h.refines hstep
  refine ⟨hrefines, ?_, ?_⟩
  · intro batch hbatch
    rw [hflushed, List.mem_append] at hbatch
    exact hbatch.elim (h.committed batch) (hflushes batch)
  · intro message hmain
    rw [hadded, hputs, List.append_nil]
    exact h.last_added message hmain

theorem Inv.commit {s : State Body} (h : Inv pg s) (th : Thread Unit) (receivedAt : Instant) :
    Inv pg (s.commit pg th receivedAt) where
  refines := h.refines
  committed batch hbatch message hmessage := (h.committed batch hbatch message hmessage).insertBatch ..
  last_added := h.last_added

/-- Leaving `on_message` or moving through the shutdown sequence. -/
theorem Inv.setMain {s : State Body} (h : Inv pg s) (main : MainPc) (hmain : ∀ m, main ≠ .handling m) :
    Inv pg { s with main := main } :=
  ⟨h.refines, h.committed, fun message hhandling => absurd hhandling (hmain message)⟩

theorem inv_step {s s' : State Body} {a : Action Body} (h : Inv pg s)
    (hstep : step pg loads s a = some s') : Inv pg s' := by
  cases a with
  | deliver body =>
      simp only [step] at hstep
      split at hstep
      · split at hstep
        · cases hstep
          exact ⟨h.refines, h.committed, h.last_added⟩
        · rename_i message _
          obtain ⟨buffer, rfl, hrefines, hadded, hflushed⟩ :=
            onBuffer_cases (s := { s with main := .handling message }) h.refines hstep
          refine ⟨hrefines, ?_, ?_⟩
          · simp only [BatchBuffer.flushes, List.append_nil] at hflushed
            rw [hflushed]
            exact h.committed
          · intro other hmain
            cases hmain
            rw [hadded, BatchBuffer.Action.puts, List.getLast?_concat]
      · cases hstep
  | ack =>
      simp only [step] at hstep
      split at hstep <;> cases hstep
      have hmain := h.setMain .consuming (by simp)
      exact ⟨hmain.refines, hmain.committed, hmain.last_added⟩
  | shutdown =>
      have hflush := onBuffer_of_shutdown pg loads hstep
      exact (h.setMain _ (by simp)).onBuffer rfl (by simp [BatchBuffer.flushes]) hflush
  | stop =>
      simp only [step] at hstep
      split at hstep
      · exact (h.setMain _ (by simp)).onBuffer rfl (by simp [BatchBuffer.flushes]) hstep
      · cases hstep
  | close | disconnect =>
      simp only [step] at hstep
      split at hstep <;> cases hstep
      exact h.setMain _ (by simp)
  | insertReturns th receivedAt =>
      refine (h.commit th receivedAt).onBuffer rfl ?_ hstep
      intro batch hbatch message hmessage
      rw [BatchBuffer.flushes, List.mem_singleton] at hbatch
      rw [hbatch] at hmessage
      exact stored_insertBatch pg s.bronze receivedAt hmessage
  | commitUnseen th receivedAt =>
      exact (h.commit th receivedAt).onBuffer rfl (by simp [BatchBuffer.flushes]) hstep
  | expire k | claim th | insertRaises th | giveBack th | release th | resetTimer th =>
      exact h.onBuffer rfl (by simp [BatchBuffer.flushes]) hstep

theorem inv_init (batchSize : Int) (bronze : Bronze) : Inv pg (init batchSize bronze : State Body) :=
  ⟨⟨_, _, BatchBuffer.refines_init batchSize⟩, by simp [init, BatchBuffer.init, BatchBuffer.System.startTimer],
    by simp [init]⟩

/-- The trade a step acknowledges. -/
def acks (s : State Body) : Action Body → List Dict
  | .ack => match s.main with
    | .handling message => [message]
    | _ => []
  | _ => []

/-- The batch whose `insert_batch` returns in a step. -/
def flushes (s : State Body) : Action Body → List (List Dict)
  | .insertReturns th _ => [(s.buffer.pc th).batch]
  | _ => []

variable (pg) in
/-- Bronze after a step. -/
def commits (s : State Body) : Action Body → Bronze
  | .insertReturns th receivedAt | .commitUnseen th receivedAt =>
      insertBatch pg s.bronze receivedAt (s.buffer.pc th).batch
  | _ => s.bronze

theorem effect_step {s s' : State Body} {a : Action Body} (hstep : step pg loads s a = some s') :
    s'.acked = s.acked ++ acks s a ∧ s'.bronze = commits pg s a ∧
      s'.buffer.flushed = s.buffer.flushed ++ flushes s a := by
  have hbuffer : ∀ {u u' : State Body} {b : BatchBuffer.Action Unit Dict}, u.onBuffer b = some u' →
      u'.acked = u.acked ∧ u'.bronze = u.bronze ∧
        u'.buffer.flushed = u.buffer.flushed ++ BatchBuffer.flushes u.buffer b := by
    intro u u' b h
    obtain ⟨buffer, hbuffer, rfl⟩ := onBuffer_eq_some.mp h
    exact ⟨rfl, rfl, (BatchBuffer.history_step hbuffer).2⟩
  cases a with
  | deliver body =>
      simp only [step] at hstep
      split at hstep
      · split at hstep
        · cases hstep
          simp [acks, commits, flushes]
        · simpa [acks, commits, flushes, BatchBuffer.flushes] using hbuffer hstep
      · cases hstep
  | ack =>
      simp only [step] at hstep
      split at hstep <;> cases hstep
      rename_i message hmain _
      simp [acks, commits, flushes, hmain]
  | shutdown =>
      simpa [acks, commits, flushes, BatchBuffer.flushes] using hbuffer (onBuffer_of_shutdown pg loads hstep)
  | stop =>
      simp only [step] at hstep
      split at hstep
      · simpa [acks, commits, flushes, BatchBuffer.flushes] using hbuffer hstep
      · cases hstep
  | close | disconnect =>
      simp only [step] at hstep
      split at hstep <;> cases hstep
      simp [acks, commits, flushes]
  | insertReturns th receivedAt | commitUnseen th receivedAt | expire k | claim th | insertRaises th
  | giveBack th | release th | resetTimer th =>
      simpa [acks, commits, flushes, BatchBuffer.flushes, State.commit] using hbuffer hstep

theorem stored_step {s s' : State Body} {a : Action Body} {message : Dict}
    (h : Stored pg s.bronze message) (hstep : step pg loads s a = some s') :
    Stored pg s'.bronze message := by
  rw [(effect_step hstep).2.1]
  cases a <;> first | exact h.insertBatch .. | exact h

/-- An acknowledgement in a settled state is of a committed trade: the one added last. -/
theorem Inv.stored_of_settled {s : State Body} (h : Inv pg s) (hsettled : Settled s) {message : Dict}
    (hmain : s.main = .handling message) : Stored pg s.bronze message := by
  obtain ⟨q, holder, href⟩ := h.refines
  have hall := href.losslessFifo.flatten_eq hsettled.1 hsettled.2
  have hmem : message ∈ s.buffer.flushed.flatten :=
    hall ▸ List.mem_of_getLast? (h.last_added message hmain)
  obtain ⟨batch, hbatch, hmessage⟩ := List.mem_flatten.mp hmem
  exact h.committed batch hbatch message hmessage

theorem durable_step {s s' : State Body} {a : Action Body} (h : Inv pg s) (hdurable : Durable pg s)
    (hsettled : AcksSettled s a) (hstep : step pg loads s a = some s') : Durable pg s' := by
  intro message hmessage
  apply stored_step _ hstep
  rw [(effect_step hstep).1, List.mem_append] at hmessage
  rcases hmessage with hold | hnew
  · exact hdurable message hold
  · cases a with
    | ack =>
        cases hmain : s.main <;> simp only [acks, hmain, List.not_mem_nil, List.mem_singleton] at hnew
        exact hnew ▸ h.stored_of_settled (hsettled rfl) hmain
    | _ => cases hnew

/-- The run rule: when every acknowledgement is settled, each acknowledged trade is committed. -/
theorem durable_run {batchSize : Int} {bronze : Bronze} {as : List (Action Body)} {s : State Body}
    (hrun : Runs.run (step pg loads) (init batchSize bronze) as = some s)
    (hmeets : Runs.Meets (step pg loads) AcksSettled (init batchSize bronze) as) : Durable pg s := by
  have hkeep : ∀ (s : State Body) a s', (Inv pg s ∧ Durable pg s) → AcksSettled s a →
      step pg loads s a = some s' → Inv pg s' ∧ Durable pg s' :=
    fun s a s' ⟨hinv, hdurable⟩ hsettled hstep =>
      ⟨inv_step hinv hstep, durable_step hinv hdurable hsettled hstep⟩
  refine (Runs.invariant_of_meets hkeep ⟨inv_init batchSize bronze, ?_⟩ hmeets hrun).2
  intro message hmessage
  cases hmessage

/-- Bronze holds the rows of earlier processes and the flushed trades, nothing else. -/
def Sourced (bronze : Bronze) (s : State Body) : Prop :=
  ∀ row ∈ s.bronze, row ∈ bronze ∨ row.payload ∈ s.buffer.flushed.flatten

theorem sourced_step {bronze : Bronze} {s s' : State Body} {a : Action Body} (h : Sourced bronze s)
    (hseen : ∀ th receivedAt, a ≠ .commitUnseen th receivedAt) (hstep : step pg loads s a = some s') :
    Sourced bronze s' := by
  obtain ⟨-, hbronze, hflushed⟩ := effect_step hstep
  intro row hrow
  rw [hflushed, List.flatten_append]
  have hkept : row ∈ s.bronze →
      row ∈ bronze ∨ row.payload ∈ s.buffer.flushed.flatten ++ (flushes s a).flatten :=
    fun hold => (h row hold).imp_right (List.mem_append_left _)
  rw [hbronze] at hrow
  cases a with
  | insertReturns th receivedAt =>
      rcases mem_insertBatch pg hrow with hold | ⟨trade, htrade, hpayload⟩
      · exact hkept hold
      · refine .inr (List.mem_append_right _ ?_)
        simpa [flushes, hpayload] using htrade
  | commitUnseen th receivedAt => exact absurd rfl (hseen th receivedAt)
  | _ => exact hkept hrow

/-- In an unsettled state the trade about to be acknowledged is still pending, so when all trade ids
differ and no commit went unseen, no row holds its id. -/
theorem Inv.not_stored_of_unsettled {bronze : Bronze} {s : State Body} (h : Inv pg s)
    (hsourced : Sourced bronze s) (hids : (bronze.map (RawTrade.tradeId pg) ++
      s.buffer.added.map (pg.textAt · "trade_id")).Nodup) (hunsettled : ¬Settled s) {message : Dict}
    (hmain : s.main = .handling message) : ¬Stored pg s.bronze message := by
  obtain ⟨q, holder, href⟩ := h.refines
  have hsplit : s.buffer.flushed.flatten ++ q.pending = s.buffer.added := by
    rw [href.pending_eq, href.added_split]
  have hpending : q.pending ≠ [] := by
    intro hempty
    rw [href.pending_eq, List.append_eq_nil_iff] at hempty
    refine hunsettled ⟨hempty.2, fun th => ?_⟩
    by_contra hbatch
    exact hbatch ((href.flight_eq hbatch).symm.trans hempty.1)
  have hmem : message ∈ q.pending := by
    have hlast := h.last_added message hmain
    rw [← hsplit, List.getLast?_append_of_ne_nil _ hpending] at hlast
    exact List.mem_of_getLast? hlast
  intro hstored
  obtain ⟨row, hrow, hid⟩ := hstored.tradeId_eq
  rw [← hsplit, List.map_append, List.nodup_append, List.nodup_append] at hids
  obtain ⟨-, ⟨-, -, hflushed⟩, hold⟩ := hids
  rcases hsourced row hrow with hbronze | hpayload
  · exact hold _ (List.mem_map_of_mem hbronze) _
      (List.mem_append_right _ (List.mem_map_of_mem hmem)) hid
  · exact hflushed _ (List.mem_map_of_mem hpayload) _ (List.mem_map_of_mem hmem) hid

/-- Acknowledgements are durable in every run that gives them in settled states only. In a run with
distinct trade ids whose failed inserts commit nothing, an acknowledgement given in any other state is
of a trade that is not committed. -/
theorem ack_durable_of_settled {batchSize : Int} {bronze : Bronze} {as : List (Action Body)}
    {s : State Body} (hrun : Runs.run (step pg loads) (init batchSize bronze) as = some s) :
    (Runs.Meets (step pg loads) AcksSettled (init batchSize bronze) as → Durable pg s) ∧
      ((∀ th receivedAt, .commitUnseen th receivedAt ∉ as) →
        (bronze.map (RawTrade.tradeId pg) ++ s.buffer.added.map (pg.textAt · "trade_id")).Nodup →
          ∀ s', step pg loads s .ack = some s' → ¬Settled s → ¬Durable pg s') := by
  refine ⟨durable_run hrun, fun hseen hids s' hack hunsettled hdurable => ?_⟩
  have hinv : Inv pg s := Runs.invariant (fun _ _ _ => inv_step) (inv_init batchSize bronze) hrun
  have hlabels : Runs.Meets (step pg loads) (fun _ a => ∀ th receivedAt, a ≠ .commitUnseen th receivedAt)
      (init batchSize bronze) as := by
    rw [Runs.meets_label hrun]
    rintro a ha th receivedAt rfl
    exact hseen th receivedAt ha
  have hsourced : Sourced bronze s :=
    Runs.invariant_of_meets (fun _ _ _ => sourced_step) (fun _ hrow => .inl hrow) hlabels hrun
  obtain ⟨hacked, hbronze, -⟩ := effect_step hack
  cases hmain : s.main with
  | handling message =>
      refine hinv.not_stored_of_unsettled hsourced hids hunsettled hmain ?_
      have hstored := hdurable message (by simp [hacked, acks, hmain])
      rwa [hbronze] at hstored
  | _ => simp [step, hmain] at hack

/-- With batches of one and a database that answers, the acknowledgement waits for the commit. -/
theorem ack_durable_of_settled_single : ∃ s : State String,
    Runs.run (step ⟨fun _ => "", fun _ => none, fun _ => none⟩
        (fun _ => .ok (.obj [("trade_id", .str "1")]))) (init 1 [])
      [.deliver "\x7b\"trade_id\": \"1\"\x7d", .claim (.caller ()), .insertReturns (.caller ()) 0,
        .release (.caller ()), .resetTimer (.caller ()), .ack] = some s ∧
    Durable ⟨fun _ => "", fun _ => none, fun _ => none⟩ s := by
  refine (Option.isSome_iff_exists.mp rfl).imp fun s hrun =>
    ⟨hrun, (ack_durable_of_settled hrun).1 ?_⟩
  iterate 5 refine (Runs.meets_cons rfl).mpr ⟨nofun, ?_⟩
  refine (Runs.meets_cons rfl).mpr ⟨fun _ => ⟨rfl, ?_⟩, trivial⟩
  rintro (_ | _ | k) <;> rfl

/-- With the default batch size the first delivery is acknowledged while its trade is in the buffer only. -/
theorem ack_before_commit : ∃ s : State String,
    Runs.run (step ⟨fun _ => "", fun _ => none, fun _ => none⟩
        (fun _ => .ok (.obj [("trade_id", .str "1")]))) (init 200 [])
      [.deliver "\x7b\"trade_id\": \"1\"\x7d", .ack] = some s ∧
    ¬Durable ⟨fun _ => "", fun _ => none, fun _ => none⟩ s := by
  refine ⟨_, rfl, fun hdurable => ?_⟩
  obtain ⟨row, hrow, -⟩ := hdurable [("trade_id", .str "1")] (List.mem_singleton.mpr rfl)
  cases hrow

end CryptoLakehouse.ConsumerMain
