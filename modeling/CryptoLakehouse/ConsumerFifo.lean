import CryptoLakehouse.ConsumerBatchBuffer
import CryptoLakehouse.LibraryFifo

/-! `BatchBuffer` refines the lossless channel: `add` is its put, a returning `insert_batch` its
delivery, and every other step is invisible. What the channel still owes is the batch in flight
followed by the buffer, and the batch in flight belongs to the one thread that holds the flush. -/

namespace CryptoLakehouse.BatchBuffer

variable {T M : Type}

/-- The batch that has left the buffer and is neither committed nor back. -/
def flight (s : System T M) : Option (Thread T) → List M
  | none => []
  | some th => (s.pc th).batch

/-- `holder` is the thread between claiming and releasing a flush, if any. -/
structure Refines (s : System T M) (holder : Option (Thread T)) (q : Fifo M) : Prop where
  holds_iff : ∀ th, (s.pc th).Holds ↔ holder = some th
  flushing_eq : s.obj.flushing = holder.isSome
  added_eq : q.added = s.added
  delivered_eq : q.delivered = s.flushed.flatten
  pending_eq : q.pending = flight s holder ++ s.obj.buffer

section Holder

variable {s : System T M} {holder : Option (Thread T)} {th : Thread T} {q : Fifo M}

theorem Refines.holder_of_not_holds (h : Refines s holder q) (hpc : ¬(s.pc th).Holds) :
    holder ≠ some th := fun heq => hpc ((h.holds_iff th).mpr heq)

theorem Refines.holder_of_pc (h : Refines s holder q) {pc : Pc M} (hpc : s.pc th = pc)
    (hholds : pc.Holds) : holder = some th := (h.holds_iff th).mp (hpc ▸ hholds)

theorem Refines.holder_of_open (h : Refines s holder q) (hopen : s.obj.flushing = false) :
    holder = none := by
  rw [h.flushing_eq, Option.isSome_eq_false_iff, Option.isNone_iff_eq_none] at hopen
  exact hopen

/-- A batch in some thread's hands is what the channel counts as in flight. -/
theorem Refines.flight_eq (h : Refines s holder q) (hbatch : (s.pc th).batch ≠ []) :
    flight s holder = (s.pc th).batch := by
  have hholds : (s.pc th).Holds := by
    cases hpc : s.pc th <;> simp_all [Pc.batch, Pc.Holds]
  rw [(h.holds_iff th).mp hholds, flight]

/-- What was added is flushed, in flight or in the buffer, in this order. -/
theorem Refines.added_split (h : Refines s holder q) :
    s.flushed.flatten ++ (flight s holder ++ s.obj.buffer) = s.added := by
  calc s.flushed.flatten ++ (flight s holder ++ s.obj.buffer)
      = q.delivered ++ q.pending := by rw [h.delivered_eq, h.pending_eq]
    _ = q.added := q.delivered_append_pending
    _ = s.added := h.added_eq

/-- The batch in `insert_batch` follows the batches flushed, in the order of the adds. -/
theorem Refines.inserting_isPrefix (h : Refines s holder q) {batch : List M} (hpc : s.pc th = .inserting batch) :
    s.flushed.flatten ++ batch <+: s.added := by
  have hflight : flight s holder = batch := by
    rw [h.holder_of_pc hpc trivial, flight, hpc]
    rfl
  rw [← h.added_split, hflight, ← List.append_assoc]
  exact List.prefix_append _ _

/-- Appending to the buffer puts the message last in the channel. -/
theorem Refines.add (h : Refines s holder q) (m : M) :
    Refines { s with obj := (s.obj.add m).1, added := s.added ++ [m] } holder (q.put m) where
  holds_iff := h.holds_iff
  flushing_eq := h.flushing_eq
  added_eq := by rw [Fifo.added_put, h.added_eq]
  delivered_eq := h.delivered_eq
  pending_eq := by
    rw [Fifo.pending_put, h.pending_eq, List.append_assoc]
    cases holder <;> rfl

variable [DecidableEq T]

/-- A thread that takes, keeps or drops the flush when nobody else has it. -/
theorem holds_goto (hold : ∀ th', (s.pc th').Holds ↔ holder = some th')
    (hth : holder = none ∨ holder = some th) (pc : Pc M) (th' : Thread T) :
    ((s.goto th pc).pc th').Holds ↔ (if pc.Holds then some th else none) = some th' := by
  by_cases heq : th' = th
  · subst heq
    by_cases hpc : pc.Holds <;> simp [hpc]
  · have hother : ¬(s.pc th').Holds := by
      rw [hold]
      rcases hth with rfl | rfl
      · simp
      · simpa using fun h => heq h.symm
    rw [s.goto_pc_of_ne pc heq]
    refine iff_of_false hother ?_
    split
    · simpa using fun h => heq h.symm
    · simp

/-- Steps of threads outside the flush do not touch the holder or its batch. -/
theorem Refines.goto (h : Refines s holder q) {pc : Pc M} (hbefore : ¬(s.pc th).Holds)
    (hafter : ¬pc.Holds) : Refines (s.goto th pc) holder q where
  holds_iff th' := by
    by_cases heq : th' = th
    · subst heq
      rw [s.goto_pc_self]
      exact iff_of_false hafter (h.holder_of_not_holds hbefore)
    · rw [s.goto_pc_of_ne pc heq]
      exact h.holds_iff th'
  flushing_eq := h.flushing_eq
  added_eq := h.added_eq
  delivered_eq := h.delivered_eq
  pending_eq := by
    rw [h.pending_eq, System.goto_obj]
    cases hholder : holder with
    | none => rfl
    | some th' =>
        have hne : th' ≠ th := fun heq => h.holder_of_not_holds hbefore (heq ▸ hholder)
        rw [flight, flight, s.goto_pc_of_ne pc hne]

end Holder

variable [DecidableEq T]

theorem refines_init (batchSize : Int) :
    Refines (init batchSize : System T M) none Fifo.empty where
  holds_iff th := by simp [init, System.startTimer, Pc.Holds]
  flushing_eq := rfl
  added_eq := rfl
  delivered_eq := rfl
  pending_eq := rfl

/-- The simulation step: each step of the object is at most one operation of the channel. -/
theorem refines_step {s s' : System T M} {a : Action T M} {holder : Option (Thread T)} {q : Fifo M}
    (h : Refines s holder q) (hstep : step s a = some s') :
    ∃ ops q', Runs.run Fifo.step q ops = some q' ∧ ∃ holder', Refines s' holder' q' := by
  cases transition_of_step hstep with
  | add t m => exact ⟨[.put m], _, rfl, holder, h.add m⟩
  | addFull t m hpc =>
      refine ⟨[.put m], _, rfl, holder, (h.add m).goto ?_ id⟩
      simp [hpc, Pc.Holds]
  | flush t hpc => exact ⟨[], q, rfl, holder, h.goto (by simp [hpc, Pc.Holds]) id⟩
  | stop t hpc timers =>
      exact ⟨[], q, rfl, holder, h.holds_iff, h.flushing_eq, h.added_eq, h.delivered_eq, h.pending_eq⟩
  | expire k hpc =>
      have hsame : Refines { s with timers := s.timers.set k .expired } holder q :=
        ⟨h.holds_iff, h.flushing_eq, h.added_eq, h.delivered_eq, h.pending_eq⟩
      exact ⟨[], q, rfl, holder, hsame.goto (by simp [hpc, Pc.Holds]) id⟩
  | skip th hpc => exact ⟨[], q, rfl, holder, h.goto (by simp [hpc, Pc.Holds]) id⟩
  | claim th hpc hopen =>
      -- the whole buffer moves into the local variable of the claiming thread
      have hnone := h.holder_of_open hopen
      refine ⟨[], q, rfl, some th, ?_, rfl, h.added_eq, h.delivered_eq, ?_⟩
      · exact holds_goto (s := { s with obj := _ }) h.holds_iff (.inl hnone) _
      · rw [h.pending_eq, hnone, flight, flight, System.goto_pc_self]
        simp [Pc.batch]
  | insertReturns th batch hpc =>
      have hholder := h.holder_of_pc hpc trivial
      have hpending : q.pending = batch ++ s.obj.buffer := by
        rw [h.pending_eq, hholder, flight, hpc]
        rfl
      refine ⟨[.deliver batch.length], _, rfl, some th, ?_, ?_, h.added_eq, ?_, ?_⟩
      · exact holds_goto (s := { s with flushed := _ }) h.holds_iff (.inr hholder) _
      · rw [System.goto_obj, h.flushing_eq, hholder]
      · rw [Fifo.delivered_deliver, hpending, List.take_left, h.delivered_eq, System.goto_flushed,
          List.flatten_concat]
      · rw [Fifo.pending_deliver, hpending, List.drop_left, flight, System.goto_pc_self]
        rfl
  | insertRaises th batch hpc =>
      have hholder := h.holder_of_pc hpc trivial
      refine ⟨[], q, rfl, some th, ?_, ?_, h.added_eq, h.delivered_eq, ?_⟩
      · exact holds_goto h.holds_iff (.inr hholder) _
      · rw [System.goto_obj, h.flushing_eq, hholder]
      · rw [h.pending_eq, hholder, flight, flight, System.goto_pc_self, hpc]
        rfl
  | giveBack th batch hpc =>
      have hholder := h.holder_of_pc hpc trivial
      refine ⟨[], q, rfl, some th, ?_, ?_, h.added_eq, h.delivered_eq, ?_⟩
      · exact holds_goto (s := { s with obj := _ }) h.holds_iff (.inr hholder) _
      · rw [System.goto_obj, Obj.giveBack, h.flushing_eq, hholder]
      · rw [h.pending_eq, hholder, flight, flight, System.goto_pc_self, hpc]
        rfl
  | release th hpc =>
      have hholder := h.holder_of_pc hpc trivial
      refine ⟨[], q, rfl, none, ?_, rfl, h.added_eq, h.delivered_eq, ?_⟩
      · exact holds_goto (s := { s with obj := _ }) h.holds_iff (.inr hholder) _
      · rw [h.pending_eq, hholder]
        simp only [flight, hpc, Pc.batch]
        rfl
  | resetTimer th hpc timers k =>
      have hsame : Refines { s with obj := { s.obj with timer := some k }, timers := timers } holder q :=
        ⟨h.holds_iff, h.flushing_eq, h.added_eq, h.delivered_eq, h.pending_eq⟩
      exact ⟨[], q, rfl, holder, hsame.goto (by simp [hpc, Pc.Holds]) id⟩

/-- Every run of the object is matched by a run of the channel. -/
theorem refines_fifo {batchSize : Int} {as : List (Action T M)} {s : System T M}
    (hrun : Runs.run step (init batchSize) as = some s) :
    ∃ ops q, Runs.run Fifo.step Fifo.empty ops = some q ∧ ∃ holder, Refines s holder q :=
  Runs.simulation (R := fun s q => ∃ holder, Refines s holder q)
    (fun _ _ _ _ ⟨_, h⟩ hstep => refines_step h hstep) ⟨none, refines_init batchSize⟩ hrun

/-- The batch a thread has taken out of the buffer and that is not committed; `[]` when no thread has
one. -/
def InFlight (s : System T M) (batch : List M) : Prop :=
  (∃ th, s.pc th = .inserting batch ∨ s.pc th = .raised batch) ∨
    batch = [] ∧ ∀ th other, s.pc th ≠ .inserting other ∧ s.pc th ≠ .raised other

/-- No message is lost, doubled or reordered, and flushes exclude each other. -/
structure LosslessFifo (s : System T M) : Prop where
  accounted : ∃ batch, InFlight s batch ∧ s.flushed.flatten ++ batch ++ s.obj.buffer = s.added
  flushing_iff : s.obj.flushing = true ↔ ∃! th, (s.pc th).Holds
  not_flushing_iff : s.obj.flushing = false ↔ ∀ th, ¬(s.pc th).Holds
  exclusive : ∀ th th' batch batch', s.pc th = .inserting batch → s.pc th' = .inserting batch' → th = th'

omit [DecidableEq T] in
/-- With nothing in the buffer or in flight, every message added has been flushed. -/
theorem LosslessFifo.flatten_eq {s : System T M} (h : LosslessFifo s) (hbuffer : s.obj.buffer = [])
    (hflight : ∀ th, (s.pc th).batch = []) : s.flushed.flatten = s.added := by
  obtain ⟨batch, hbatch, hall⟩ := h.accounted
  have hempty : batch = [] := by
    rcases hbatch with ⟨th, hpc | hpc⟩ | ⟨hempty, -⟩
    · simpa [hpc, Pc.batch] using hflight th
    · simpa [hpc, Pc.batch] using hflight th
    · exact hempty
  simpa [hempty, hbuffer] using hall

theorem Refines.inFlight {s : System T M} {holder : Option (Thread T)} {q : Fifo M}
    (h : Refines s holder q) : InFlight s (flight s holder) := by
  have hnone : ∀ th other, ¬(s.pc th).Holds → s.pc th ≠ .inserting other ∧ s.pc th ≠ .raised other := by
    intro th other hth
    constructor <;> intro hpc <;> exact hth (by simp [hpc, Pc.Holds])
  cases holder with
  | none => exact .inr ⟨rfl, fun th other => hnone th other (by simp [h.holds_iff])⟩
  | some th =>
      have hholds : (s.pc th).Holds := (h.holds_iff th).mpr rfl
      rw [flight]
      cases hpc : s.pc th with
      | inserting batch => exact .inl ⟨th, .inl hpc⟩
      | raised batch => exact .inl ⟨th, .inr hpc⟩
      | releasing =>
          refine .inr ⟨rfl, fun th' other => ?_⟩
          by_cases heq : th' = th
          · simp [heq, hpc]
          · refine hnone th' other fun hth' => heq ?_
            simpa using ((h.holds_iff th').mp hth').symm
      | outside | entering | rearming => simp [hpc, Pc.Holds] at hholds

theorem Refines.losslessFifo {s : System T M} {holder : Option (Thread T)} {q : Fifo M}
    (h : Refines s holder q) : LosslessFifo s where
  accounted := by
    refine ⟨flight s holder, h.inFlight, ?_⟩
    rw [List.append_assoc, h.added_split]
  flushing_iff := by
    rw [h.flushing_eq]
    cases holder <;> simp [h.holds_iff, ExistsUnique]
  not_flushing_iff := by
    rw [h.flushing_eq]
    cases holder <;> simp [h.holds_iff]
  exclusive := by
    intro th th' batch batch' hpc hpc'
    have h1 := h.holder_of_pc hpc trivial
    have h2 := h.holder_of_pc hpc' trivial
    exact Option.some.inj (h1.symm.trans h2)

theorem losslessFifo_run {batchSize : Int} {as : List (Action T M)} {s : System T M}
    (hrun : Runs.run step (init batchSize) as = some s) : LosslessFifo s := by
  obtain ⟨ops, q, -, holder, h⟩ := refines_fifo hrun
  exact h.losslessFifo

/-- The two histories are those of the run. -/
theorem histories_run {batchSize : Int} {as : List (Action T M)} {s : System T M}
    (hrun : Runs.run step (init batchSize) as = some s) :
    s.added = as.flatMap Action.puts ∧ s.flushed = Runs.outputs step flushes (init batchSize) as := by
  constructor
  · have hadded := Runs.history_run System.added (fun _ _ _ hstep => (history_step hstep).1) hrun
    rwa [Runs.outputs_label hrun] at hadded
  · exact Runs.history_run System.flushed (fun _ _ _ hstep => (history_step hstep).2) hrun

/-- Whatever the threads, the timers and the database do, the buffer loses nothing of what the adds put in and
the returning inserts took out, and never runs two `insert_batch` calls at once. -/
theorem lossless_fifo {batchSize : Int} {as : List (Action T M)} {s : System T M}
    (hrun : Runs.run step (init batchSize) as = some s) :
    s.added = as.flatMap Action.puts ∧ s.flushed = Runs.outputs step flushes (init batchSize) as ∧
      LosslessFifo s :=
  ⟨(histories_run hrun).1, (histories_run hrun).2, losslessFifo_run hrun⟩

/-- A size flush fails while another thread adds, and the timer expires meanwhile; the next flush has all three
messages, and another add falls into it. -/
def retriedFlush : List (Action Nat Nat) :=
  [.add 0 10, .add 1 11, .claim (.caller 1), .add 0 12, .expire 0, .insertRaises (.caller 1),
    .claim (.timer 0), .giveBack (.caller 1), .release (.caller 1), .resetTimer (.caller 1), .flush 1,
    .claim (.caller 1), .add 0 13, .insertReturns (.caller 1)]

theorem lossless_fifo_failed_flush : ∃ s : System Nat Nat,
    Runs.run step (init 2) retriedFlush = some s ∧ s.added = [10, 11, 12, 13] ∧ s.flushed = [[10, 11, 12]] ∧
      s.obj.buffer = [13] ∧ s.added = retriedFlush.flatMap Action.puts ∧
      s.flushed = Runs.outputs step flushes (init 2) retriedFlush ∧ LosslessFifo s := by
  obtain ⟨s, hrun, hadded, hflushed, hbuffer⟩ : ∃ s : System Nat Nat, Runs.run step (init 2) retriedFlush = some s ∧
      s.added = [10, 11, 12, 13] ∧ s.flushed = [[10, 11, 12]] ∧ s.obj.buffer = [13] := ⟨_, rfl, rfl, rfl, rfl⟩
  exact ⟨s, hrun, hadded, hflushed, hbuffer, lossless_fifo hrun⟩

end CryptoLakehouse.BatchBuffer
