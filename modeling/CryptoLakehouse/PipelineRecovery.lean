import CryptoLakehouse.ConsumerShutdown
import CryptoLakehouse.ConsumerSizeTrigger
import CryptoLakehouse.PipelineIngestion

/-! Nothing gets stuck. Wherever flushes have failed, timers have died, deliveries were left unsettled or
processes ended, there is a way on with no help from the producer: the consumer that runs is stopped, another
one is started, and it takes what is in the queue. What this needs is a database that takes the batches. -/

namespace CryptoLakehouse.BatchBuffer

open Runs (Reaches)

variable {T M : Type}

/-- A step inside `flush` that is no exception. -/
def Action.Flushes : Action T M → Prop
  | .claim _ | .insertReturns _ | .giveBack _ | .release _ | .resetTimer _ => True
  | _ => False

variable [DecidableEq T] {s u : System T M} {th : Thread T}

omit [DecidableEq T] in
theorem Action.Finishes.flushes {a : Action T M} (h : a.Finishes) : a.Flushes := by
  cases a with
  | insertReturns th | release th | resetTimer th => trivial
  | _ => cases h

theorem reaches_inserting {batch : List M} (hpc : s.pc th = .inserting batch) :
    ∃ u, Reaches step Action.Flushes s u ∧ Leaves s th u := by
  obtain ⟨u, hrun, hleaves⟩ := leaves_inserting hpc
  exact ⟨u, ⟨_, by simp [Action.Flushes], hrun⟩, hleaves⟩

/-- Wherever a thread is in `flush`, it can leave, and the others stay where they are. -/
theorem exists_left (s : System T M) (th : Thread T) : ∃ u, Reaches step Action.Flushes s u ∧
    u.pc th = .outside ∧ ∀ th', th' ≠ th → u.pc th' = s.pc th' := by
  cases hpc : s.pc th with
  | entering =>
      cases hclaim : s.obj.claim with
      | none =>
          have hstep : step s (.claim th) = some (s.goto th .outside) := by simp only [step, hpc, hclaim]
          exact ⟨_, .one hstep trivial, s.goto_pc_self th _, fun th' hne => s.goto_pc_of_ne _ hne⟩
      | some claimed =>
          obtain ⟨batch, obj⟩ := claimed
          have hstep : step s (.claim th) = some ({ s with obj := obj }.goto th (.inserting batch)) := by
            simp only [step, hpc, hclaim]
          obtain ⟨u, hreaches, hleaves⟩ := reaches_inserting
            (s := { s with obj := obj }.goto th (.inserting batch)) (System.goto_pc_self ..)
          refine ⟨u, .trans (.one hstep trivial) hreaches, hleaves.outside, fun th' hne => ?_⟩
          rw [hleaves.others th' hne]
          exact System.goto_pc_of_ne _ _ hne
  | raised batch =>
      have hstep : step s (.giveBack th) = some ({ s with obj := s.obj.giveBack batch }.goto th .releasing) := by
        simp only [step, hpc]
      obtain ⟨u, hrun, hleaves⟩ := leaves_releasing
        (s := { s with obj := s.obj.giveBack batch }.goto th .releasing) (System.goto_pc_self ..)
      refine ⟨u, .trans (.one hstep trivial) ⟨_, by simp [Action.Flushes], hrun⟩, hleaves.outside,
        fun th' hne => ?_⟩
      rw [hleaves.others th' hne]
      exact System.goto_pc_of_ne _ _ hne
  | outside | inserting batch | releasing | rearming =>
      have hentering : s.pc th ≠ .entering := by simp [hpc]
      obtain ⟨as, u, has, hrun, hleaves⟩ := exists_leaves hentering (by simp [hpc])
      exact ⟨u, ⟨as, fun a ha => (has a ha).flushes, hrun⟩, hleaves.outside, hleaves.others⟩

/-- All threads can leave. -/
theorem exists_idle (inside : Finset (Thread T)) (s : System T M) (hinside : ∀ th, s.pc th ≠ .outside → th ∈ inside) :
    ∃ u, Reaches step Action.Flushes s u ∧ Quiescent u := by
  induction inside using Finset.induction_on generalizing s with
  | empty =>
      refine ⟨s, .refl s, fun th => ?_⟩
      by_contra hth
      exact absurd (hinside th hth) (Finset.notMem_empty th)
  | insert th inside _ ih =>
      obtain ⟨v, hfirst, hleft, hothers⟩ := exists_left s th
      have hinside' : ∀ th', v.pc th' ≠ .outside → th' ∈ inside := by
        intro th' hth'
        have hne : th' ≠ th := fun heq => hth' (heq ▸ hleft)
        rw [hothers th' hne] at hth'
        exact (Finset.mem_insert.mp (hinside th' hth')).resolve_left hne
      obtain ⟨u, hrest, hidle⟩ := ih v hinside'
      exact ⟨u, hfirst.trans hrest, hidle⟩

/-- A `flush` that no other one is beside empties the buffer. -/
theorem exists_flushed (hpc : s.pc th = .entering) (hothers : ∀ th', th' ≠ th → s.pc th' = .outside)
    (hopen : s.obj.flushing = false) : ∃ u, Reaches step Action.Flushes s u ∧ Quiescent u ∧ u.obj.buffer = [] := by
  by_cases hempty : s.obj.buffer = []
  · have hstep : step s (.claim th) = some (s.goto th .outside) := by
      simp only [step, hpc, Obj.claim_eq_none.mpr (Or.inr hempty)]
    refine ⟨_, .one hstep trivial, fun th' => ?_, hempty⟩
    by_cases heq : th' = th
    · rw [heq, s.goto_pc_self]
    · rw [s.goto_pc_of_ne _ heq]
      exact hothers th' heq
  · have hstep : step s (.claim th) = some ({ s with
        obj := { s.obj with flushing := true, buffer := [], isOverloaded := false } }.goto th
          (.inserting s.obj.buffer)) := by
      simp only [step, hpc, Obj.claim_of_open hopen hempty]
    obtain ⟨u, hreaches, hleaves⟩ := reaches_inserting (s := { s with
      obj := { s.obj with flushing := true, buffer := [], isOverloaded := false } }.goto th
        (.inserting s.obj.buffer)) (System.goto_pc_self ..)
    refine ⟨u, .trans (.one hstep trivial) hreaches, fun th' => ?_, hleaves.buffer_eq⟩
    by_cases heq : th' = th
    · rw [heq]
      exact hleaves.outside
    · rw [hleaves.others th' heq]
      exact (System.goto_pc_of_ne _ _ heq).trans (hothers th' heq)

end CryptoLakehouse.BatchBuffer

namespace CryptoLakehouse.ConsumerMain

open BatchBuffer (Quiescent Refines)
open Runs (Reaches)

variable {Body : Type} {pg : Postgres} {loads : Body → Except Exn Json} {s t : State Body}
  {buffer : BatchBuffer.System Unit Dict}

/-- The steps of flushes whose batch the database takes, and those of the way out of `main`. -/
def Drains : Action Body → Prop
  | .claim _ | .insertReturns _ _ | .giveBack _ | .release _ | .resetTimer _ => True
  | .shutdown | .stop | .close | .disconnect => True
  | _ => False

variable (pg loads) in
/-- What the threads of the buffer can do they can do in the process. -/
theorem exists_following (h : Reaches BatchBuffer.step BatchBuffer.Action.Flushes s.buffer buffer) :
    ∃ s', Reaches (step pg loads) Drains s s' ∧ s'.buffer = buffer ∧ s'.main = s.main := by
  refine h.lift (R := fun buffer (t : State Body) => t.buffer = buffer ∧ t.main = s.main) ?_ ⟨rfl, rfl⟩
  rintro v b w t ⟨rfl, hmain⟩ hb hstep
  have hmove : ∀ a (t' : State Body), step pg loads t a = t'.onBuffer b → t'.buffer = t.buffer → t'.main = t.main →
      Drains a → ∃ t', Reaches (step pg loads) Drains t t' ∧ t'.buffer = w ∧ t'.main = s.main := by
    intro a t' ha hbuffer hmain' hdrains
    refine ⟨{ t' with buffer := w }, .one ?_ hdrains, rfl, hmain'.trans hmain⟩
    rw [ha, State.onBuffer, hbuffer, hstep, Option.map_some]
  cases b with
  | claim th => exact hmove (.claim th) t rfl rfl rfl trivial
  | insertReturns th => exact hmove (.insertReturns th 0) (t.commit pg th 0) rfl rfl rfl trivial
  | giveBack th => exact hmove (.giveBack th) t rfl rfl rfl trivial
  | release th => exact hmove (.release th) t rfl rfl rfl trivial
  | resetTimer th => exact hmove (.resetTimer th) t rfl rfl rfl trivial
  | _ => cases hb

/-- Only finitely many threads are inside `flush`. -/
def Bounded (s : State Body) : Prop :=
  ∃ inside : Finset (Thread Unit), ∀ th, s.buffer.pc th ≠ .outside → th ∈ inside

theorem bounded_buffer {a : BatchBuffer.Action Unit Dict} (h : Bounded s)
    (hstep : BatchBuffer.step s.buffer a = some buffer) (ht : t.buffer = buffer) : Bounded t := by
  obtain ⟨inside, hinside⟩ := h
  refine ⟨insert a.actor inside, fun th hth => Finset.mem_insert.mpr ?_⟩
  by_cases hactor : th = a.actor
  · exact Or.inl hactor
  · rw [ht, BatchBuffer.pc_step hactor hstep] at hth
    exact Or.inr (hinside th hth)

theorem bounded_step {a : Action Body} (h : Bounded s) (hstep : step pg loads s a = some t) : Bounded t := by
  have hinside : ∀ (v : State Body) {b}, v.buffer = s.buffer → v.onBuffer b = some t → Bounded t := by
    intro v b hsame honBuffer
    obtain ⟨buffer, hbuffer, rfl⟩ := onBuffer_eq_some.mp honBuffer
    rw [hsame] at hbuffer
    exact bounded_buffer h hbuffer rfl
  cases a with
  | deliver body =>
      simp only [step] at hstep
      split at hstep
      · split at hstep
        · cases hstep
          exact h
        · exact hinside { s with main := .handling _ } rfl hstep
      · cases hstep
  | shutdown => exact hinside { s with main := .flushing } rfl (onBuffer_of_shutdown pg loads hstep)
  | stop =>
      simp only [step] at hstep
      split at hstep
      · exact hinside { s with main := .stopping } rfl hstep
      · cases hstep
  | ack | close | disconnect =>
      simp only [step] at hstep
      split at hstep <;> cases hstep
      exact h
  | insertReturns th receivedAt | commitUnseen th receivedAt =>
      exact hinside (s.commit pg th receivedAt) rfl hstep
  | expire k | claim th | insertRaises th | giveBack th | release th | resetTimer th =>
      exact hinside s rfl hstep

variable (pg loads) in
theorem exists_quiet (h : Bounded s) :
    ∃ s', Reaches (step pg loads) Drains s s' ∧ Quiescent s'.buffer ∧ s'.main = s.main := by
  obtain ⟨inside, hinside⟩ := h
  obtain ⟨buffer, hreaches, hidle⟩ := BatchBuffer.exists_idle inside s.buffer hinside
  obtain ⟨s', hfollows, rfl, hmain⟩ := exists_following pg loads hreaches
  exact ⟨s', hfollows, hidle, hmain⟩

/-- With every thread outside the last `flush()` finds no other one, and takes all that there is. -/
theorem exists_finished_of_quiet (hinv : Inv pg s) (hidle : Quiescent s.buffer)
    (hmain : s.main = .consuming ∨ ∃ message, s.main = .handling message) :
    ∃ t, Reaches (step pg loads) Drains s t ∧ t.main = .finished ∧ Settled t := by
  obtain ⟨q, holder, href⟩ := hinv.refines
  have hopen : s.buffer.obj.flushing = false := by
    rw [href.losslessFifo.not_flushing_iff]
    intro th
    rw [hidle th]
    exact id
  obtain ⟨u, hshutdown, hflushing, hbuffer⟩ : ∃ u, step pg loads s .shutdown = some u ∧ u.main = .flushing ∧
      u.buffer = s.buffer.goto (.caller ()) .entering := by
    have hcaller := hidle (.caller ())
    refine ⟨{ s with main := .flushing, buffer := s.buffer.goto (.caller ()) .entering }, ?_, rfl, rfl⟩
    rcases hmain with hmain | ⟨message, hmain⟩
    · simp only [step, hmain, State.onBuffer, BatchBuffer.step, hcaller, Option.map_some]
    · simp only [step, hmain, State.onBuffer, BatchBuffer.step, hcaller, Option.map_some]
  have hentering : u.buffer.pc (.caller ()) = .entering := by rw [hbuffer, BatchBuffer.System.goto_pc_self]
  obtain ⟨buffer, hflush, hquiet, hempty⟩ := BatchBuffer.exists_flushed hentering
    (fun th hne => by
      rw [hbuffer, BatchBuffer.System.goto_pc_of_ne _ _ hne]
      exact hidle th)
    (by rw [hbuffer]; exact hopen)
  obtain ⟨v, hfollows, rfl, hmain'⟩ := exists_following pg loads hflush
  obtain ⟨timers, hcancel⟩ := BatchBuffer.System.cancelTimer_eq v.buffer
  have hstop : Runs.run (step pg loads) v [.stop, .close, .disconnect] =
      some { v with main := .finished, buffer := v.buffer.stop } := by
    have hcaller := hquiet (.caller ())
    have hv : v.main = .flushing := hmain'.trans hflushing
    simp [Runs.run, step, hv, hcaller, State.onBuffer, BatchBuffer.step]
  have hstopped : v.buffer.stop.obj.buffer = v.buffer.obj.buffer ∧ v.buffer.stop.pc = v.buffer.pc := by
    rw [BatchBuffer.System.stop, hcancel]
    exact ⟨rfl, rfl⟩
  refine ⟨_, .trans (.one hshutdown trivial) (hfollows.trans ⟨_, by simp [Drains], hstop⟩), rfl, ?_, fun th => ?_⟩
  · exact hstopped.1.trans hempty
  · show (v.buffer.stop.pc th).batch = []
    rw [hstopped.2, hquiet th]
    rfl

variable (loads) in
/-- A process that has not begun its shutdown can end with everything stored. -/
theorem exists_finished (hinv : Inv pg s) (hbounded : Bounded s)
    (hmain : s.main = .consuming ∨ ∃ message, s.main = .handling message) :
    ∃ t, Reaches (step pg loads) Drains s t ∧ t.main = .finished ∧ Settled t := by
  obtain ⟨u, hquiet, hidle, hsame⟩ := exists_quiet pg loads hbounded
  have hinv' : Inv pg u := hquiet.keeps (fun _ _ _ h _ hstep => inv_step h hstep) hinv
  obtain ⟨t, hfinish, hfinished, hsettled⟩ := exists_finished_of_quiet hinv' hidle (hsame ▸ hmain)
  exact ⟨t, hquiet.trans hfinish, hfinished, hsettled⟩

end CryptoLakehouse.ConsumerMain

namespace CryptoLakehouse.Ingestion

open BatchBuffer (Quiescent)
open Bootstrap (QUEUE DLQ)
open Broker (Held inQueue)
open ConsumerMain (Bounded Drains parse Settled)
open Runs (Reaches)

variable {R Body : Type} {pg : Postgres} {loads : Body → Except Exn Json} {batchSize : Int}
  {s t : State R Body}

/-- The consumers at work, with the batch size that they are configured with: no publish, no setup, no batch
that fails. -/
def Consumes (batchSize : Int) : Action R Body → Prop
  | .requeue _ | .deliver _ | .ack _ | .nack _ => True
  | .restart batchSize' => batchSize' = batchSize
  | .consumer a => Drains a
  | _ => False

/-- Ready to take a delivery. -/
structure Ready (pg : Postgres) (loads : Body → Except Exn Json) (s : State R Body) : Prop where
  inv : Inv pg loads s
  idle : s.current = none
  consuming : s.consumer.main = .consuming
  quiet : Quiescent s.consumer.buffer

variable (pg) in
/-- What has been stored, added and dead-lettered stays so. -/
structure Onward (s t : State R Body) : Prop where
  stored : ∀ trade, Stored pg s.consumer.bronze trade → Stored pg t.consumer.bronze trade
  added : s.consumer.buffer.added ⊆ t.consumer.buffer.added
  dead : s.traffic.contents DLQ ⊆ t.traffic.contents DLQ

theorem Onward.trans {u : State R Body} (h : Onward pg s t) (h' : Onward pg t u) : Onward pg s u :=
  ⟨fun trade hstored => h'.stored trade (h.stored trade hstored), List.Subset.trans h.added h'.added,
    List.Subset.trans h.dead h'.dead⟩

variable (loads) in
/-- The message has come to the buffer, or it is no JSON object and is in the dead-letter queue. -/
def Taken (s : State R Body) (body : Body) : Prop :=
  (∃ trade, parse loads body = .ok trade ∧ trade ∈ s.consumer.buffer.added) ∨
    (∃ e, parse loads body = .error e) ∧ body ∈ s.traffic.contents DLQ

theorem Taken.onward {body : Body} (h : Taken loads s body) (honward : Onward pg s t) : Taken loads t body := by
  rcases h with ⟨trade, hparse, hadded⟩ | ⟨herror, hdead⟩
  · exact Or.inl ⟨trade, hparse, honward.added hadded⟩
  · exact Or.inr ⟨herror, honward.dead hdead⟩

theorem contents_eq (s : State R Body) (queue : String) :
    s.traffic.contents queue = inQueue queue s.traffic.broker.held := rfl

variable [DecidableEq R] [DecidableEq Body]

/-- A way of the consumer process is one of the whole. -/
theorem reaches_consumer {p : ConsumerMain.State Body}
    (h : Reaches (ConsumerMain.step pg loads) Drains s.consumer p) :
    Reaches (step pg loads) (Consumes batchSize) s { s with consumer := p } := by
  obtain ⟨_, hreaches, rfl⟩ : ∃ t, Reaches (step pg loads) (Consumes batchSize) s t ∧ t = { s with consumer := p } := by
    refine h.lift (R := fun p (t : State R Body) => t = { s with consumer := p }) ?_ rfl
    rintro p a p' _ rfl hdrains hstep
    have hinside : inside a = true := by cases a <;> first | rfl | cases hdrains
    refine ⟨{ s with consumer := p' }, .one (a := .consumer a) ?_ hdrains, rfl⟩
    simp only [step, hinside, if_true, State.onConsumer, hstep, Option.map_some]
  exact hreaches

variable (batchSize) in
/-- A delivery that some ended process has left unsettled is ready again. -/
theorem exists_ready (h : Ready pg loads s) {i : Nat} {held : Held String String Body}
    (hi : s.traffic.broker.held[i]? = some held) :
    ∃ t, Reaches (step pg loads) (Consumes batchSize) s t ∧ Ready pg loads t ∧ Onward pg s t ∧
      t.traffic.broker.held[i]? = some { held with delivered := false } ∧
      t.traffic.contents QUEUE = s.traffic.contents QUEUE := by
  by_cases hout : held.delivered = true
  · have hstep : step pg loads s (.requeue i) =
        some { s with traffic := { s.traffic with broker := s.traffic.broker.mark i held false } } := by
      simp only [step, State.onTraffic, Traffic.step, Broker.step, hi, hout, if_true, Option.map_some]
    have hlt := (List.getElem?_eq_some_iff.mp hi).1
    refine ⟨_, .one hstep trivial, ⟨inv_step h.inv hstep, h.idle, h.consuming, h.quiet⟩,
      ⟨fun _ hstored => hstored, List.Subset.refl _, ?_⟩, ?_, ?_⟩
    · rw [contents_eq, contents_eq, Broker.inQueue_mark hi]
      exact List.Subset.refl _
    · rw [Broker.State.mark, List.getElem?_set_self hlt]
    · rw [contents_eq, contents_eq, Broker.inQueue_mark hi]
  · have hsame : { held with delivered := false } = held := by
      rw [← Bool.eq_false_of_not_eq_true hout]
    exact ⟨s, .refl s, h, ⟨fun _ hstored => hstored, List.Subset.refl _, List.Subset.refl _⟩, hsame ▸ hi, rfl⟩

section Take

variable {i : Nat} {held : Held String String Body}

omit [DecidableEq Body] in
/-- The broker's side of a delivery. -/
theorem onTraffic_deliver (hi : s.traffic.broker.held[i]? = some held) (hqueue : held.queue = QUEUE)
    (hready : held.delivered = false) : s.onTraffic (.broker (.deliver i)) =
      some { s with traffic := { s.traffic with broker := s.traffic.broker.mark i held true } } := by
  simp [State.onTraffic, Traffic.step, Broker.step, hi, hqueue, hready]

omit [DecidableEq R] [DecidableEq Body] in
theorem getElem?_mark (hi : s.traffic.broker.held[i]? = some held) :
    (s.traffic.broker.mark i held true).held[i]? = some { held with delivered := true } := by
  rw [Broker.State.mark, List.getElem?_set_self (List.getElem?_eq_some_iff.mp hi).1]

omit [DecidableEq R] [DecidableEq Body] in
/-- A message of the queue is taken from there, and from nowhere else. -/
theorem inQueue_taken (hi : s.traffic.broker.held[i]? = some held) (hqueue : held.queue = QUEUE) :
    (held.body :: inQueue QUEUE (s.traffic.broker.take i).held).Perm (s.traffic.contents QUEUE) ∧
      (inQueue DLQ (s.traffic.broker.take i).held).Perm (s.traffic.contents DLQ) := by
  have hne : held.queue ≠ DLQ := by
    rw [hqueue]
    decide
  have hother := Broker.inQueue_take hi DLQ
  have hfrom := Broker.inQueue_take hi QUEUE
  rw [if_pos hqueue] at hfrom
  rw [if_neg hne] at hother
  exact ⟨hfrom, hother⟩

/-- A message that is no JSON object goes to the dead-letter queue. -/
theorem exists_nacked (h : Ready pg loads s) (hi : s.traffic.broker.held[i]? = some held)
    (hqueue : held.queue = QUEUE) (hready : held.delivered = false) {e : Exn}
    (herror : parse loads held.body = .error e) :
    ∃ t, Reaches (step pg loads) (Consumes batchSize) s t ∧ Ready pg loads t ∧ Onward pg s t ∧
      Taken loads t held.body ∧
      (held.body :: t.traffic.contents QUEUE).Perm (s.traffic.contents QUEUE) := by
  have hnacked : ConsumerMain.step pg loads s.consumer (.deliver held.body) =
      some { s.consumer with nacked := s.consumer.nacked ++ [held.body] } := by
    simp only [ConsumerMain.step, h.consuming, herror]
  obtain ⟨u, hdeliver, hbroker, hconsumer, hcurrent⟩ : ∃ u : State R Body, step pg loads s (.deliver i) = some u ∧
      u.traffic.broker = s.traffic.broker.mark i held true ∧
      u.consumer = { s.consumer with nacked := s.consumer.nacked ++ [held.body] } ∧ u.current = some held.body := by
    refine ⟨{ s with
      traffic := { s.traffic with broker := s.traffic.broker.mark i held true },
      consumer := { s.consumer with nacked := s.consumer.nacked ++ [held.body] },
      current := some held.body }, ?_, rfl, rfl, rfl⟩
    simp only [step, h.idle, hi, onTraffic_deliver hi hqueue hready, Option.bind_some, State.onConsumer, hnacked,
      Option.map_some]
  have htarget : Broker.DeadLettersTo (s.traffic.broker.take i).topology held.queue DLQ held.routingKey := by
    have htopology : s.traffic.broker.topology = Bootstrap.declareTopology :=
      h.inv.traffic.built_of_mem (List.mem_of_getElem? hi)
    rw [Broker.State.take, htopology, hqueue]
    exact (Traffic.deadLettersTo_queue _ _).mpr rfl
  obtain ⟨routingKey, hdead⟩ := Broker.deadLetter_eq (h := { held with delivered := true }) htarget
  obtain ⟨t, hnack, hheld, hsame, hidle⟩ : ∃ t : State R Body, step pg loads u (.nack i) = some t ∧
      t.traffic.broker.held = (s.traffic.broker.take i).held ++ [⟨DLQ, routingKey, held.body, false⟩] ∧
      t.consumer = u.consumer ∧ t.current = none := by
    have hmarked : u.traffic.broker.held[i]? = some { held with delivered := true } := by
      rw [hbroker]
      exact getElem?_mark hi
    refine ⟨{ u with
      traffic := { u.traffic with broker := (u.traffic.broker.take i).deadLetter { held with delivered := true } },
      current := none }, ?_, ?_, rfl, rfl⟩
    · simp [step, hmarked, herror, hcurrent, State.onTraffic, Traffic.step, Broker.step]
    · show ((u.traffic.broker.take i).deadLetter { held with delivered := true }).held = _
      rw [hbroker, Broker.take_mark, hdead]
  obtain ⟨hfrom, hdlq⟩ := inQueue_taken hi hqueue
  have hinv := inv_step (inv_step h.inv hdeliver) hnack
  rw [hconsumer] at hsame
  refine ⟨t, .trans (.one hdeliver trivial) (.one hnack trivial), ⟨hinv, hidle, ?_, ?_⟩, ⟨?_, ?_, ?_⟩, ?_, ?_⟩
  · rw [hsame]
    exact h.consuming
  · rw [hsame]
    exact h.quiet
  · rw [hsame]
    exact fun _ hstored => hstored
  · rw [hsame]
    exact List.Subset.refl _
  · rw [contents_eq t, hheld, Broker.inQueue_append]
    exact List.Subset.trans hdlq.symm.subset (List.subset_append_left _ _)
  · refine Or.inr ⟨⟨e, herror⟩, ?_⟩
    rw [contents_eq, hheld, Broker.inQueue_append]
    exact List.mem_append_right _ (List.mem_singleton_self _)
  · have hnone : inQueue QUEUE [(⟨DLQ, routingKey, held.body, false⟩ : Held String String Body)] = [] := by
      have hne : DLQ ≠ QUEUE := by decide
      rw [inQueue, List.filter_cons_of_neg (by rwa [decide_eq_true_eq])]
      rfl
    rw [contents_eq, hheld, Broker.inQueue_append, hnone, List.append_nil]
    exact hfrom

/-- Any other is added to the buffer; a flush that its size triggers gets through. -/
theorem exists_acked (h : Ready pg loads s) (hi : s.traffic.broker.held[i]? = some held)
    (hqueue : held.queue = QUEUE) (hready : held.delivered = false) {trade : Dict}
    (hparse : parse loads held.body = .ok trade) :
    ∃ t, Reaches (step pg loads) (Consumes batchSize) s t ∧ Ready pg loads t ∧ Onward pg s t ∧
      Taken loads t held.body ∧
      (held.body :: t.traffic.contents QUEUE).Perm (s.traffic.contents QUEUE) := by
  obtain ⟨buffer, hadd⟩ : ∃ buffer, BatchBuffer.step s.consumer.buffer (.add () trade) = some buffer := by
    rw [BatchBuffer.step, h.quiet (.caller ())]
    exact ⟨_, rfl⟩
  have hhandling : ConsumerMain.step pg loads s.consumer (.deliver held.body) =
      some { s.consumer with main := .handling trade, buffer := buffer } := by
    simp only [ConsumerMain.step, h.consuming, hparse, ConsumerMain.State.onBuffer, hadd, Option.map_some]
  obtain ⟨u, hdeliver, hbroker, hconsumer, hcurrent⟩ : ∃ u : State R Body, step pg loads s (.deliver i) = some u ∧
      u.traffic.broker = s.traffic.broker.mark i held true ∧
      u.consumer = { s.consumer with main := .handling trade, buffer := buffer } ∧ u.current = some held.body := by
    refine ⟨{ s with
      traffic := { s.traffic with broker := s.traffic.broker.mark i held true },
      consumer := { s.consumer with main := .handling trade, buffer := buffer },
      current := some held.body }, ?_, rfl, rfl, rfl⟩
    simp only [step, h.idle, hi, onTraffic_deliver hi hqueue hready, Option.bind_some, State.onConsumer, hhandling,
      Option.map_some]
  have hbounded : Bounded u.consumer := by
    refine ConsumerMain.bounded_buffer (s := s.consumer) ⟨∅, fun th hth => absurd (h.quiet th) hth⟩ hadd ?_
    rw [hconsumer]
  obtain ⟨p, hreaches, hquiet, hmain⟩ := ConsumerMain.exists_quiet pg loads hbounded
  rw [hconsumer] at hmain
  have hmain : p.main = .handling trade := hmain
  obtain ⟨t, hack, hheld, hsame, hidle⟩ : ∃ t : State R Body,
      step pg loads { u with consumer := p } (.ack i) = some t ∧
      t.traffic.broker.held = (s.traffic.broker.take i).held ∧
      t.consumer = { p with main := .consuming, acked := p.acked ++ [trade] } ∧ t.current = none := by
    have hmarked : u.traffic.broker.held[i]? = some { held with delivered := true } := by
      rw [hbroker]
      exact getElem?_mark hi
    refine ⟨{ u with
      traffic := { u.traffic with broker := { u.traffic.broker.take i with
        acked := u.traffic.broker.acked ++ [held.body] } },
      consumer := { p with main := .consuming, acked := p.acked ++ [trade] }, current := none }, ?_, ?_, rfl, rfl⟩
    · have hcaller := hquiet (.caller ())
      simp [step, hmarked, hcurrent, State.onTraffic, Traffic.step, Broker.step, State.onConsumer, ConsumerMain.step,
        hmain, hcaller, Broker.State.take]
    · show (u.traffic.broker.take i).held = _
      rw [hbroker, Broker.take_mark]
  have hway : Reaches (step pg loads) (Consumes batchSize) s t :=
    .trans (.one hdeliver trivial) (.trans (reaches_consumer hreaches) (.one hack trivial))
  obtain ⟨hfrom, hdlq⟩ := inQueue_taken hi hqueue
  have hadded : s.consumer.buffer.added ++ [trade] ⊆ p.buffer.added := by
    refine hreaches.keeps (I := fun p => s.consumer.buffer.added ++ [trade] ⊆ p.buffer.added) ?_ ?_
    · intro p a p' hp _ hstep
      rw [ConsumerMain.added_step hstep]
      exact List.Subset.trans hp (List.subset_append_left _ _)
    · have hhistory : buffer.added = s.consumer.buffer.added ++ [trade] := (BatchBuffer.history_step hadd).1
      rw [hconsumer, ← hhistory]
      exact List.Subset.refl _
  have hstored : ∀ other, Stored pg s.consumer.bronze other → Stored pg p.bronze other := by
    intro other hother
    refine hreaches.keeps (I := fun p => Stored pg p.bronze other) ?_ ?_
    · exact fun _ _ _ hp _ hstep => ConsumerMain.stored_step hp hstep
    · rw [hconsumer]
      exact hother
  refine ⟨t, hway, ⟨hway.keeps (fun _ _ _ hs _ hstep => inv_step hs hstep) h.inv, hidle, ?_, ?_⟩, ⟨?_, ?_, ?_⟩, ?_, ?_⟩
  · rw [hsame]
  · rw [hsame]
    exact hquiet
  · rw [hsame]
    exact hstored
  · rw [hsame]
    exact List.Subset.trans (List.subset_append_left _ _) hadded
  · rw [contents_eq t, hheld]
    exact hdlq.symm.subset
  · refine Or.inl ⟨trade, hparse, ?_⟩
    rw [hsame]
    exact hadded (List.mem_append_right _ (List.mem_singleton_self _))
  · rw [contents_eq, hheld]
    exact hfrom

variable (batchSize) in
/-- The consumer takes a message of the queue, whoever had it before. -/
theorem exists_taken (h : Ready pg loads s) (hi : s.traffic.broker.held[i]? = some held)
    (hqueue : held.queue = QUEUE) : ∃ t, Reaches (step pg loads) (Consumes batchSize) s t ∧ Ready pg loads t ∧
      Onward pg s t ∧ Taken loads t held.body ∧
      (held.body :: t.traffic.contents QUEUE).Perm (s.traffic.contents QUEUE) := by
  obtain ⟨u, hway, hu, honward, hready, hsame⟩ := exists_ready batchSize h hi
  obtain ⟨ready, hi', hbody, hqueue', hdelivered⟩ : ∃ ready, u.traffic.broker.held[i]? = some ready ∧
      ready.body = held.body ∧ ready.queue = QUEUE ∧ ready.delivered = false := ⟨_, hready, rfl, hqueue, rfl⟩
  rw [← hbody, ← hsame]
  obtain ⟨t, hway', ht, honward', htaken, hleft⟩ : ∃ t, Reaches (step pg loads) (Consumes batchSize) u t ∧
      Ready pg loads t ∧ Onward pg u t ∧ Taken loads t ready.body ∧
      (ready.body :: t.traffic.contents QUEUE).Perm (u.traffic.contents QUEUE) := by
    cases hparse : parse loads ready.body with
    | error e => exact exists_nacked hu hi' hqueue' hdelivered hparse
    | ok trade => exact exists_acked hu hi' hqueue' hdelivered hparse
  exact ⟨t, hway.trans hway', ht, honward.trans honward', htaken, hleft⟩

end Take

variable (batchSize) in
/-- One message after the other. -/
theorem exists_empty (n : Nat) (h : Ready pg loads s) (hn : (s.traffic.contents QUEUE).length = n) :
    ∃ t, Reaches (step pg loads) (Consumes batchSize) s t ∧ Ready pg loads t ∧ Onward pg s t ∧
      t.traffic.contents QUEUE = [] ∧ ∀ body ∈ s.traffic.contents QUEUE, Taken loads t body := by
  induction n generalizing s with
  | zero =>
      have hempty := List.length_eq_zero_iff.mp hn
      refine ⟨s, .refl s, h, ⟨fun _ hstored => hstored, List.Subset.refl _, List.Subset.refl _⟩, hempty, ?_⟩
      rw [hempty]
      exact fun body hbody => absurd hbody List.not_mem_nil
  | succ n ih =>
      obtain ⟨body, hbody⟩ := List.exists_mem_of_length_eq_add_one hn
      obtain ⟨held, hheld, rfl⟩ := List.mem_map.mp hbody
      obtain ⟨hmem, hqueue⟩ := List.mem_filter.mp hheld
      obtain ⟨i, hi⟩ := List.getElem?_of_mem hmem
      obtain ⟨u, hway, hu, honward, htaken, hleft⟩ :=
        exists_taken batchSize h hi (of_decide_eq_true hqueue)
      have hless : (u.traffic.contents QUEUE).length = n := by
        have hlength := hleft.length_eq
        rw [List.length_cons, hn] at hlength
        exact Nat.succ.inj hlength
      obtain ⟨t, hway', ht, honward', hempty, hall⟩ := ih hu hless
      refine ⟨t, hway.trans hway', ht, honward.trans honward', hempty, fun body hbody => ?_⟩
      rcases List.mem_cons.mp (hleft.symm.subset hbody) with rfl | hrest
      · exact htaken.onward honward'
      · exact hall body hrest

theorem bounded_consumer {a : Action R Body} (h : Bounded s.consumer) (hstep : step pg loads s a = some t) :
    Bounded t.consumer := by
  cases transition_of_step hstep with
  | traffic | nack => exact h
  | deliver i held traffic consumer hi htraffic hconsumer => exact ConsumerMain.bounded_step h hconsumer
  | ack i held traffic consumer hi hcurrent htraffic hconsumer => exact ConsumerMain.bounded_step h hconsumer
  | consumer b consumer hinside hconsumer => exact ConsumerMain.bounded_step h hconsumer
  | restart size => exact ⟨∅, fun th hth => absurd rfl hth⟩

omit [DecidableEq R] [DecidableEq Body] in
theorem added_of_inHand {p : ConsumerMain.State Body} (h : ConsumerMain.Inv pg p) {trade : Dict}
    (hhand : InHand p trade) : trade ∈ p.buffer.added := by
  obtain ⟨q, holder, href⟩ := h.refines
  rw [← href.added_split]
  refine List.mem_append_right _ (List.mem_append.mpr ?_)
  rcases hhand with hbuffer | ⟨th, hflight⟩
  · exact Or.inr hbuffer
  · rw [href.flight_eq (List.ne_nil_of_mem hflight)]
    exact Or.inl hflight

variable (batchSize) in
/-- The process ends with everything stored that it had been given. -/
theorem exists_ended (hinv : Inv pg loads s) (hbounded : Bounded s.consumer)
    (hmain : s.consumer.main = .consuming ∨ ∃ message, s.consumer.main = .handling message) :
    ∃ p, Reaches (step pg loads) (Consumes batchSize) s { s with consumer := p } ∧ Settled p ∧
      (∀ trade, Stored pg s.consumer.bronze trade → Stored pg p.bronze trade) ∧
      ∀ trade ∈ s.consumer.buffer.added, Stored pg p.bronze trade := by
  obtain ⟨p, hway, -, hsettled⟩ := ConsumerMain.exists_finished loads hinv.consumer hbounded hmain
  have hp : ConsumerMain.Inv pg p := hway.keeps (fun _ _ _ h _ hstep => ConsumerMain.inv_step h hstep) hinv.consumer
  refine ⟨p, reaches_consumer hway, hsettled, fun trade hstored => ?_, fun trade hadded => ?_⟩
  · exact hway.keeps (I := fun p => Stored pg p.bronze trade)
      (fun _ _ _ h _ hstep => ConsumerMain.stored_step h hstep) hstored
  · refine (hp.drained hsettled).committed trade ?_
    refine hway.keeps (I := fun p => trade ∈ p.buffer.added) (fun p a p' h _ hstep => ?_) hadded
    rw [ConsumerMain.added_step hstep]
    exact List.mem_append_left _ h

/-- **The backlog can always be drained.** From every reachable state there is a way on, of the consumers alone and
on a database that takes the batches, to one where the queue is empty and the process settled: each message that
was in the queue is stored, or it is no JSON object and is in the dead-letter queue; and what the process that was
running had in hand is stored, unless it had begun its shutdown. -/
theorem backlog_drains {size : Int} (as : List (Action R Body))
    (hrun : Runs.run (step pg loads) (init size) as = some s) (batchSize : Int) :
    ∃ t, Reaches (step pg loads) (Consumes batchSize) s t ∧ t.traffic.contents QUEUE = [] ∧ Settled t.consumer ∧
      (∀ body ∈ s.traffic.contents QUEUE,
        (∃ trade, parse loads body = .ok trade ∧ Stored pg t.consumer.bronze trade) ∨
          (∃ e, parse loads body = .error e) ∧ body ∈ t.traffic.contents DLQ) ∧
      ((s.consumer.main = .consuming ∨ ∃ message, s.consumer.main = .handling message) →
        ∀ trade, InHand s.consumer trade → Stored pg t.consumer.bronze trade) := by
  have hinv := inv_run hrun
  have hbounded : Bounded s.consumer := Runs.invariant (I := fun s => Bounded s.consumer)
    (fun _ _ _ h hstep => bounded_consumer h hstep) ⟨∅, fun th hth => absurd rfl hth⟩ hrun
  obtain ⟨p, hway, hhand⟩ : ∃ p, Reaches (step pg loads) (Consumes batchSize) s { s with consumer := p } ∧
      ((s.consumer.main = .consuming ∨ ∃ message, s.consumer.main = .handling message) →
        ∀ trade, InHand s.consumer trade → Stored pg p.bronze trade) := by
    by_cases hmain : s.consumer.main = .consuming ∨ ∃ message, s.consumer.main = .handling message
    · obtain ⟨p, hway, -, -, hstored⟩ := exists_ended batchSize hinv hbounded hmain
      exact ⟨p, hway, fun _ trade htrade => hstored trade (added_of_inHand hinv.consumer htrade)⟩
    · exact ⟨s.consumer, .refl s, fun hother => absurd hother hmain⟩
  obtain ⟨u, hrestart, htraffic, hconsumer, hidle⟩ : ∃ u : State R Body,
      step pg loads { s with consumer := p } (.restart batchSize) = some u ∧ u.traffic = s.traffic ∧
      u.consumer = ConsumerMain.init batchSize p.bronze ∧ u.current = none := ⟨_, rfl, rfl, rfl, rfl⟩
  have hway := hway.trans (.one hrestart rfl)
  have hready : Ready pg loads u := by
    refine ⟨hway.keeps (fun _ _ _ h _ hstep => inv_step h hstep) hinv, hidle, ?_, ?_⟩
    · rw [hconsumer]
      rfl
    · rw [hconsumer]
      exact fun th => rfl
  obtain ⟨v, hway', hv, honward, hempty, htaken⟩ := exists_empty batchSize _ hready rfl
  obtain ⟨p', hway'', hsettled, hstored, hadded⟩ := exists_ended batchSize hv.inv
    ⟨∅, fun th hth => absurd (hv.quiet th) hth⟩ (Or.inl hv.consuming)
  rw [htraffic] at htaken
  refine ⟨_, hway.trans (hway'.trans hway''), hempty, hsettled, fun body hbody => ?_, fun hmain trade htrade => ?_⟩
  · rcases htaken body hbody with ⟨trade, hparse, hmem⟩ | hdead
    · exact Or.inl ⟨trade, hparse, hadded trade hmem⟩
    · exact Or.inr hdead
  · refine hstored trade (honward.stored trade ?_)
    rw [hconsumer]
    exact hhand hmain trade htrade

/-- A batch fails with one message acknowledged and another one not. -/
def troubledRun : List (Action Bool String) :=
  [.setup (.start true), .setup (.declare true), .setup (.declare true), .setup (.declare true),
    .setup (.declare true), .setup (.declare true), .call "a", .attempt .answered, .deliver 0, .ack 0,
    .call "b", .attempt .answered, .deliver 0, .consumer (.claim (.caller ())),
    .consumer (.insertRaises (.caller ()))]

theorem backlog_drains_troubledRun : ∃ s,
    Runs.run (step offeredPostgres sampleLoads) (init 2) troubledRun = some s ∧
    s.traffic.contents QUEUE = ["b"] ∧ (s.consumer.buffer.pc (.caller ())).batch.length = 2 ∧
    ∃ t, Reaches (step offeredPostgres sampleLoads) (Consumes 200) s t ∧ t.traffic.contents QUEUE = [] ∧
      Settled t.consumer ∧
      (∀ body ∈ s.traffic.contents QUEUE,
        (∃ trade, parse sampleLoads body = .ok trade ∧ Stored offeredPostgres t.consumer.bronze trade) ∨
          (∃ e, parse sampleLoads body = .error e) ∧ body ∈ t.traffic.contents DLQ) ∧
      ((s.consumer.main = .consuming ∨ ∃ message, s.consumer.main = .handling message) →
        ∀ trade, InHand s.consumer trade → Stored offeredPostgres t.consumer.bronze trade) := by
  obtain ⟨s, hrun, hqueue, hbatch⟩ : ∃ s, Runs.run (step offeredPostgres sampleLoads) (init 2) troubledRun = some s ∧
      s.traffic.contents QUEUE = ["b"] ∧ (s.consumer.buffer.pc (.caller ())).batch.length = 2 := ⟨_, rfl, rfl, rfl⟩
  exact ⟨s, hrun, hqueue, hbatch, backlog_drains troubledRun hrun 200⟩

end CryptoLakehouse.Ingestion
