import CryptoLakehouse.InfraTraffic
import CryptoLakehouse.PipelineEndToEnd

/-! The producer's publisher, the broker and the consumer as `consumer/main.py` wires it, in one: the publisher
and the runs of the setup on the one side of the queue, on the other one consumer process after the other, each
of which may end anywhere. A delivery that waits in the client of a consumer counts as still in the queue. -/

namespace CryptoLakehouse.Ingestion

open Bootstrap (QUEUE DLQ)
open Broker (Held)
open ConsumerMain (parse Settled)

variable {R Body : Type}

/-- `current` is the delivery that `on_message` has been called with, until it is settled; `ended` has the
processes that are over, as they were at their end. -/
structure State (R Body : Type) where
  traffic : Traffic.State R Body
  consumer : ConsumerMain.State Body
  current : Option Body
  ended : List (ConsumerMain.State Body)

inductive Action (R Body : Type) where
  | setup (a : Provision.Action R)
  | call (message : Body)
  | attempt (fate : Traffic.Fate)
  | disconnect
  | expire (i : Nat)
  | requeue (i : Nat)
  | deliver (i : Nat)
  | ack (i : Nat)
  | nack (i : Nat)
  | consumer (a : ConsumerMain.Action Body)
  | restart (batchSize : Int)

def init (batchSize : Int) : State R Body := ⟨Traffic.init, ConsumerMain.init batchSize [], none, []⟩

/-- A step of the consumer that neither takes nor settles a delivery. -/
def inside : ConsumerMain.Action Body → Bool
  | .deliver _ | .ack => false
  | _ => true

section Code

variable [DecidableEq R] [DecidableEq Body] (pg : Postgres) (loads : Body → Except Exn Json)

/-- The producer's side, and the limits of the queue. -/
def State.onTraffic (s : State R Body) (a : Traffic.Action R Body) : Option (State R Body) :=
  (Traffic.step s.traffic a).map fun traffic => { s with traffic := traffic }

/-- The consumer's side. -/
def State.onConsumer (s : State R Body) (a : ConsumerMain.Action Body) : Option (State R Body) :=
  (ConsumerMain.step pg loads s.consumer a).map fun consumer => { s with consumer := consumer }

def step (s : State R Body) : Action R Body → Option (State R Body)
  | .setup a => s.onTraffic (.setup a)
  | .call message => s.onTraffic (.call message)
  | .attempt fate => s.onTraffic (.attempt fate)
  | .disconnect => s.onTraffic .disconnect
  | .expire i => s.onTraffic (.broker (.expire i))
  | .requeue i => s.onTraffic (.broker (.requeue i))
  | .deliver i =>
      match s.current, s.traffic.broker.held[i]? with
      | none, some h => (s.onTraffic (.broker (.deliver i))).bind fun t =>
          ({ t with current := some h.body } : State R Body).onConsumer pg loads (.deliver h.body)
      | _, _ => none
  | .ack i =>
      match s.traffic.broker.held[i]? with
      | some h =>
          if s.current = some h.body then
            (s.onTraffic (.broker (.ack i))).bind fun t =>
              ({ t with current := none } : State R Body).onConsumer pg loads .ack
          else none
      | none => none
  -- `basic_nack` for a message that is no JSON object
  | .nack i =>
      match s.traffic.broker.held[i]? with
      | some h =>
          match parse loads h.body with
          | .error _ =>
              if s.current = some h.body then
                (s.onTraffic (.broker (.reject i))).map fun t => { t with current := none }
              else none
          | .ok _ => none
      | none => none
  | .consumer a => if inside a then s.onConsumer pg loads a else none
  | .restart batchSize => some { s with
      consumer := ConsumerMain.init batchSize s.consumer.bronze
      current := none
      ended := s.ended ++ [s.consumer] }

/-- What a step is made of: steps of the one side, of the other, of both, or the end of a process. -/
inductive Transition (s : State R Body) : Action R Body → State R Body → Prop where
  | traffic (a : Action R Body) (b : Traffic.Action R Body) (traffic : Traffic.State R Body)
      (hack : ∀ i, b ≠ .broker (.ack i)) (hcall : ∀ message, b = .call message → a = .call message)
      (htraffic : Traffic.step s.traffic b = some traffic) : Transition s a { s with traffic := traffic }
  | deliver (i : Nat) (h : Held String String Body) (traffic : Traffic.State R Body)
      (consumer : ConsumerMain.State Body) (hi : s.traffic.broker.held[i]? = some h)
      (htraffic : Traffic.step s.traffic (.broker (.deliver i)) = some traffic)
      (hconsumer : ConsumerMain.step pg loads s.consumer (.deliver h.body) = some consumer) :
      Transition s (.deliver i) { s with traffic := traffic, consumer := consumer, current := some h.body }
  | ack (i : Nat) (h : Held String String Body) (traffic : Traffic.State R Body)
      (consumer : ConsumerMain.State Body) (hi : s.traffic.broker.held[i]? = some h)
      (hcurrent : s.current = some h.body)
      (htraffic : Traffic.step s.traffic (.broker (.ack i)) = some traffic)
      (hconsumer : ConsumerMain.step pg loads s.consumer .ack = some consumer) :
      Transition s (.ack i) { s with traffic := traffic, consumer := consumer, current := none }
  | nack (i : Nat) (traffic : Traffic.State R Body)
      (htraffic : Traffic.step s.traffic (.broker (.reject i)) = some traffic) :
      Transition s (.nack i) { s with traffic := traffic, current := none }
  | consumer (a : ConsumerMain.Action Body) (consumer : ConsumerMain.State Body) (hinside : inside a = true)
      (hconsumer : ConsumerMain.step pg loads s.consumer a = some consumer) :
      Transition s (.consumer a) { s with consumer := consumer }
  | restart (batchSize : Int) : Transition s (.restart batchSize) { s with
      consumer := ConsumerMain.init batchSize s.consumer.bronze
      current := none
      ended := s.ended ++ [s.consumer] }

variable {pg loads} {s t : State R Body} {a : Action R Body}

omit [DecidableEq Body] in
theorem onTraffic_eq_some {b : Traffic.Action R Body} (h : s.onTraffic b = some t) :
    ∃ traffic, Traffic.step s.traffic b = some traffic ∧ t = { s with traffic := traffic } := by
  obtain ⟨traffic, htraffic, rfl⟩ := Option.map_eq_some_iff.mp h
  exact ⟨traffic, htraffic, rfl⟩

theorem transition_of_step (hstep : step pg loads s a = some t) : Transition pg loads s a t := by
  have hone : ∀ {b}, (∀ i, b ≠ .broker (.ack i)) → (∀ message, b = .call message → a = .call message) →
      s.onTraffic b = some t → Transition pg loads s a t := by
    intro b hack hcall h
    obtain ⟨traffic, htraffic, rfl⟩ := onTraffic_eq_some h
    exact .traffic a b traffic hack hcall htraffic
  cases a with
  | setup b | call message | attempt fate | disconnect | expire i | requeue i => exact hone (by simp) (by simp) hstep
  | deliver i =>
      simp only [step] at hstep
      split at hstep
      · rename_i h hidle hi
        obtain ⟨u, hu, hrest⟩ := Option.bind_eq_some_iff.mp hstep
        obtain ⟨traffic, htraffic, rfl⟩ := onTraffic_eq_some hu
        obtain ⟨consumer, hconsumer, rfl⟩ := Option.map_eq_some_iff.mp hrest
        exact .deliver i h traffic consumer hi htraffic hconsumer
      · cases hstep
  | ack i =>
      simp only [step] at hstep
      split at hstep
      · rename_i h hi
        split_ifs at hstep with hcurrent
        obtain ⟨u, hu, hrest⟩ := Option.bind_eq_some_iff.mp hstep
        obtain ⟨traffic, htraffic, rfl⟩ := onTraffic_eq_some hu
        obtain ⟨consumer, hconsumer, rfl⟩ := Option.map_eq_some_iff.mp hrest
        exact .ack i h traffic consumer hi hcurrent htraffic hconsumer
      · cases hstep
  | nack i =>
      simp only [step] at hstep
      split at hstep
      · split at hstep
        · split_ifs at hstep
          obtain ⟨u, hu, rfl⟩ := Option.map_eq_some_iff.mp hstep
          obtain ⟨traffic, htraffic, rfl⟩ := onTraffic_eq_some hu
          exact .nack i traffic htraffic
        · cases hstep
      · cases hstep
  | consumer b =>
      simp only [step] at hstep
      split_ifs at hstep with hinside
      obtain ⟨consumer, hconsumer, rfl⟩ := Option.map_eq_some_iff.mp hstep
      exact .consumer b consumer hinside hconsumer
  | restart batchSize =>
      cases hstep
      exact .restart batchSize

end Code

section Invariant

variable [DecidableEq R] [DecidableEq Body] {pg : Postgres} {loads : Body → Except Exn Json}
  {s t : State R Body} {a : Action R Body}

/-- The trade is in the buffer of the process or in the hands of one of its flushes. -/
def InHand (p : ConsumerMain.State Body) (trade : Dict) : Prop :=
  trade ∈ p.buffer.obj.buffer ∨ ∃ th, trade ∈ (p.buffer.pc th).batch

variable (pg) in
/-- Where a trade is that the broker has an ACK for. -/
def Kept (s : State R Body) (trade : Dict) : Prop :=
  Stored pg s.consumer.bronze trade ∨ trade ∈ s.consumer.buffer.added ∨ ∃ p ∈ s.ended, InHand p trade

variable (pg loads) in
structure Inv (s : State R Body) : Prop where
  traffic : Traffic.Inv s.traffic
  publisher : Traffic.Refines s.traffic
  consumer : ConsumerMain.Inv pg s.consumer
  current : ∀ body message, s.current = some body → s.consumer.main = .handling message →
    parse loads body = .ok message
  acked : ∀ body ∈ s.traffic.broker.acked, ∃ trade, parse loads body = .ok trade ∧ Kept pg s trade

omit [DecidableEq R] [DecidableEq Body] in
/-- What was added to the buffer is stored, or still in hand. -/
theorem stored_or_inHand {p : ConsumerMain.State Body} (h : ConsumerMain.Inv pg p) {trade : Dict}
    (htrade : trade ∈ p.buffer.added) : Stored pg p.bronze trade ∨ InHand p trade := by
  obtain ⟨q, holder, href⟩ := h.refines
  rw [← href.added_split, List.mem_append, List.mem_append] at htrade
  rcases htrade with hflushed | hflight | hbuffer
  · obtain ⟨batch, hbatch, hmem⟩ := List.mem_flatten.mp hflushed
    exact Or.inl (h.committed batch hbatch trade hmem)
  · cases holder with
    | none => cases hflight
    | some th => exact Or.inr (Or.inr ⟨th, hflight⟩)
  · exact Or.inr (Or.inl hbuffer)

omit [DecidableEq R] [DecidableEq Body] in
/-- Only a delivery brings a message into `on_message`. -/
theorem handling_of_inside {p p' : ConsumerMain.State Body} {b : ConsumerMain.Action Body} {message : Dict}
    (hstep : ConsumerMain.step pg loads p b = some p') (hinside : inside b = true)
    (hmain : p'.main = .handling message) : p.main = .handling message := by
  cases b with
  | deliver body | ack => cases hinside
  | shutdown =>
      obtain ⟨buffer, -, rfl⟩ := ConsumerMain.onBuffer_eq_some.mp (ConsumerMain.onBuffer_of_shutdown pg loads hstep)
      cases hmain
  | stop =>
      simp only [ConsumerMain.step] at hstep
      split at hstep
      · obtain ⟨buffer, -, rfl⟩ := ConsumerMain.onBuffer_eq_some.mp hstep
        cases hmain
      · cases hstep
  | close | disconnect =>
      simp only [ConsumerMain.step] at hstep
      split at hstep <;> cases hstep
      cases hmain
  | expire k | claim th | insertReturns th receivedAt | insertRaises th | commitUnseen th receivedAt | giveBack th
  | release th | resetTimer th => exact (ConsumerMain.inside_step rfl hstep).2 ▸ hmain

omit [DecidableEq R] [DecidableEq Body] in
theorem Kept.consumer {trade : Dict} (h : Kept pg s trade) {b : ConsumerMain.Action Body}
    {consumer : ConsumerMain.State Body} (hstep : ConsumerMain.step pg loads s.consumer b = some consumer)
    (traffic : Traffic.State R Body) (current : Option Body) :
    Kept pg ⟨traffic, consumer, current, s.ended⟩ trade := by
  rcases h with hstored | hadded | hended
  · exact Or.inl (ConsumerMain.stored_step hstored hstep)
  · refine Or.inr (Or.inl ?_)
    rw [ConsumerMain.added_step hstep]
    exact List.mem_append_left _ hadded
  · exact Or.inr (Or.inr hended)

omit [DecidableEq Body] in
/-- Only an ACK acknowledges. -/
theorem acked_traffic {m m' : Traffic.State R Body} {b : Traffic.Action R Body} (hstep : Traffic.step m b = some m')
    (hack : ∀ i, b ≠ .broker (.ack i)) : m'.broker.acked = m.broker.acked := by
  cases Traffic.transition_of_step hstep with
  | setup b p hp => rfl
  | call message hidle => rfl
  | disconnect hidle => rfl
  | broker b broker hdeliver hbroker =>
      rw [Broker.rules_step.acked_step hbroker]
      cases b with
      | ack i => exact absurd rfl (hack i)
      | _ => exact List.append_nil _
  | attempt fate message replies hcall =>
      rw [Traffic.broker_reply]
      split_ifs <;> rfl

omit [DecidableEq Body] in
theorem acked_ack {m m' : Traffic.State R Body} {i : Nat} {held : Held String String Body}
    (hi : m.broker.held[i]? = some held) (hstep : Traffic.step m (.broker (.ack i)) = some m') :
    m'.broker.acked = m.broker.acked ++ [held.body] := by
  obtain ⟨broker, hbroker, rfl⟩ := Option.map_eq_some_iff.mp hstep
  rw [Broker.rules_step.acked_step hbroker, Broker.State.acks, hi, Option.toList_some, List.map_singleton]

theorem inv_step (h : Inv pg loads s) (hstep : step pg loads s a = some t) : Inv pg loads t := by
  cases transition_of_step hstep with
  | traffic a b traffic hack hcall htraffic =>
      refine ⟨Traffic.inv_step h.traffic htraffic, Traffic.refines_step h.publisher htraffic, h.consumer, h.current,
        fun body hbody => ?_⟩
      exact h.acked body (acked_traffic htraffic hack ▸ hbody)
  | deliver i held traffic consumer hi htraffic hconsumer =>
      refine ⟨Traffic.inv_step h.traffic htraffic, Traffic.refines_step h.publisher htraffic,
        ConsumerMain.inv_step h.consumer hconsumer, fun body message hcurrent hmain => ?_, fun body hbody => ?_⟩
      · obtain rfl := Option.some.inj hcurrent
        simp only [ConsumerMain.step] at hconsumer
        split at hconsumer
        · rename_i hconsuming
          split at hconsumer
          · cases hconsumer
            cases hconsuming.symm.trans hmain
          · rename_i read hread
            obtain ⟨buffer, -, rfl⟩ := ConsumerMain.onBuffer_eq_some.mp hconsumer
            cases hmain
            exact hread
        · cases hconsumer
      · obtain ⟨trade, hparse, hkept⟩ := h.acked body (acked_traffic htraffic (by simp) ▸ hbody)
        exact ⟨trade, hparse, hkept.consumer hconsumer _ _⟩
  | ack i held traffic consumer hi hcurrent htraffic hconsumer =>
      refine ⟨Traffic.inv_step h.traffic htraffic, Traffic.refines_step h.publisher htraffic,
        ConsumerMain.inv_step h.consumer hconsumer, fun body message hnone => (by cases hnone), fun body hbody => ?_⟩
      rw [acked_ack hi htraffic, List.mem_append, List.mem_singleton] at hbody
      rcases hbody with hold | rfl
      · obtain ⟨trade, hparse, hkept⟩ := h.acked body hold
        exact ⟨trade, hparse, hkept.consumer hconsumer _ _⟩
      · obtain ⟨message, hmain⟩ : ∃ message, s.consumer.main = .handling message := by
          simp only [ConsumerMain.step] at hconsumer
          split at hconsumer
          · exact ⟨_, ‹_›⟩
          · cases hconsumer
        have hadded : Kept pg s message := Or.inr (Or.inl (List.mem_of_getLast? (h.consumer.last_added message hmain)))
        exact ⟨message, h.current _ _ hcurrent hmain, hadded.consumer hconsumer _ _⟩
  | nack i traffic htraffic =>
      refine ⟨Traffic.inv_step h.traffic htraffic, Traffic.refines_step h.publisher htraffic, h.consumer,
        fun body message hnone => (by cases hnone), fun body hbody => ?_⟩
      exact h.acked body (acked_traffic htraffic (by simp) ▸ hbody)
  | consumer b consumer hinside hconsumer =>
      refine ⟨h.traffic, h.publisher, ConsumerMain.inv_step h.consumer hconsumer, fun body message hcurrent hmain => ?_,
        fun body hbody => ?_⟩
      · exact h.current body message hcurrent (handling_of_inside hconsumer hinside hmain)
      · obtain ⟨trade, hparse, hkept⟩ := h.acked body hbody
        exact ⟨trade, hparse, hkept.consumer hconsumer _ _⟩
  | restart batchSize =>
      refine ⟨h.traffic, h.publisher, ConsumerMain.inv_init batchSize _,
        fun body message hcurrent => (by cases hcurrent), fun body hbody => ?_⟩
      obtain ⟨trade, hparse, hstored | hadded | ⟨p, hp, hhand⟩⟩ := h.acked body hbody
      · exact ⟨trade, hparse, Or.inl hstored⟩
      · rcases stored_or_inHand h.consumer hadded with hstored | hhand
        · exact ⟨trade, hparse, Or.inl hstored⟩
        · exact ⟨trade, hparse, Or.inr (Or.inr ⟨s.consumer, by simp, hhand⟩)⟩
      · exact ⟨trade, hparse, Or.inr (Or.inr ⟨p, List.mem_append_left _ hp, hhand⟩)⟩

omit [DecidableEq R] [DecidableEq Body] in
theorem inv_init (batchSize : Int) : Inv pg loads (init batchSize : State R Body) where
  traffic := Traffic.inv_init
  publisher := Traffic.refines_init
  consumer := ConsumerMain.inv_init batchSize []
  current _ _ hnone := by cases hnone
  acked body hbody := absurd hbody List.not_mem_nil

theorem inv_run {batchSize : Int} {as : List (Action R Body)}
    (hrun : Runs.run (step pg loads) (init batchSize) as = some s) : Inv pg loads s :=
  Runs.invariant (fun _ _ _ h hstep => inv_step h hstep) (inv_init batchSize) hrun

end Invariant

section Main

variable [DecidableEq R] [DecidableEq Body] {pg : Postgres} {loads : Body → Except Exn Json} {s : State R Body}

omit [DecidableEq R] [DecidableEq Body] in
theorem not_inHand_of_settled {p : ConsumerMain.State Body} (h : Settled p) (trade : Dict) : ¬InHand p trade := by
  rintro (hbuffer | ⟨th, hflight⟩)
  · exact absurd (h.1 ▸ hbuffer) List.not_mem_nil
  · exact absurd (h.2 th ▸ hflight) List.not_mem_nil

omit [DecidableEq R] [DecidableEq Body] in
/-- What is kept is stored, but for what a process has in hand, or had in hand at its end. -/
theorem Inv.stored_or_inHand (h : Inv pg loads s) {trade : Dict} (hkept : Kept pg s trade) :
    Stored pg s.consumer.bronze trade ∨ ∃ p ∈ s.consumer :: s.ended, InHand p trade := by
  rcases hkept with hstored | hadded | ⟨p, hp, hhand⟩
  · exact Or.inl hstored
  · exact (Ingestion.stored_or_inHand h.consumer hadded).imp_right fun hhand =>
      ⟨s.consumer, List.mem_cons_self, hhand⟩
  · exact Or.inr ⟨p, List.mem_cons_of_mem _ hp, hhand⟩

/-- **From a `publish` that returned `True` to bronze.** In every run, with the setup at work, publishes whose
confirms get lost, deliveries that come again, flushes that fail and processes that end anywhere, such a
message is in the queue, in the dead-letter queue, or a trade that is stored or in the hands of a process; a
trade can be missing only if a process ended with it in hand. -/
theorem published_is_kept {batchSize : Int} (as : List (Action R Body))
    (hrun : Runs.run (step pg loads) (init batchSize) as = some s) {body : Body}
    (hbody : body ∈ Publisher.returning true (Publisher.init.results s.traffic.events)) :
    body ∈ s.traffic.contents QUEUE ∨ body ∈ s.traffic.contents DLQ ∨
      ∃ trade, parse loads body = .ok trade ∧
        (Stored pg s.consumer.bronze trade ∨ ∃ p ∈ s.consumer :: s.ended, InHand p trade) ∧
        ((∀ p ∈ s.consumer :: s.ended, Settled p) → Stored pg s.consumer.bronze trade) := by
  have h := inv_run hrun
  have hheld := (h.traffic.published h.publisher).subset hbody
  rw [List.mem_append, List.mem_append, or_assoc] at hheld
  refine hheld.imp_right (Or.imp_right fun hacked => ?_)
  obtain ⟨trade, hparse, hkept⟩ := h.acked body hacked
  have hplace := h.stored_or_inHand hkept
  refine ⟨trade, hparse, hplace, fun hsettled => ?_⟩
  rcases hplace with hstored | ⟨p, hp, hhand⟩
  · exact hstored
  · exact absurd hhand (not_inHand_of_settled (hsettled p hp) trade)

/-- A process ends with an acknowledged trade in its buffer, and the next one stores another. -/
def sampleRun : List (Action Bool String) :=
  [.setup (.start true), .setup (.declare true), .setup (.declare true), .setup (.declare true),
    .setup (.declare true), .setup (.declare true), .call "a", .attempt .answered, .deliver 0, .ack 0, .restart 1,
    .call "b", .attempt .answered, .deliver 0, .consumer (.claim (.caller ())),
    .consumer (.insertReturns (.caller ()) 5), .consumer (.release (.caller ())),
    .consumer (.resetTimer (.caller ())), .ack 0]

def sampleLoads (body : String) : Except Exn Json := .ok (.obj [("trade_id", .str body)])

theorem published_is_kept_sample : ∃ s, Runs.run (step offeredPostgres sampleLoads) (init 2) sampleRun = some s ∧
    s.consumer.bronze.map (RawTrade.tradeId offeredPostgres) = [some "b"] ∧
    ∀ body ∈ ["a", "b"], body ∈ s.traffic.contents QUEUE ∨ body ∈ s.traffic.contents DLQ ∨
      ∃ trade, parse sampleLoads body = .ok trade ∧
        (Stored offeredPostgres s.consumer.bronze trade ∨ ∃ p ∈ s.consumer :: s.ended, InHand p trade) ∧
        ((∀ p ∈ s.consumer :: s.ended, Settled p) → Stored offeredPostgres s.consumer.bronze trade) := by
  obtain ⟨s, hrun, hreturned, hbronze⟩ : ∃ s,
      Runs.run (step offeredPostgres sampleLoads) (init 2) sampleRun = some s ∧
        Publisher.returning true (Publisher.init.results s.traffic.events) = ["a", "b"] ∧
        s.consumer.bronze.map (RawTrade.tradeId offeredPostgres) = [some "b"] :=
    ⟨_, rfl, rfl, rfl⟩
  exact ⟨s, hrun, hbronze, fun body hbody => published_is_kept sampleRun hrun (hreturned ▸ hbody)⟩

end Main

end CryptoLakehouse.Ingestion
