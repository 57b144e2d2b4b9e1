import CryptoLakehouse.InfraBootstrap
import CryptoLakehouse.ProducerAccounting

/-! The broker while `infra/rabbitmq_setup.py` is at work: any number of its runs, each stopped and begun
again at will, beside a `RabbitMQPublisher` and consumers of the queue. The environment variables of the
clients name the exchange, the key and the queue that the setup declares, as `.env.example` does. -/

namespace CryptoLakehouse.Traffic

open Bootstrap
open Broker (Declaration Held)

variable {R M : Type} [DecidableEq R]

/-- `call` is a `publish` in progress with the replies to its attempts so far. `accepted` (what the broker
has put into the queue for the publisher) and `events` (the calls of `publish` that are over) are histories. -/
structure State (R M : Type) where
  broker : Broker.State String String M
  progress : R → Option Nat
  refusals : List R
  publisher : Publisher M
  call : Option (M × List Reply)
  accepted : List M
  events : List (PublisherEvent M)

/-- What becomes of a `basic_publish` on its way; a message whose confirm is lost may have arrived. -/
inductive Fate where
  | answered
  | nack
  | lost (arrived : Bool)

inductive Action (R M : Type) where
  | setup (a : Provision.Action R)
  | broker (a : Broker.Action)
  | call (message : M)
  | attempt (fate : Fate)
  | disconnect

def init : State R M := ⟨Broker.init, fun _ => none, [], Publisher.init, none, [], []⟩

section Code

/-- The runs of the setup. -/
def State.provision (s : State R M) : Provision.State (Declaration String String) R :=
  ⟨s.broker.topology, s.progress, s.refusals⟩

def State.setProvision (s : State R M) (p : Provision.State (Declaration String String) R) : State R M :=
  { s with broker := { s.broker with topology := p.made }, progress := p.progress, refusals := p.refusals }

/-- What is relied on of confirms: the answer to a publish with `mandatory=True` says whether the message is in a
queue; a missing exchange closes the channel. -/
def answer (topology : Topology) : Reply :=
  if topology.any (Declaration.isExchange EXCHANGE) = false then .lost
  else if Broker.route topology EXCHANGE ROUTING_KEY = [] then .unroutable
  else .confirm

def Fate.reply (topology : Topology) : Fate → Reply
  | .answered => answer topology
  | .nack => .nack
  | .lost _ => .lost

def Fate.arrives : Fate → Bool
  | .answered => true
  | .nack => false
  | .lost arrived => arrived

/-- The broker's side of a publish. -/
def State.arrive (s : State R M) (message : M) : State R M :=
  { s with
    broker := s.broker.publish EXCHANGE ROUTING_KEY message
    accepted := s.accepted ++
      (Broker.route s.broker.topology EXCHANGE ROUTING_KEY).map fun _ => message }

/-- The replies to the attempts `1`, `2`, … of a call. -/
def nthReply (replies : List Reply) (attempt : Nat) : Reply := replies.getD (attempt - 1) .nack

/-- The publisher's side: the call is over, or its next attempt follows. -/
def State.reply (s : State R M) (message : M) (replies : List Reply) : Except AMQPError Unit × Publisher M → State R M
  | (.ok (), p) =>
      { s with publisher := p, call := none, events := s.events ++ [.publish message (nthReply replies)] }
  | (.error _, p) =>
      if replies.length < MAX_ATTEMPTS then { s with publisher := p, call := some (message, replies) }
      else { s with
        publisher := { p with retryQueue := p.retryQueue.append message }
        call := none
        events := s.events ++ [.publish message (nthReply replies)] }

def step (s : State R M) : Action R M → Option (State R M)
  | .setup a => (Provision.step Broker.refuses declareTopology s.provision a).map s.setProvision
  -- consumers subscribe to `QUEUE` alone
  | .broker (.deliver i) =>
      if (s.broker.held[i]?).any fun h => h.queue = QUEUE then
        (Broker.step s.broker (.deliver i)).map fun broker => { s with broker := broker }
      else none
  | .broker a => (Broker.step s.broker a).map fun broker => { s with broker := broker }
  | .call message =>
      match s.call with
      | none => some { s with call := some (message, []) }
      | some _ => none
  | .attempt fate =>
      match s.call with
      | none => none
      | some (message, replies) =>
          let reply := fate.reply s.broker.topology
          let arrived := if s.publisher.isOpen && fate.arrives then s.arrive message else s
          some (arrived.reply message (replies ++ [reply]) (Publisher.basicPublish reply message s.publisher))
  | .disconnect =>
      match s.call with
      | none => some { s with publisher := s.publisher.handle .disconnect, events := s.events ++ [.disconnect] }
      | some _ => none

/-- The messages in a queue. -/
def State.contents (s : State R M) (queue : String) : List M :=
  (s.broker.held.filter fun h => h.queue = queue).map Held.body

/-- The steps with what each is made from. -/
inductive Transition (s : State R M) : Action R M → State R M → Prop where
  | setup (a : Provision.Action R) (p : Provision.State (Declaration String String) R)
      (hp : Provision.step Broker.refuses declareTopology s.provision a = some p) :
      Transition s (.setup a) (s.setProvision p)
  | broker (a : Broker.Action) (broker : Broker.State String String M)
      (hdeliver : ∀ i h, a = .deliver i → s.broker.held[i]? = some h → h.queue = QUEUE)
      (hbroker : Broker.step s.broker a = some broker) :
      Transition s (.broker a) { s with broker := broker }
  | call (message : M) (hidle : s.call = none) :
      Transition s (.call message) { s with call := some (message, []) }
  | attempt (fate : Fate) (message : M) (replies : List Reply) (hcall : s.call = some (message, replies)) :
      Transition s (.attempt fate)
        ((if s.publisher.isOpen && fate.arrives then s.arrive message else s).reply message
          (replies ++ [fate.reply s.broker.topology])
          (Publisher.basicPublish (fate.reply s.broker.topology) message s.publisher))
  | disconnect (hidle : s.call = none) : Transition s .disconnect
      { s with publisher := s.publisher.handle .disconnect, events := s.events ++ [.disconnect] }

end Code

section Steps

variable {s t : State R M} {a : Action R M}

theorem transition_of_step (hstep : step s a = some t) : Transition s a t := by
  cases a with
  | setup a =>
      obtain ⟨p, hp, rfl⟩ := Option.map_eq_some_iff.mp hstep
      exact .setup a p hp
  | broker a =>
      cases a with
      | deliver i =>
          simp only [step] at hstep
          split_ifs at hstep with hqueue
          obtain ⟨broker, hbroker, rfl⟩ := Option.map_eq_some_iff.mp hstep
          refine .broker _ broker (fun j m hj hm => ?_) hbroker
          cases hj
          simpa [hm] using hqueue
      | ack i | reject i | expire i | requeue i =>
          obtain ⟨broker, hbroker, rfl⟩ := Option.map_eq_some_iff.mp hstep
          exact .broker _ broker (by simp) hbroker
  | call message =>
      simp only [step] at hstep
      split at hstep <;> cases hstep
      exact .call message ‹_›
  | attempt fate =>
      simp only [step] at hstep
      split at hstep <;> cases hstep
      exact .attempt fate _ _ ‹_›
  | disconnect =>
      simp only [step] at hstep
      split at hstep <;> cases hstep
      exact .disconnect ‹_›

omit [DecidableEq R] in
/-- The publisher's side leaves the broker alone. -/
theorem broker_reply (s : State R M) (message : M) (replies : List Reply)
    (result : Except AMQPError Unit × Publisher M) : (s.reply message replies result).broker = s.broker := by
  unfold State.reply
  split
  · rfl
  · split_ifs <;> rfl

end Steps

section Topology

/-- A publish is put into the queue once everything is declared, and into none before. -/
theorem route_of_begun {topology : Topology} (h : Begun topology) :
    Broker.route topology EXCHANGE ROUTING_KEY = [] ∨
      topology = declareTopology ∧ Broker.route topology EXCHANGE ROUTING_KEY = [QUEUE] := by
  obtain ⟨m, rfl⟩ := h
  by_cases hm : m < 5
  · interval_cases m <;> exact Or.inl (by decide +kernel)
  · have htake : declareTopology.take m = declareTopology := List.take_of_length_le (not_lt.mp hm)
    exact Or.inr ⟨htake, by rw [htake]; decide +kernel⟩

theorem arguments_queue : Broker.arguments declareTopology QUEUE = some QUEUE_ARGS := by decide +kernel

theorem arguments_dlq : Broker.arguments declareTopology DLQ = some ⟨none, none, none, none, none⟩ := by
  decide +kernel

theorem route_dead : Broker.route declareTopology EXCHANGE DLQ_ROUTING_KEY = [DLQ] := by decide +kernel

/-- The queue's dead letters go to the dead-letter queue, whatever key they came with. -/
theorem deadLettersTo_queue (routingKey target : String) :
    Broker.DeadLettersTo declareTopology QUEUE target routingKey ↔ target = DLQ := by
  constructor
  · rintro ⟨args, exchange, hargs, hexchange, hroute⟩
    obtain rfl := Option.some.inj (arguments_queue.symm.trans hargs)
    obtain rfl := Option.some.inj hexchange
    have hdead : [DLQ] = [target] := route_dead.symm.trans hroute
    exact (List.cons.inj hdead).1.symm
  · rintro rfl
    exact ⟨QUEUE_ARGS, EXCHANGE, arguments_queue, rfl, route_dead⟩

theorem not_deadLettersTo_dlq (routingKey target : String) :
    ¬ Broker.DeadLettersTo declareTopology DLQ target routingKey := by
  rintro ⟨args, exchange, hargs, hexchange, -⟩
  obtain rfl := Option.some.inj (arguments_dlq.symm.trans hargs)
  cases hexchange

end Topology

/-- The setup is somewhere on its way, and what the publisher has had accepted is in the queue, in the
dead-letter queue, or acknowledged. -/
structure Inv (s : State R M) : Prop where
  setup : Provision.Inv declareTopology s.provision
  placed : ∀ h ∈ s.broker.held, h.queue = QUEUE ∨ h.queue = DLQ ∧ h.delivered = false
  built : s.accepted ≠ [] → s.broker.topology = declareTopology
  kept : s.broker.kept.Perm s.accepted
  discarded : s.broker.discarded = []
  confirmed : s.publisher.confirmed.Sublist s.accepted

section Invariant

variable {s t : State R M} {a : Action R M}

omit [DecidableEq R] in
theorem inv_init : Inv (init : State R M) where
  setup := Provision.inv_init
  placed _ hm := absurd hm List.not_mem_nil
  built hne := absurd rfl hne
  kept := List.Perm.refl _
  discarded := rfl
  confirmed := List.Sublist.refl _

omit [DecidableEq R] in
theorem Inv.begun (h : Inv s) : Begun s.broker.topology := ⟨_, h.setup.made⟩

omit [DecidableEq R] in
theorem Inv.built_of_mem (h : Inv s) {m : Held String String M} (hm : m ∈ s.broker.held) :
    s.broker.topology = declareTopology := by
  apply h.built
  have hkept : m.body ∈ s.broker.kept := List.mem_append_left _ (List.mem_map_of_mem hm)
  exact List.ne_nil_of_mem (h.kept.mem_iff.mp hkept)

omit [DecidableEq R] in
theorem Inv.safe (h : Inv s) : Broker.Safe s.broker := by
  intro m hm hgiven
  have htopology := h.built_of_mem hm
  rw [htopology]
  rcases h.placed m hm with hqueue | ⟨hqueue, hready⟩
  · rw [hqueue]
    exact ⟨DLQ, (deadLettersTo_queue _ _).mpr rfl⟩
  · have hlimit : s.broker.limitedAt m = false := by
      rw [Broker.State.limitedAt, htopology, hqueue, arguments_dlq]
      rfl
    simp [hready, hlimit] at hgiven

theorem Inv.setProvision (h : Inv s) {a : Provision.Action R}
    {p : Provision.State (Declaration String String) R}
    (hp : Provision.step Broker.refuses declareTopology s.provision a = some p) : Inv (s.setProvision p) where
  setup := Provision.inv_step feasible_declareTopology h.setup hp
  placed := h.placed
  built haccepted := by
    have hgrows := (Provision.made_isPrefix_step hp).length_le
    have hbuilt : s.provision.made = declareTopology := h.built haccepted
    rw [hbuilt] at hgrows
    have hmade := (Provision.inv_step feasible_declareTopology h.setup hp).made
    rw [List.take_of_length_le hgrows] at hmade
    exact hmade
  kept := h.kept
  discarded := h.discarded
  confirmed := h.confirmed

omit [DecidableEq R] in
theorem Inv.broker (h : Inv s) {a : Broker.Action} {broker : Broker.State String String M}
    (hdeliver : ∀ i m, a = .deliver i → s.broker.held[i]? = some m → m.queue = QUEUE)
    (hstep : Broker.step s.broker a = some broker) : Inv { s with broker := broker } := by
  have htopology := Broker.rules_step.topology_step hstep
  obtain ⟨hkept, hdiscarded⟩ := Broker.rules_step.step_kept h.safe hstep
  have hplaced : ∀ m ∈ broker.held, m.queue = QUEUE ∨ m.queue = DLQ ∧ m.delivered = false := by
    intro m hm
    rcases Broker.rules_step.mem_held_step h.safe hstep hm with ⟨m', hm', hqueue, -, hout⟩ | ⟨hready, m', hm', hto⟩
    · rw [← hqueue]
      refine (h.placed m' hm').imp_right fun ⟨hdlq, hready⟩ => ⟨hdlq, ?_⟩
      by_contra hdelivered
      rcases hout (Bool.eq_true_of_not_eq_false hdelivered) with htrue | ⟨i, ha, hi⟩
      · exact Bool.false_ne_true (hready.symm.trans htrue)
      · rw [hdeliver i m' ha hi] at hdlq
        exact absurd hdlq (by decide)
    · refine Or.inr ⟨?_, hready⟩
      rw [h.built_of_mem hm'] at hto
      rcases h.placed m' hm' with hqueue | ⟨hqueue, -⟩
      · rw [hqueue] at hto
        exact (deadLettersTo_queue _ _).mp hto
      · rw [hqueue] at hto
        exact absurd hto (not_deadLettersTo_dlq _ _)
  refine ⟨?_, hplaced, fun hne => htopology.trans (h.built hne), hkept.trans h.kept,
    hdiscarded.trans h.discarded, h.confirmed⟩
  have hsame : State.provision { s with broker := broker } = s.provision := by
    rw [State.provision, State.provision, htopology]
  rw [hsame]
  exact h.setup

omit [DecidableEq R] in
/-- What arrives is accepted at most once, in the queue. -/
theorem Inv.arrive (h : Inv s) (message : M) : Inv (s.arrive message) ∧
    (s.arrive message).accepted = s.accepted ++
      (Broker.route s.broker.topology EXCHANGE ROUTING_KEY).map fun _ => message := by
  refine ⟨?_, rfl⟩
  rcases route_of_begun h.begun with hnone | ⟨htopology, hroute⟩
  · have hsame : s.arrive message = s := by
      rw [State.arrive, Broker.State.publish, hnone, List.map_nil, List.map_nil, List.append_nil, List.append_nil]
    rw [hsame]
    exact h
  · have hheld : (s.arrive message).broker.held = s.broker.held ++ [⟨QUEUE, ROUTING_KEY, message, false⟩] := by
      rw [State.arrive, Broker.State.publish, hroute, List.map_singleton]
    have haccepted : (s.arrive message).accepted = s.accepted ++ [message] := by
      rw [State.arrive, hroute, List.map_singleton]
    refine ⟨h.setup, ?_, fun _ => htopology, ?_, h.discarded, ?_⟩
    · rw [hheld]
      intro m hm
      rcases List.mem_append.mp hm with hold | hnew
      · exact h.placed m hold
      · obtain rfl := List.mem_singleton.mp hnew
        exact Or.inl rfl
    · rw [haccepted, Broker.State.kept, hheld, List.map_append, List.map_singleton]
      calc s.broker.held.map Held.body ++ [message] ++ s.broker.acked
          = s.broker.held.map Held.body ++ message :: s.broker.acked := by simp
        List.Perm _ (message :: s.broker.kept) := List.perm_middle
        List.Perm _ (message :: s.accepted) := h.kept.cons message
        List.Perm _ (s.accepted ++ [message]) := (List.perm_append_singleton _ _).symm
    · rw [haccepted]
      exact h.confirmed.trans (List.sublist_append_left _ _)

omit [DecidableEq R] in
/-- The publisher's own part of a step. -/
theorem Inv.publisher (h : Inv s) {p : Publisher M} (hconfirmed : p.confirmed.Sublist s.accepted)
    (call : Option (M × List Reply)) (events : List (PublisherEvent M)) :
    Inv { s with publisher := p, call := call, events := events } :=
  ⟨h.setup, h.placed, h.built, h.kept, h.discarded, hconfirmed⟩

omit [DecidableEq R] in
theorem Inv.failed (h : Inv s) (e : AMQPError) {p : Publisher M} (hconfirmed : p.confirmed.Sublist s.accepted)
    (message : M) (replies : List Reply) : Inv (s.reply message replies (.error e, p)) := by
  rw [State.reply]
  split_ifs
  · exact h.publisher hconfirmed _ _
  · exact h.publisher (p := { p with retryQueue := p.retryQueue.append message }) hconfirmed _ _

theorem basicPublish_confirmed (reply : Reply) (message : M) (p : Publisher M) :
    (p.isOpen = true ∧ reply = .confirm ∧ ∃ p', Publisher.basicPublish reply message p = (.ok (), p') ∧
        p'.confirmed = p.confirmed ++ [message]) ∨
      ∃ e p', Publisher.basicPublish reply message p = (.error e, p') ∧ p'.confirmed = p.confirmed := by
  obtain ⟨retryQueue, isOpen, confirmed, offers⟩ := p
  cases isOpen with
  | false => exact Or.inr ⟨_, _, rfl, rfl⟩
  | true =>
      cases reply with
      | confirm => exact Or.inl ⟨rfl, rfl, _, rfl, rfl⟩
      | unroutable | nack | lost => exact Or.inr ⟨_, _, rfl, rfl⟩

theorem confirmed_of_error {reply : Reply} {message : M} {p p' : Publisher M} {e : AMQPError}
    (h : Publisher.basicPublish reply message p = (.error e, p')) : p'.confirmed = p.confirmed := by
  rcases basicPublish_confirmed reply message p with ⟨-, -, _, heq, -⟩ | ⟨_, _, heq, hsame⟩
  · cases h.symm.trans heq
  · cases h.symm.trans heq
    exact hsame

omit [DecidableEq R] in
/-- A confirm is the answer to a message that has been put into the queue. -/
theorem route_of_confirm (h : Inv s) {fate : Fate} (hreply : fate.reply s.broker.topology = .confirm) :
    fate.arrives = true ∧ Broker.route s.broker.topology EXCHANGE ROUTING_KEY = [QUEUE] := by
  cases fate with
  | nack | lost => cases hreply
  | answered =>
      refine ⟨rfl, ?_⟩
      rcases route_of_begun h.begun with hnone | ⟨-, hroute⟩
      · simp only [Fate.reply, answer, hnone, if_true] at hreply
        split_ifs at hreply
      · exact hroute

omit [DecidableEq R] in
theorem Inv.attempt (h : Inv s) (fate : Fate) (message : M) (replies : List Reply) :
    Inv ((if s.publisher.isOpen && fate.arrives then s.arrive message else s).reply message replies
      (Publisher.basicPublish (fate.reply s.broker.topology) message s.publisher)) := by
  obtain ⟨harrive, haccepted⟩ := h.arrive message
  rcases basicPublish_confirmed (fate.reply s.broker.topology) message s.publisher with
    ⟨hopen, hreply, p, heq, hmore⟩ | ⟨e, p, heq, hsame⟩
  · obtain ⟨harrives, hroute⟩ := route_of_confirm h hreply
    rw [hroute, List.map_singleton] at haccepted
    rw [heq, hopen, harrives, Bool.and_self, if_pos rfl]
    refine harrive.publisher ?_ _ _
    rw [haccepted, hmore]
    exact h.confirmed.append (List.Sublist.refl _)
  · rw [heq]
    have hconfirmed : p.confirmed.Sublist s.accepted := hsame ▸ h.confirmed
    split_ifs
    · refine harrive.failed e (hconfirmed.trans ?_) message replies
      rw [haccepted]
      exact List.sublist_append_left _ _
    · exact h.failed e hconfirmed message replies

theorem inv_step (h : Inv s) (hstep : step s a = some t) : Inv t := by
  cases transition_of_step hstep with
  | setup a p hp => exact h.setProvision hp
  | broker a broker hdeliver hbroker => exact h.broker hdeliver hbroker
  | call message hidle => exact h.publisher h.confirmed _ _
  | attempt fate message replies hcall => exact h.attempt fate message _
  | disconnect hidle => exact h.publisher (p := s.publisher.handle .disconnect) h.confirmed _ _

theorem inv_run {as : List (Action R M)} (h : Runs.run step init as = some s) : Inv s :=
  Runs.invariant (fun _ _ _ hs hstep => inv_step hs hstep) inv_init h

end Invariant

section Setup

variable {s t : State R M}

/-- The setup's runs in a state: none was refused, and together they have made the first of the declarations;
a run that got to the end has everything declared, and whatever is in a queue came after that. -/
structure Converges (s : State R M) : Prop where
  unrefused : s.refusals = []
  begun : Begun s.broker.topology
  done : ∀ r, s.progress r = some declareTopology.length → s.broker.topology = declareTopology
  before : s.broker.topology ≠ declareTopology → s.accepted = [] ∧ s.broker.held = [] ∧ s.broker.acked = []

/-- However many runs of the setup are at work, stop halfway and begin again, beside whatever traffic. -/
theorem setup_converges (as : List (Action R M)) (h : Runs.run step init as = some s) : Converges s := by
  have hinv := inv_run h
  refine ⟨hinv.setup.refusals, hinv.begun, fun r hr => hinv.setup.made_eq hr, fun hbegun => ?_⟩
  have haccepted : s.accepted = [] := not_ne_iff.mp fun hne => hbegun (hinv.built hne)
  have hkept := hinv.kept
  rw [haccepted, List.perm_nil, Broker.State.kept, List.append_eq_nil_iff, List.map_eq_nil_iff] at hkept
  exact ⟨haccepted, hkept⟩

/-- Two runs of the setup, one of which stops halfway, and a message between them. -/
def sampleRun : List (Action Bool String) :=
  [.setup (.start true), .setup (.declare true), .setup (.declare true), .setup (.stop true),
    .call "a", .attempt .answered, .setup (.start false), .setup (.declare false), .setup (.declare false),
    .setup (.declare false), .setup (.declare false), .setup (.declare false), .attempt .answered,
    .broker (.deliver 0), .broker (.reject 0)]

theorem setup_converges_sample : ∃ s, Runs.run step init sampleRun = some s ∧
    s.progress true = none ∧ s.progress false = some declareTopology.length ∧
    s.broker.topology = declareTopology ∧ s.refusals = [] ∧ Converges s :=
  ⟨_, rfl, rfl, rfl, rfl, rfl, setup_converges sampleRun rfl⟩

end Setup

section Messages

variable {s : State R M}

/-- Where the messages are that the broker has taken for the publisher. -/
structure Accounted (s : State R M) : Prop where
  undiscarded : s.broker.discarded = []
  accounted : s.accepted.Perm (s.contents QUEUE ++ s.contents DLQ ++ s.broker.acked)
  undelivered : ∀ h ∈ s.broker.held, h.queue = DLQ → h.delivered = false
  confirmed : s.publisher.confirmed.Subperm (s.contents QUEUE ++ s.contents DLQ ++ s.broker.acked)

omit [DecidableEq R] in
theorem Inv.accounted (h : Inv s) : Accounted s := by
  have hsplit : (s.broker.held.map Held.body).Perm (s.contents QUEUE ++ s.contents DLQ) := by
    have hparts := (List.filter_append_perm (fun h => decide (h.queue = QUEUE)) s.broker.held).symm
    have hrest : s.broker.held.filter (fun h => !decide (h.queue = QUEUE)) =
        s.broker.held.filter fun h => decide (h.queue = DLQ) := by
      refine List.filter_congr fun m hm => ?_
      rcases h.placed m hm with hqueue | ⟨hqueue, -⟩
      · rw [hqueue]
        decide
      · rw [hqueue]
        decide
    rw [hrest] at hparts
    simpa [State.contents] using hparts.map Held.body
  have hkept : s.accepted.Perm (s.contents QUEUE ++ s.contents DLQ ++ s.broker.acked) :=
    h.kept.symm.trans (hsplit.append_right _)
  refine ⟨h.discarded, hkept, fun m hm hdlq => ?_, h.confirmed.subperm.trans hkept.subperm⟩
  rcases h.placed m hm with hqueue | ⟨-, hready⟩
  · exact absurd (hqueue.symm.trans hdlq) (by decide)
  · exact hready

/-- Whatever happens to a message that the broker has taken, it is in the queue, in the dead-letter queue or
acknowledged; a dead letter never goes nowhere, even with the setup still at work. -/
theorem no_message_discarded (as : List (Action R M)) (h : Runs.run step init as = some s) : Accounted s :=
  (inv_run h).accounted

theorem no_message_discarded_sample : ∃ s, Runs.run step init sampleRun = some s ∧ Accounted s ∧
    s.contents DLQ = ["a"] :=
  ⟨_, rfl, no_message_discarded sampleRun rfl, by decide +kernel⟩

end Messages

section Refinement

open Publisher (attempts)

variable {s t : State R M} {a : Action R M}

/-- The publisher is where its own model has it: behind the calls that are over, and in the loop of the call
that is not. What a call has tried in vain leaves what is confirmed as it was. -/
structure Refines (s : State R M) : Prop where
  idle : s.call = none → s.publisher = Publisher.init.run s.events
  busy : ∀ message replies, s.call = some (message, replies) → replies.length < MAX_ATTEMPTS ∧
    ∀ rest, attempts (nthReply (replies ++ rest)) message (List.range' 1 MAX_ATTEMPTS)
        (Publisher.init.run s.events) =
      attempts (nthReply (replies ++ rest)) message
        (List.range' (replies.length + 1) (MAX_ATTEMPTS - replies.length)) s.publisher
  confirmed : s.publisher.confirmed = (Publisher.init.run s.events).confirmed

theorem nthReply_append (replies rest : List Reply) (reply : Reply) :
    nthReply (replies ++ reply :: rest) (replies.length + 1) = reply := by
  rw [nthReply, Nat.add_sub_cancel, List.getD_eq_getElem?_getD, List.getElem?_append_right le_rfl, Nat.sub_self]
  rfl

omit [DecidableEq R] in
theorem Refines.attempt (h : Refines s) {message : M} {replies : List Reply}
    (hcall : s.call = some (message, replies)) {u : State R M} (hevents : u.events = s.events) (reply : Reply) :
    Refines (u.reply message (replies ++ [reply]) (Publisher.basicPublish reply message s.publisher)) := by
  obtain ⟨hlt, hloop⟩ := h.busy message replies hcall
  obtain ⟨more, hmore⟩ : ∃ more, MAX_ATTEMPTS - replies.length = more + 1 :=
    Nat.exists_eq_succ_of_ne_zero (Nat.sub_ne_zero_of_lt hlt)
  have hlength : (replies ++ [reply]).length = replies.length + 1 := List.length_append
  have hnext : ∀ rest, attempts (nthReply (replies ++ reply :: rest)) message (List.range' 1 MAX_ATTEMPTS)
      (Publisher.init.run s.events) =
      match Publisher.basicPublish reply message s.publisher with
      | (.ok (), p) => (true, p)
      | (.error _, p) => attempts (nthReply (replies ++ reply :: rest)) message
          (List.range' (replies.length + 2) more) p := by
    intro rest
    rw [hloop (reply :: rest), hmore, List.range'_succ, attempts, nthReply_append]
    cases hcall : Publisher.basicPublish reply message s.publisher with
    | mk result p =>
        cases result with
        | ok _ => rfl
        | error e => cases e <;> rfl
  cases hresult : Publisher.basicPublish reply message s.publisher with
  | mk result p =>
      simp only [hresult] at hnext
      cases result with
      | ok _ =>
          have hover : p = Publisher.init.run (u.events ++ [.publish message (nthReply (replies ++ [reply]))]) := by
            rw [hevents, Publisher.run_snoc, Publisher.handle, Publisher.publish, hnext []]
          exact ⟨fun _ => hover, fun _ _ hsome => (by cases hsome), congrArg Publisher.confirmed hover⟩
      | error e =>
          rw [State.reply, hlength]
          split_ifs with hagain
          · have hsame : p.confirmed = (Publisher.init.run u.events).confirmed := by
              rw [hevents, ← h.confirmed]
              exact confirmed_of_error hresult
            refine ⟨fun hnone => (by cases hnone), fun message' replies' hsome => ?_, hsame⟩
            cases hsome
            refine ⟨hlength.trans_lt hagain, fun rest => ?_⟩
            have hleft : MAX_ATTEMPTS - (replies.length + 1) = more := by omega
            show attempts _ message _ (Publisher.init.run u.events) = _
            rw [hevents, hlength, hleft, List.append_assoc, List.singleton_append, hnext rest]
          · have hlast : more = 0 := by omega
            have hfalse := hnext []
            rw [hlast] at hfalse
            have hover : { p with retryQueue := p.retryQueue.append message } =
                Publisher.init.run (u.events ++ [.publish message (nthReply (replies ++ [reply]))]) := by
              rw [hevents, Publisher.run_snoc, Publisher.handle, Publisher.publish, hfalse]
              rfl
            exact ⟨fun _ => hover, fun _ _ hsome => (by cases hsome), congrArg Publisher.confirmed hover⟩

theorem refines_step (h : Refines s) (hstep : step s a = some t) : Refines t := by
  cases transition_of_step hstep with
  | setup a p hp => exact ⟨h.idle, h.busy, h.confirmed⟩
  | broker a broker hdeliver hbroker => exact ⟨h.idle, h.busy, h.confirmed⟩
  | call message hidle =>
      refine ⟨fun hnone => (by cases hnone), fun message' replies' hsome => ?_, h.confirmed⟩
      cases hsome
      refine ⟨by decide, fun rest => ?_⟩
      rw [← h.idle hidle]
      rfl
  | attempt fate message replies hcall =>
      split_ifs
      · exact h.attempt hcall (u := s.arrive message) rfl _
      · exact h.attempt hcall (u := s) rfl _
  | disconnect hidle =>
      have hover : s.publisher.handle .disconnect = Publisher.init.run (s.events ++ [.disconnect]) := by
        rw [Publisher.run_snoc, ← h.idle hidle]
      exact ⟨fun _ => hover, fun _ _ hsome => (by cases hidle.symm.trans hsome), congrArg Publisher.confirmed hover⟩

omit [DecidableEq R] in
theorem refines_init : Refines (init : State R M) :=
  ⟨fun _ => rfl, fun _ _ hsome => (by cases hsome), rfl⟩

theorem refines_run {as : List (Action R M)} (h : Runs.run step init as = some s) : Refines s :=
  Runs.invariant (fun _ _ _ hs hstep => refines_step hs hstep) refines_init h

omit [DecidableEq R] in
/-- What was published is held, as far as the invariants go. -/
theorem Inv.published (h : Inv s) (hrefines : Refines s) :
    (Publisher.returning true (Publisher.init.results s.events)).Subperm
      (s.contents QUEUE ++ s.contents DLQ ++ s.broker.acked) := by
  have hconfirmed := h.accounted.confirmed
  rwa [hrefines.confirmed, Publisher.confirmed_run, Publisher.init, List.nil_append] at hconfirmed

end Refinement

section Calls

variable {s t : State R M} {a : Action R M}

/-- A call of `publish` with its message, or the loss of the connection between two of them. -/
def Action.called : Action R M → List (Option M)
  | .call message => [some message]
  | .disconnect => [none]
  | .setup _ | .broker _ | .attempt _ => []

/-- The same of the calls that are over and the one that is not. -/
def State.called (s : State R M) : List (Option M) :=
  s.events.map PublisherEvent.message ++ s.call.toList.map fun call => some call.1

omit [DecidableEq R] in
/-- An attempt goes on with its call, or ends it. -/
theorem called_reply (s : State R M) (message : M) (replies : List Reply)
    (result : Except AMQPError Unit × Publisher M) :
    (s.reply message replies result).called = s.events.map PublisherEvent.message ++ [some message] := by
  unfold State.reply State.called
  split
  · simp [PublisherEvent.message]
  · split_ifs <;> simp [PublisherEvent.message]

theorem called_step (hstep : step s a = some t) : t.called = s.called ++ a.called := by
  cases transition_of_step hstep with
  | setup a p hp => exact (List.append_nil _).symm
  | broker a broker hdeliver hbroker => exact (List.append_nil _).symm
  | call message hidle => simp [State.called, Action.called, hidle]
  | attempt fate message replies hcall =>
      rw [called_reply, Action.called, List.append_nil, State.called, hcall]
      split_ifs <;> rfl
  | disconnect hidle => simp [State.called, Action.called, hidle, PublisherEvent.message]

/-- The calls that are over are the calls of the run, in their order, but for one that is under way. -/
theorem called_run {as : List (Action R M)} (h : Runs.run step init as = some s) :
    s.called = as.flatMap Action.called := by
  have hhistory := Runs.history_run State.called (fun _ _ _ hstep => called_step hstep) h
  rw [Runs.outputs_label h] at hhistory
  exact hhistory

/-- The calls that are over are those of the run, and between two calls the publisher is as its own model has
it for some answers of the broker. Every message whose `publish` returned `True` is in the queue, in the
dead-letter queue or acknowledged. -/
theorem published_is_held (as : List (Action R M)) (h : Runs.run step init as = some s) :
    s.events.map PublisherEvent.message ++ (s.call.toList.map fun call => some call.1) =
        as.flatMap Action.called ∧
      (s.call = none → s.publisher = Publisher.init.run s.events) ∧
      (Publisher.returning true (Publisher.init.results s.events)).Subperm
        (s.contents QUEUE ++ s.contents DLQ ++ s.broker.acked) :=
  ⟨called_run h, (refines_run h).idle, (inv_run h).published (refines_run h)⟩

/-- A message that is confirmed while the next one is on its way. -/
def busyRun : List (Action Bool String) := sampleRun ++ [.call "b", .attempt (.lost true)]

theorem published_is_held_sample : ∃ s, Runs.run step init busyRun = some s ∧
    Publisher.returning true (Publisher.init.results s.events) = ["a"] ∧
    s.contents QUEUE = ["b"] ∧ s.contents DLQ = ["a"] ∧ s.broker.acked = [] ∧
    s.events.map PublisherEvent.message ++ (s.call.toList.map fun call => some call.1) = [some "a", some "b"] ∧
    (Publisher.returning true (Publisher.init.results s.events)).Subperm
      (s.contents QUEUE ++ s.contents DLQ ++ s.broker.acked) := by
  obtain ⟨s, hrun, hreturned, hqueue, hdlq, hacked⟩ : ∃ s, Runs.run step init busyRun = some s ∧
      Publisher.returning true (Publisher.init.results s.events) = ["a"] ∧
      s.contents QUEUE = ["b"] ∧ s.contents DLQ = ["a"] ∧ s.broker.acked = [] :=
    ⟨_, rfl, rfl, rfl, by decide +kernel, rfl⟩
  obtain ⟨hcalls, -, hheld⟩ := published_is_held busyRun hrun
  exact ⟨s, hrun, hreturned, hqueue, hdlq, hacked, hcalls, hheld⟩

end Calls

end CryptoLakehouse.Traffic
