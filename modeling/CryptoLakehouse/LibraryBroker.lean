import CryptoLakehouse.LibraryProvision
import Mathlib.Data.List.Perm.Basic

/-! A message broker: direct exchanges, bindings, queues with manual acknowledgement. A message that a
queue gives up goes to the queue's dead-letter exchange; where none is named, or no binding of it matches,
the message is discarded without a word. `refuses` and `Provision.declare` say what is relied on of a broker
that is told to declare something, and `Rules` what is relied on once messages are in it. -/

namespace Broker

variable {N K M : Type*}

/-- The optional arguments of a queue, with RabbitMQ's names. -/
structure QueueArgs (N K : Type*) where
  deadLetterExchange : Option N
  deadLetterRoutingKey : Option K
  messageTtl : Option Nat
  maxLength : Option Nat
  maxLengthBytes : Option Nat
  deriving DecidableEq

/-- A queue that may give up messages nobody has rejected. -/
def QueueArgs.limited (args : QueueArgs N K) : Bool :=
  args.messageTtl.isSome || args.maxLength.isSome || args.maxLengthBytes.isSome

inductive Declaration (N K : Type*) where
  | exchange (name : N) (durable : Bool)
  | queue (name : N) (durable : Bool) (arguments : QueueArgs N K)
  | binding (queue exchange : N) (routingKey : K)
  deriving DecidableEq

/-- A message in a queue; `delivered` is one that a consumer has and has not settled. -/
structure Held (N K M : Type*) where
  queue : N
  routingKey : K
  body : M
  delivered : Bool

/-- `acked` and `discarded` are histories. -/
structure State (N K M : Type*) where
  topology : List (Declaration N K)
  held : List (Held N K M)
  acked : List M
  discarded : List M

def init : State N K M := ⟨[], [], [], []⟩

inductive Action where
  | deliver (i : Nat)
  | ack (i : Nat)
  /-- `basic.nack` with `requeue=False` -/
  | reject (i : Nat)
  /-- a limit on age, number or size -/
  | expire (i : Nat)
  /-- the consumer's channel is gone -/
  | requeue (i : Nat)

section Topology

variable [DecidableEq N]

def Declaration.isExchange (name : N) : Declaration N K → Bool
  | .exchange name' _ => name' = name
  | _ => false

def Declaration.isQueue (name : N) : Declaration N K → Bool
  | .queue name' _ _ => name' = name
  | _ => false

/-- What is relied on of declarations that are new: 406 for the name of something with other properties, 404 for
a binding that lacks an end. -/
def refuses (topology : List (Declaration N K)) : Declaration N K → Bool
  | .exchange name _ => topology.any (Declaration.isExchange name)
  | .queue name _ _ => topology.any (Declaration.isQueue name)
  | .binding queue exchange _ =>
      !(topology.any (Declaration.isQueue queue) && topology.any (Declaration.isExchange exchange))

def arguments (topology : List (Declaration N K)) (name : N) : Option (QueueArgs N K) :=
  topology.findSome? fun
    | .queue name' _ args => if name' = name then some args else none
    | _ => none

variable [DecidableEq K]

/-- The queues that a message is put into. -/
def route (topology : List (Declaration N K)) (exchange : N) (routingKey : K) : List N :=
  topology.filterMap fun
    | .binding queue exchange' routingKey' =>
        if exchange' = exchange ∧ routingKey' = routingKey then some queue else none
    | _ => none

/-- What the queue gives up goes to this queue and no other. -/
def DeadLettersTo (topology : List (Declaration N K)) (queue target : N) (routingKey : K) : Prop :=
  ∃ args exchange, arguments topology queue = some args ∧ args.deadLetterExchange = some exchange ∧
    route topology exchange (args.deadLetterRoutingKey.getD routingKey) = [target]

end Topology

section Messages

variable [DecidableEq N] [DecidableEq K]

def State.publish (s : State N K M) (exchange : N) (routingKey : K) (body : M) : State N K M :=
  { s with held := s.held ++
      (route s.topology exchange routingKey).map fun queue => ⟨queue, routingKey, body, false⟩ }

/-- What becomes of a message that its queue has given up. -/
def State.deadLetter (s : State N K M) (h : Held N K M) : State N K M :=
  match arguments s.topology h.queue with
  | some ⟨some exchange, routingKey, _, _, _⟩ =>
      match route s.topology exchange (routingKey.getD h.routingKey) with
      | [] => { s with discarded := s.discarded ++ [h.body] }
      | _ => s.publish exchange (routingKey.getD h.routingKey) h.body
  | _ => { s with discarded := s.discarded ++ [h.body] }

def State.take (s : State N K M) (i : Nat) : State N K M := { s with held := s.held.eraseIdx i }

def State.mark (s : State N K M) (i : Nat) (h : Held N K M) (delivered : Bool) : State N K M :=
  { s with held := s.held.set i { h with delivered := delivered } }

/-- The limits of the queue that holds the message. -/
def State.limitedAt (s : State N K M) (h : Held N K M) : Bool :=
  (arguments s.topology h.queue).any QueueArgs.limited

def step (s : State N K M) : Action → Option (State N K M)
  | .deliver i =>
      match s.held[i]? with
      | some h => if h.delivered then none else some (s.mark i h true)
      | none => none
  | .ack i =>
      match s.held[i]? with
      | some h => if h.delivered then some { s.take i with acked := s.acked ++ [h.body] } else none
      | none => none
  | .reject i =>
      match s.held[i]? with
      | some h => if h.delivered then some ((s.take i).deadLetter h) else none
      | none => none
  | .expire i =>
      match s.held[i]? with
      | some h => if h.delivered = false ∧ s.limitedAt h then some ((s.take i).deadLetter h) else none
      | none => none
  | .requeue i =>
      match s.held[i]? with
      | some h => if h.delivered then some (s.mark i h false) else none
      | none => none

/-- The steps with the message that each is about: it is delivered to one consumer at a time, and only that one
settles it. -/
inductive Transition (s : State N K M) : Action → State N K M → Prop where
  | deliver (i : Nat) (h : Held N K M) (hi : s.held[i]? = some h) (hready : h.delivered = false) :
      Transition s (.deliver i) (s.mark i h true)
  | ack (i : Nat) (h : Held N K M) (hi : s.held[i]? = some h) (hout : h.delivered = true) :
      Transition s (.ack i) { s.take i with acked := s.acked ++ [h.body] }
  | reject (i : Nat) (h : Held N K M) (hi : s.held[i]? = some h) (hout : h.delivered = true) :
      Transition s (.reject i) ((s.take i).deadLetter h)
  | expire (i : Nat) (h : Held N K M) (hi : s.held[i]? = some h) (hready : h.delivered = false)
      (hlimit : s.limitedAt h = true) : Transition s (.expire i) ((s.take i).deadLetter h)
  | requeue (i : Nat) (h : Held N K M) (hi : s.held[i]? = some h) (hout : h.delivered = true) :
      Transition s (.requeue i) (s.mark i h false)

/-- What is relied on of a broker with messages in it: it does nothing else. It does not restart, and nobody
purges or deletes a queue. -/
def Rules (broker : State N K M → Action → Option (State N K M)) : Prop :=
  ∀ s a t, broker s a = some t → Transition s a t

theorem rules_step : Rules (step : State N K M → Action → Option (State N K M)) := by
  intro s a t hstep
  cases a with
  | deliver i =>
      simp only [step] at hstep
      split at hstep <;> try cases hstep
      split_ifs at hstep with hready
      cases hstep
      exact .deliver i _ ‹_› (Bool.eq_false_of_not_eq_true hready)
  | expire i =>
      simp only [step] at hstep
      split at hstep <;> try cases hstep
      split_ifs at hstep with hlimit
      cases hstep
      exact .expire i _ ‹_› hlimit.1 hlimit.2
  | ack i =>
      simp only [step] at hstep
      split at hstep <;> try cases hstep
      split_ifs at hstep with hout
      cases hstep
      exact .ack i _ ‹_› hout
  | reject i =>
      simp only [step] at hstep
      split at hstep <;> try cases hstep
      split_ifs at hstep with hout
      cases hstep
      exact .reject i _ ‹_› hout
  | requeue i =>
      simp only [step] at hstep
      split at hstep <;> try cases hstep
      split_ifs at hstep with hout
      cases hstep
      exact .requeue i _ ‹_› hout

end Messages

section Conservation

variable [DecidableEq N] [DecidableEq K] {broker : State N K M → Action → Option (State N K M)}
  {s t : State N K M} {a : Action} {h : Held N K M} {target : N}

/-- The messages that have not been lost. -/
def State.kept (s : State N K M) : List M := s.held.map Held.body ++ s.acked

/-- Whatever a queue may give up, by a rejection or for a limit, has one place to go to. -/
def Safe (s : State N K M) : Prop :=
  ∀ h ∈ s.held, h.delivered = true ∨ s.limitedAt h = true →
    ∃ target, DeadLettersTo s.topology h.queue target h.routingKey

theorem deadLetter_eq (hto : DeadLettersTo s.topology h.queue target h.routingKey) :
    ∃ routingKey, s.deadLetter h = { s with held := s.held ++ [⟨target, routingKey, h.body, false⟩] } := by
  obtain ⟨⟨deadLetterExchange, routingKey, _, _, _⟩, exchange, hargs, hexchange, hroute⟩ := hto
  obtain rfl : deadLetterExchange = some exchange := hexchange
  have hroute' : route s.topology exchange (routingKey.getD h.routingKey) = [target] := hroute
  refine ⟨routingKey.getD h.routingKey, ?_⟩
  simp only [State.deadLetter, hargs, hroute', State.publish, List.map_cons, List.map_nil]

omit [DecidableEq N] [DecidableEq K] in
theorem kept_take {i : Nat} (hi : s.held[i]? = some h) : (h.body :: (s.take i).kept).Perm s.kept := by
  obtain ⟨hlt, rfl⟩ := List.getElem?_eq_some_iff.mp hi
  exact ((List.getElem_cons_eraseIdx_perm hlt).map Held.body).append_right s.acked

omit [DecidableEq N] [DecidableEq K] in
theorem kept_mark {i : Nat} (hi : s.held[i]? = some h) (delivered : Bool) : (s.mark i h delivered).kept = s.kept := by
  obtain ⟨hlt, rfl⟩ := List.getElem?_eq_some_iff.mp hi
  have hsame : (s.held.map Held.body).set i s.held[i].body = s.held.map Held.body := by
    rw [← List.getElem_map Held.body, List.set_getElem_self]
    rwa [List.length_map]
  rw [State.kept, State.kept, State.mark, List.map_set, hsame]

/-- A step of a broker whose queues are safe loses no message and doubles none. -/
theorem Rules.step_kept (hrules : Rules broker) (hsafe : Safe s) (hstep : broker s a = some t) :
    t.kept.Perm s.kept ∧ t.discarded = s.discarded := by
  have hgiven : ∀ i h, s.held[i]? = some h → (h.delivered = true ∨ s.limitedAt h = true) →
      ((s.take i).deadLetter h).kept.Perm s.kept ∧ ((s.take i).deadLetter h).discarded = s.discarded := by
    intro i h hi hgiven
    obtain ⟨target, hto⟩ := hsafe h (List.mem_of_getElem? hi) hgiven
    obtain ⟨routingKey, heq⟩ := deadLetter_eq (s := s.take i) hto
    rw [heq]
    refine ⟨?_, rfl⟩
    calc ((s.take i).held ++ [(⟨target, routingKey, h.body, false⟩ : Held N K M)]).map Held.body ++ s.acked
        = (s.take i).held.map Held.body ++ (h.body :: s.acked) := by simp
      List.Perm _ (h.body :: ((s.take i).held.map Held.body ++ s.acked)) := List.perm_middle
      List.Perm _ s.kept := kept_take hi
  cases hrules s a t hstep with
  | deliver i h hi hready => exact ⟨List.Perm.of_eq (kept_mark hi true), rfl⟩
  | requeue i h hi hout => exact ⟨List.Perm.of_eq (kept_mark hi false), rfl⟩
  | reject i h hi hout => exact hgiven i h hi (Or.inl hout)
  | expire i h hi hready hlimit => exact hgiven i h hi (Or.inr hlimit)
  | ack i h hi hout =>
      refine ⟨?_, rfl⟩
      calc (s.take i).held.map Held.body ++ (s.acked ++ [h.body])
          = (s.take i).held.map Held.body ++ s.acked ++ [h.body] := (List.append_assoc _ _ _).symm
        List.Perm _ (h.body :: (s.take i).kept) := List.perm_append_singleton _ _
        List.Perm _ s.kept := kept_take hi

/-- A message is in the queue it was in before the step, or in one that messages are dead-lettered to. -/
theorem Rules.mem_held_step (hrules : Rules broker) (hsafe : Safe s) (hstep : broker s a = some t) (hh : h ∈ t.held) :
    (∃ h' ∈ s.held, h'.queue = h.queue ∧ h'.routingKey = h.routingKey ∧
        (h.delivered = true → h'.delivered = true ∨ ∃ i, a = .deliver i ∧ s.held[i]? = some h')) ∨
      h.delivered = false ∧ ∃ h' ∈ s.held, DeadLettersTo s.topology h'.queue h.queue h'.routingKey := by
  have htaken : ∀ i, h ∈ (s.take i).held → ∃ h' ∈ s.held, h'.queue = h.queue ∧ h'.routingKey = h.routingKey ∧
      (h.delivered = true → h'.delivered = true ∨ ∃ i, a = .deliver i ∧ s.held[i]? = some h') :=
    fun i hmem => ⟨h, (List.eraseIdx_sublist _ _).subset hmem, rfl, rfl, Or.inl⟩
  have hmarked : ∀ i h₁ delivered, s.held[i]? = some h₁ → (delivered = true → a = .deliver i) →
      h ∈ (s.mark i h₁ delivered).held → ∃ h' ∈ s.held, h'.queue = h.queue ∧ h'.routingKey = h.routingKey ∧
        (h.delivered = true → h'.delivered = true ∨ ∃ i, a = .deliver i ∧ s.held[i]? = some h') := by
    intro i h₁ delivered hi ha hmem
    rcases List.mem_or_eq_of_mem_set hmem with hold | rfl
    · exact ⟨h, hold, rfl, rfl, Or.inl⟩
    · exact ⟨h₁, List.mem_of_getElem? hi, rfl, rfl, fun hout => Or.inr ⟨i, ha hout, hi⟩⟩
  have hgiven : ∀ i h₁, s.held[i]? = some h₁ → (h₁.delivered = true ∨ s.limitedAt h₁ = true) →
      h ∈ ((s.take i).deadLetter h₁).held → h ∈ (s.take i).held ∨
        h.delivered = false ∧ ∃ h' ∈ s.held, DeadLettersTo s.topology h'.queue h.queue h'.routingKey := by
    intro i h₁ hi hgiven hmem
    obtain ⟨target, hto⟩ := hsafe h₁ (List.mem_of_getElem? hi) hgiven
    obtain ⟨routingKey, heq⟩ := deadLetter_eq (s := s.take i) hto
    rw [heq] at hmem
    rcases List.mem_append.mp hmem with hold | hnew
    · exact Or.inl hold
    · obtain rfl := List.mem_singleton.mp hnew
      exact Or.inr ⟨rfl, h₁, List.mem_of_getElem? hi, hto⟩
  cases hrules s a t hstep with
  | deliver i h₁ hi hready => exact Or.inl (hmarked i h₁ true hi (fun _ => rfl) hh)
  | requeue i h₁ hi hout => exact Or.inl (hmarked i h₁ false hi (fun hfalse => by cases hfalse) hh)
  | reject i h₁ hi hout => exact (hgiven i h₁ hi (Or.inl hout) hh).imp_left (htaken i)
  | expire i h₁ hi hready hlimit => exact (hgiven i h₁ hi (Or.inr hlimit) hh).imp_left (htaken i)
  | ack i h₁ hi hout => exact Or.inl (htaken i hh)

theorem Rules.topology_step (hrules : Rules broker) (hstep : broker s a = some t) : t.topology = s.topology := by
  have hgiven : ∀ i h, ((s.take i).deadLetter h).topology = s.topology := by
    intro i h
    unfold State.deadLetter
    split
    · split <;> rfl
    · rfl
  cases hrules s a t hstep with
  | reject i h => exact hgiven i h
  | expire i h => exact hgiven i h
  | _ => rfl

/-- The message that a step acknowledges. -/
def State.acks (s : State N K M) : Action → List M
  | .ack i => (s.held[i]?).toList.map Held.body
  | _ => []

theorem Rules.acked_step (hrules : Rules broker) (hstep : broker s a = some t) : t.acked = s.acked ++ s.acks a := by
  have hgiven : ∀ i h, ((s.take i).deadLetter h).acked = s.acked := by
    intro i h
    unfold State.deadLetter
    split
    · split <;> rfl
    · rfl
  cases hrules s a t hstep with
  | ack i h hi hout => rw [State.acks, hi, Option.toList_some, List.map_singleton]
  | reject i h => exact (hgiven i h).trans (List.append_nil _).symm
  | expire i h => exact (hgiven i h).trans (List.append_nil _).symm
  | deliver i h | requeue i h => exact (List.append_nil _).symm

end Conservation

section Queues

variable [DecidableEq N] {s : State N K M} {h : Held N K M} {i : Nat} {queue : N}

/-- The messages in a queue. -/
def inQueue (queue : N) (held : List (Held N K M)) : List M :=
  (held.filter fun h => h.queue = queue).map Held.body

theorem inQueue_append (queue : N) (held held' : List (Held N K M)) :
    inQueue queue (held ++ held') = inQueue queue held ++ inQueue queue held' := by
  rw [inQueue, List.filter_append, List.map_append]
  rfl

/-- To be delivered or not is all the same to the queue. -/
theorem inQueue_mark (hi : s.held[i]? = some h) (delivered : Bool) :
    inQueue queue (s.mark i h delivered).held = inQueue queue s.held := by
  obtain ⟨hlt, rfl⟩ := List.getElem?_eq_some_iff.mp hi
  have hslots : ∀ held : List (Held N K M), inQueue queue held =
      ((held.map fun h => (h.queue, h.body)).filter fun slot => slot.1 = queue).map Prod.snd := by
    intro held
    rw [List.filter_map, List.map_map]
    rfl
  have hsame : (s.held.map fun h => (h.queue, h.body)).set i (s.held[i].queue, s.held[i].body) =
      s.held.map fun h => (h.queue, h.body) := by
    rw [← List.getElem_map (fun h : Held N K M => (h.queue, h.body)), List.set_getElem_self]
    rwa [List.length_map]
  rw [hslots, hslots, State.mark, List.map_set, hsame]

omit [DecidableEq N] in
theorem take_mark (s : State N K M) (i : Nat) (h : Held N K M) (delivered : Bool) :
    (s.mark i h delivered).take i = s.take i := by
  rw [State.take, State.take, State.mark, List.eraseIdx_set_eq]

theorem inQueue_take (hi : s.held[i]? = some h) (queue : N) :
    ((if h.queue = queue then [h.body] else []) ++ inQueue queue (s.take i).held).Perm (inQueue queue s.held) := by
  obtain ⟨hlt, rfl⟩ := List.getElem?_eq_some_iff.mp hi
  have hperm := ((List.getElem_cons_eraseIdx_perm hlt).filter fun h => h.queue = queue).map Held.body
  split_ifs with hqueue
  · rwa [List.filter_cons_of_pos (by rwa [decide_eq_true_eq]), List.map_cons] at hperm
  · rwa [List.filter_cons_of_neg (by rwa [decide_eq_true_eq])] at hperm

end Queues

end Broker
