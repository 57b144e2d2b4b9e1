import CryptoLakehouse.ConsumerMain
import CryptoLakehouse.ConsumerRepository

/-! A `TradeConsumer` whose repository is the `TradeRepository` itself, with the queue in front of it and the
dead-letter queue behind it. A delivery is settled when its `insert_one` is over; a crash may come between
any two steps, and the broker then offers all that is unsettled to the next incarnation. -/

namespace CryptoLakehouse.Delivery

open ConsumerMain (parse)
open Transaction (Session)

/-- `dead` is in the dead-letter queue; `ready` and `delivered` are unsettled. -/
inductive Status where
  | ready
  | delivered
  | acked
  | dead
  deriving DecidableEq

structure Message (Body : Type) where
  body : Body
  status : Status

/-- Where `on_message` stands, with the position of its message among those published. -/
inductive Pc where
  | idle
  | parsing (i : Nat)
  /-- in `insert_one`, ahead of `cur.execute` -/
  | executing (i : Nat) (trade : Dict)
  | committing (i : Nat) (trade : Dict)
  /-- in `insert_one`, behind `conn.commit` -/
  | committed (i : Nat) (trade : Dict)
  /-- about to send ACK -/
  | returned (i : Nat) (trade : Dict)
  /-- in the `except` branch, about to send NACK -/
  | failed (i : Nat)

def Pc.current : Pc → Option Nat
  | .idle => none
  | .parsing i | .executing i _ | .committing i _ | .committed i _ | .returned i _ | .failed i => some i

/-- `inbox` holds the deliveries that no callback has begun with. `settled` (with `true` for ACK) and
`returned` (the messages whose `insert_one` has returned) are histories of the incarnation. -/
structure State (Body : Type) where
  messages : List (Message Body)
  conn : Session Bronze
  inbox : List Nat
  pc : Pc
  settled : List (Nat × Bool)
  returned : List Nat

/-- `expire` is the queue's limit on age or length, `finish` the rest of `insert_one`, which may raise. -/
inductive Action (Body : Type) where
  | publish (body : Body)
  | expire (i : Nat)
  | deliver (i : Nat)
  | begin
  | parse
  | execute (receivedAt : Instant) (reply : Transaction.Reply)
  | commit (reply : Transaction.Reply)
  | finish (raises : Bool)
  | settle
  | crash

section Code

variable {Body : Type} (pg : Postgres) (storable : Dict → Bool) (loads : Body → Except Exn Json)

def bodyAt (messages : List (Message Body)) (i : Nat) : Option Body := messages[i]?.map Message.body

def statusAt (messages : List (Message Body)) (i : Nat) : Option Status := messages[i]?.map Message.status

def setStatus (messages : List (Message Body)) (i : Nat) (status : Status) : List (Message Body) :=
  messages.modify i fun m => { m with status := status }

/-- The broker takes back what is unsettled. -/
def Message.requeue (m : Message Body) : Message Body :=
  match m.status with
  | .delivered => { m with status := .ready }
  | _ => m

/-- `basic_ack`, or `basic_nack` with `requeue=False`. -/
def State.settle (s : State Body) (i : Nat) (acked : Bool) : State Body :=
  { s with
    messages := setStatus s.messages i (if acked then .acked else .dead)
    pc := .idle
    settled := s.settled ++ [(i, acked)] }

def step (s : State Body) : Action Body → Option (State Body)
  | .publish body => some { s with messages := s.messages ++ [⟨body, .ready⟩] }
  | .expire i =>
      match statusAt s.messages i with
      | some .ready => some { s with messages := setStatus s.messages i .dead }
      | _ => none
  | .deliver i =>
      match statusAt s.messages i with
      | some .ready =>
          some { s with messages := setStatus s.messages i .delivered, inbox := s.inbox ++ [i] }
      | _ => none
  | .begin =>
      match s.pc, s.inbox with
      | .idle, i :: inbox => some { s with pc := .parsing i, inbox := inbox }
      | _, _ => none
  | .parse =>
      match s.pc with
      | .parsing i => (bodyAt s.messages i).map fun body =>
          match parse loads body with
          | .ok trade => { s with pc := .executing i trade }
          | .error _ => { s with pc := .failed i }
      | _ => none
  | .execute receivedAt reply =>
      match s.pc with
      | .executing i trade =>
          match s.conn.execute reply (Repository.insertStatement pg storable receivedAt [trade]) with
          | (.ok _, conn) => some { s with conn := conn, pc := .committing i trade }
          | (.error _, conn) => some { s with conn := conn, pc := .failed i }
      | _ => none
  | .commit reply =>
      match s.pc with
      | .committing i trade =>
          match s.conn.commit reply with
          | (.ok _, conn) => some { s with conn := conn, pc := .committed i trade }
          | (.error _, conn) => some { s with conn := conn, pc := .failed i }
      | _ => none
  | .finish raises =>
      match s.pc with
      | .committed i trade =>
          if raises then some { s with pc := .failed i }
          else some { s with pc := .returned i trade, returned := s.returned ++ [i] }
      | _ => none
  | .settle =>
      match s.pc with
      | .returned i _ => some (s.settle i true)
      | .failed i => some (s.settle i false)
      | _ => none
  | .crash =>
      some ⟨s.messages.map Message.requeue, ⟨s.conn.committed, .idle⟩, [], .idle, [], []⟩

/-- An empty queue over a table filled by others. -/
def init (bronze : Bronze) : State Body := ⟨[], ⟨bronze, .idle⟩, [], .idle, [], []⟩

/-- The steps with the place each is made from and what it comes to. -/
inductive Transition (s : State Body) : Action Body → State Body → Prop where
  | publish (body : Body) : Transition s (.publish body) { s with messages := s.messages ++ [⟨body, .ready⟩] }
  | expire (i : Nat) (hready : statusAt s.messages i = some .ready) :
      Transition s (.expire i) { s with messages := setStatus s.messages i .dead }
  | deliver (i : Nat) (hready : statusAt s.messages i = some .ready) :
      Transition s (.deliver i) { s with messages := setStatus s.messages i .delivered, inbox := s.inbox ++ [i] }
  | begin (i : Nat) (inbox : List Nat) (hpc : s.pc = .idle) (hinbox : s.inbox = i :: inbox) :
      Transition s .begin { s with pc := .parsing i, inbox := inbox }
  | parsed (i : Nat) (trade : Dict) (hpc : s.pc = .parsing i)
      (hparse : ∃ body, bodyAt s.messages i = some body ∧ parse loads body = .ok trade) :
      Transition s .parse { s with pc := .executing i trade }
  | unreadable (i : Nat) (hpc : s.pc = .parsing i) : Transition s .parse { s with pc := .failed i }
  | executed (receivedAt : Instant) (reply : Transaction.Reply) (i : Nat) (trade : Dict) (conn : Session Bronze)
      (hpc : s.pc = .executing i trade) (hexecute : s.conn.execute reply
        (Repository.insertStatement pg storable receivedAt [trade]) = (.ok (), conn)) :
      Transition s (.execute receivedAt reply) { s with conn := conn, pc := .committing i trade }
  | executeRaised (receivedAt : Instant) (reply : Transaction.Reply) (i : Nat) (trade : Dict)
      (e : Transaction.Error) (conn : Session Bronze) (hpc : s.pc = .executing i trade)
      (hexecute : s.conn.execute reply
        (Repository.insertStatement pg storable receivedAt [trade]) = (.error e, conn)) :
      Transition s (.execute receivedAt reply) { s with conn := conn, pc := .failed i }
  | committed (reply : Transaction.Reply) (i : Nat) (trade : Dict) (conn : Session Bronze)
      (hpc : s.pc = .committing i trade) (hcommit : s.conn.commit reply = (.ok (), conn)) :
      Transition s (.commit reply) { s with conn := conn, pc := .committed i trade }
  | commitRaised (reply : Transaction.Reply) (i : Nat) (trade : Dict) (e : Transaction.Error)
      (conn : Session Bronze) (hpc : s.pc = .committing i trade)
      (hcommit : s.conn.commit reply = (.error e, conn)) :
      Transition s (.commit reply) { s with conn := conn, pc := .failed i }
  | returned (i : Nat) (trade : Dict) (hpc : s.pc = .committed i trade) :
      Transition s (.finish false) { s with pc := .returned i trade, returned := s.returned ++ [i] }
  | raised (i : Nat) (trade : Dict) (hpc : s.pc = .committed i trade) :
      Transition s (.finish true) { s with pc := .failed i }
  | ack (i : Nat) (trade : Dict) (hpc : s.pc = .returned i trade) : Transition s .settle (s.settle i true)
  | nack (i : Nat) (hpc : s.pc = .failed i) : Transition s .settle (s.settle i false)
  | crash : Transition s .crash
      ⟨s.messages.map Message.requeue, ⟨s.conn.committed, .idle⟩, [], .idle, [], []⟩

end Code

theorem transition_of_step {Body : Type} {pg : Postgres} {storable : Dict → Bool}
    {loads : Body → Except Exn Json} {s t : State Body} {a : Action Body}
    (h : step pg storable loads s a = some t) : Transition pg storable loads s a t := by
  cases a <;> simp only [step] at h
  case publish body =>
    cases h
    exact .publish body
  case crash =>
    cases h
    exact .crash
  case parse =>
    split at h <;> try cases h
    rename_i i hpc
    obtain ⟨body, hbody, rfl⟩ := Option.map_eq_some_iff.mp h
    cases hparse : parse loads body with
    | ok trade => exact .parsed i trade hpc ⟨body, hbody, hparse⟩
    | error e => exact .unreadable i hpc
  case execute receivedAt reply =>
    split at h <;> try cases h
    rename_i i trade hpc
    split at h <;> cases h
    · rename_i conn hexecute
      exact .executed receivedAt reply i trade conn hpc hexecute
    · rename_i e conn hexecute
      exact .executeRaised receivedAt reply i trade e conn hpc hexecute
  case commit reply =>
    split at h <;> try cases h
    rename_i i trade hpc
    split at h <;> cases h
    · rename_i conn hcommit
      exact .committed reply i trade conn hpc hcommit
    · rename_i e conn hcommit
      exact .commitRaised reply i trade e conn hpc hcommit
  case finish raises =>
    split at h <;> try cases h
    rename_i i trade hpc
    cases raises <;> cases h
    · exact .returned i trade hpc
    · exact .raised i trade hpc
  case settle =>
    split at h <;> cases h
    · exact .ack _ _ ‹_›
    · exact .nack _ ‹_›
  all_goals
    split at h <;> cases h
    constructor <;> assumption

/-- Where a call of `insert_one` leaves the callback, short of the counting behind the commit. -/
def Pc.inserted (i : Nat) (trade : Dict) : Except Transaction.Error Unit → Pc
  | .ok _ => .committed i trade
  | .error _ => .failed i

/-- `execute` and `commit` together are `insert_one` of the repository. -/
theorem insertOne_steps {Body : Type} {pg : Postgres} {storable : Dict → Bool} {loads : Body → Except Exn Json}
    {s : State Body} {i : Nat} {trade : Dict} (hpc : s.pc = .executing i trade) (receivedAt : Instant)
    (replies : Nat → Transaction.Reply) {result : Except Transaction.Error Unit} {conn : Session Bronze}
    (h : Repository.insertOne pg storable replies trade receivedAt s.conn = (result, conn)) :
    ∃ as, as <+: [.execute receivedAt (replies 0), .commit (replies 1)] ∧
      Runs.run (step pg storable loads) s as = some { s with conn := conn, pc := .inserted i trade result } := by
  rw [Repository.insertOne, Session.transact, Session.executeAll] at h
  cases hexecute : s.conn.execute (replies 0) (Repository.insertStatement pg storable receivedAt [trade]) with
  | mk executed working =>
      rw [hexecute] at h
      cases executed with
      | error e =>
          cases h
          refine ⟨[.execute receivedAt (replies 0)], ⟨[_], rfl⟩, Runs.run_cons.mpr ⟨_, ?_, rfl⟩⟩
          simp only [step, hpc, hexecute, Pc.inserted]
      | ok _ =>
          have hcommit : working.commit (replies 1) = (result, conn) := h
          refine ⟨_, List.prefix_rfl, Runs.run_cons.mpr
            ⟨{ s with conn := working, pc := .committing i trade }, ?_, ?_⟩⟩
          · simp only [step, hpc, hexecute]
          · refine Runs.run_cons.mpr ⟨_, ?_, rfl⟩
            cases result <;> simp only [step, hcommit, Pc.inserted]

section Messages

variable {Body : Type} {messages : List (Message Body)} {i j : Nat} {status : Status} {body : Body}

@[simp] theorem bodyAt_setStatus : bodyAt (setStatus messages i status) j = bodyAt messages j := by
  rw [bodyAt, bodyAt, setStatus, List.getElem?_modify]
  split_ifs <;> simp [Function.comp_def]

theorem statusAt_setStatus : statusAt (setStatus messages i status) j =
    if i = j then (statusAt messages j).map fun _ => status else statusAt messages j := by
  rw [statusAt, statusAt, setStatus, List.getElem?_modify]
  split_ifs <;> simp [Function.comp_def]

theorem statusAt_setStatus_ne {other : Status} (hne : status ≠ other)
    (h : statusAt (setStatus messages i status) j = some other) : statusAt messages j = some other := by
  rw [statusAt_setStatus] at h
  split_ifs at h with hij
  · obtain ⟨old, -, hold⟩ := Option.map_eq_some_iff.mp h
    exact absurd hold hne
  · exact h

theorem bodyAt_publish (h : bodyAt messages i = some body) (m : Message Body) :
    bodyAt (messages ++ [m]) i = some body := by
  obtain ⟨old, hold, rfl⟩ := Option.map_eq_some_iff.mp h
  rw [bodyAt, List.getElem?_append_left (List.getElem?_eq_some_iff.mp hold).1, hold, Option.map_some]

theorem statusAt_publish (hready : status ≠ .ready) :
    statusAt (messages ++ [⟨body, .ready⟩]) i = some status ↔ statusAt messages i = some status := by
  rw [statusAt, statusAt]
  by_cases hi : i < messages.length
  · rw [List.getElem?_append_left hi]
  · rw [List.getElem?_append_right (not_lt.mp hi), List.getElem?_eq_none (not_lt.mp hi)]
    cases i - messages.length <;> simp [Ne.symm hready]

@[simp] theorem bodies_setStatus : (setStatus messages i status).map Message.body = messages.map Message.body := by
  ext1 j
  rw [List.getElem?_map, List.getElem?_map]
  exact bodyAt_setStatus

@[simp] theorem bodyAt_requeue : bodyAt (messages.map Message.requeue) i = bodyAt messages i := by
  have hbody : ∀ m : Message Body, m.requeue.body = m.body := by
    rintro ⟨body, status⟩
    cases status <;> rfl
  rw [bodyAt, bodyAt, List.getElem?_map, Option.map_map]
  exact Option.map_congr fun m _ => hbody m

theorem bodies_requeue : (messages.map Message.requeue).map Message.body = messages.map Message.body := by
  ext1 j
  calc ((messages.map Message.requeue).map Message.body)[j]?
      = bodyAt (messages.map Message.requeue) j := List.getElem?_map ..
    _ = bodyAt messages j := bodyAt_requeue
    _ = (messages.map Message.body)[j]? := List.getElem?_map.symm

theorem statusAt_requeue_acked (h : statusAt (messages.map Message.requeue) i = some .acked) :
    statusAt messages i = some .acked := by
  rw [statusAt, List.getElem?_map, Option.map_map, Option.map_eq_some_iff] at h
  obtain ⟨⟨body, status⟩, hm, hacked⟩ := h
  rw [statusAt, hm, Option.map_some]
  cases status <;> simp_all [Message.requeue]

end Messages

section Invariant

variable {Body : Type} {pg : Postgres} {storable : Dict → Bool} {loads : Body → Except Exn Json}
  {s t : State Body} {a : Action Body}

variable (loads) in
def Parses (messages : List (Message Body)) (i : Nat) (trade : Dict) : Prop :=
  ∃ body, bodyAt messages i = some body ∧ parse loads body = .ok trade

variable (pg) in
/-- The trade is stored, whatever becomes of an open transaction. -/
def Safe (conn : Session Bronze) (trade : Dict) : Prop := conn.All fun bronze => Stored pg bronze trade

variable (pg) in
/-- What neither a step nor a crash takes away from the table. -/
def Keeps (conn conn' : Session Bronze) : Prop :=
  (conn.All (KeyedTable.KeyUnique (RawTrade.tradeId pg)) → conn'.All (KeyedTable.KeyUnique (RawTrade.tradeId pg))) ∧
    ∀ trade, Safe pg conn trade → Safe pg conn' trade

theorem Keeps.refl (conn : Session Bronze) : Keeps pg conn conn := ⟨id, fun _ => id⟩

theorem insertStatement_keeps {receivedAt : Instant} {trade : Dict} {bronze bronze' : Bronze}
    (h : Repository.insertStatement pg storable receivedAt [trade] bronze = some bronze') :
    KeyedTable.KeyUnique (RawTrade.tradeId pg) bronze →
      KeyedTable.KeyUnique (RawTrade.tradeId pg) bronze' := by
  obtain ⟨-, rfl⟩ := Repository.insertStatement_eq_some.mp h
  exact KeyedTable.keyUnique_insertAbsent _ _

theorem insertStatement_stored {receivedAt : Instant} {trade other : Dict} {bronze bronze' : Bronze}
    (h : Repository.insertStatement pg storable receivedAt [trade] bronze = some bronze')
    (hother : Stored pg bronze other ∨ other = trade) : Stored pg bronze' other := by
  obtain ⟨-, rfl⟩ := Repository.insertStatement_eq_some.mp h
  rcases hother with hold | rfl
  · exact hold.insertBatch pg receivedAt [trade]
  · exact stored_insertBatch pg bronze receivedAt (List.mem_singleton_self other)

theorem keeps_execute {conn conn' : Session Bronze} {receivedAt : Instant} {trade : Dict}
    {reply : Transaction.Reply} {result : Except Transaction.Error Unit}
    (h : conn.execute reply (Repository.insertStatement pg storable receivedAt [trade]) = (result, conn')) :
    Keeps pg conn conn' := by
  obtain rfl : (conn.execute reply (Repository.insertStatement pg storable receivedAt [trade])).2 = conn' := by
    rw [h]
  refine ⟨fun hunique => hunique.execute fun _ _ hbefore hf => insertStatement_keeps hf hbefore, ?_⟩
  exact fun other hsafe => hsafe.execute fun _ _ hbefore hf => insertStatement_stored hf (.inl hbefore)

theorem keeps_commit {conn conn' : Session Bronze} {reply : Transaction.Reply}
    {result : Except Transaction.Error Unit} (h : conn.commit reply = (result, conn')) : Keeps pg conn conn' := by
  obtain rfl : (conn.commit reply).2 = conn' := by rw [h]
  exact ⟨fun hunique => hunique.commit, fun other hsafe => hsafe.commit⟩

theorem keeps_crash (conn : Session Bronze) : Keeps pg conn ⟨conn.committed, .idle⟩ :=
  ⟨fun hunique => Session.All.of_committed hunique.1 (by simp),
    fun other hsafe => Session.All.of_committed hsafe.1 (by simp)⟩

variable (pg loads) in
/-- What is known of the trade of the running callback. -/
def Position (messages : List (Message Body)) (conn : Session Bronze) : Pc → Prop
  | .idle | .parsing _ | .failed _ => True
  | .executing i trade => Parses loads messages i trade
  | .committing i trade =>
      Parses loads messages i trade ∧ ∃ work, conn.status = .active work ∧ Stored pg work trade
  | .committed i trade | .returned i trade => Parses loads messages i trade ∧ Safe pg conn trade

theorem Position.mono {messages messages' : List (Message Body)} {conn : Session Bronze} {pc : Pc}
    (hbody : ∀ i body, bodyAt messages i = some body → bodyAt messages' i = some body)
    (h : Position pg loads messages conn pc) : Position pg loads messages' conn pc := by
  have hparses : ∀ {i trade}, Parses loads messages i trade → Parses loads messages' i trade :=
    fun ⟨body, hat, hparse⟩ => ⟨body, hbody _ body hat, hparse⟩
  cases pc with
  | idle | parsing i | failed i => trivial
  | executing i trade => exact hparses h
  | committing i trade | committed i trade | returned i trade => exact ⟨hparses h.1, h.2⟩

variable (pg loads) in
structure Persisted (s : State Body) : Prop where
  unique : s.conn.All (KeyedTable.KeyUnique (RawTrade.tradeId pg))
  acked : ∀ i, statusAt s.messages i = some .acked →
    ∃ trade, Parses loads s.messages i trade ∧ Safe pg s.conn trade
  position : Position pg loads s.messages s.conn s.pc

/-- The parts of a step that decide: bodies stay, the table keeps what it has, and an ACK comes only for a
trade that is safe. -/
theorem Persisted.of_step (h : Persisted pg loads s) (hkeeps : Keeps pg s.conn t.conn)
    (hbody : ∀ i body, bodyAt s.messages i = some body → bodyAt t.messages i = some body)
    (hacked : ∀ i, statusAt t.messages i = some .acked →
      statusAt s.messages i = some .acked ∨ ∃ trade, s.pc = .returned i trade)
    (hposition : Position pg loads t.messages t.conn t.pc) : Persisted pg loads t := by
  refine ⟨hkeeps.1 h.unique, fun i hi => ?_, hposition⟩
  obtain ⟨trade, ⟨body, hat, hparse⟩, hsafe⟩ :
      ∃ trade, Parses loads s.messages i trade ∧ Safe pg s.conn trade := by
    rcases hacked i hi with hbefore | ⟨trade, hpc⟩
    · exact h.acked i hbefore
    · have hreturned := h.position
      rw [hpc] at hreturned
      exact ⟨trade, hreturned⟩
  exact ⟨trade, ⟨body, hbody i body hat, hparse⟩, hkeeps.2 trade hsafe⟩

theorem persisted_step (h : Persisted pg loads s) (hstep : step pg storable loads s a = some t) :
    Persisted pg loads t := by
  have hposition := h.position
  cases transition_of_step hstep with
  | publish body =>
      refine h.of_step (Keeps.refl _) (fun i body hat => bodyAt_publish hat _) (fun i hi => ?_) ?_
      · exact .inl ((statusAt_publish (by simp)).mp hi)
      · exact hposition.mono fun i body hat => bodyAt_publish hat _
  | expire i hready | deliver i hready =>
      refine h.of_step (Keeps.refl _) (fun j body hat => by rw [bodyAt_setStatus, hat]) (fun j hj => ?_) ?_
      · exact .inl (statusAt_setStatus_ne (by simp) hj)
      · exact hposition.mono fun j body hat => by rw [bodyAt_setStatus, hat]
  | begin | unreadable | raised => exact h.of_step (Keeps.refl _) (fun _ _ => id) (fun _ => .inl) trivial
  | parsed i trade hpc hparse => exact h.of_step (Keeps.refl _) (fun _ _ => id) (fun _ => .inl) hparse
  | executed receivedAt reply i trade conn hpc hexecute =>
      rw [hpc] at hposition
      refine h.of_step (keeps_execute hexecute) (fun _ _ => id) (fun _ => .inl) ⟨hposition, ?_⟩
      obtain ⟨-, -, work, hwork, rfl⟩ := Session.execute_ok hexecute
      exact ⟨work, rfl, insertStatement_stored hwork (.inr rfl)⟩
  | executeRaised receivedAt reply i trade e conn hpc hexecute =>
      exact h.of_step (keeps_execute hexecute) (fun _ _ => id) (fun _ => .inl) trivial
  | committed reply i trade conn hpc hcommit =>
      rw [hpc] at hposition
      obtain ⟨hparses, work, hactive, hstored⟩ := hposition
      refine h.of_step (keeps_commit hcommit) (fun _ _ => id) (fun _ => .inl) ⟨hparses, ?_⟩
      obtain ⟨-, rfl⟩ := Session.commit_ok hactive hcommit
      exact Session.All.of_committed hstored (by simp)
  | commitRaised reply i trade e conn hpc hcommit =>
      exact h.of_step (keeps_commit hcommit) (fun _ _ => id) (fun _ => .inl) trivial
  | returned i trade hpc =>
      rw [hpc] at hposition
      exact h.of_step (Keeps.refl _) (fun _ _ => id) (fun _ => .inl) hposition
  | ack i trade hpc =>
      refine h.of_step (Keeps.refl _) (fun j body hat => ?_) (fun j hj => ?_) trivial
      · rw [State.settle, bodyAt_setStatus, hat]
      · by_cases hij : i = j
        · exact .inr ⟨trade, hij ▸ hpc⟩
        · rw [State.settle, statusAt_setStatus, if_neg hij] at hj
          exact .inl hj
  | nack i hpc =>
      refine h.of_step (Keeps.refl _) (fun j body hat => ?_) (fun j hj => ?_) trivial
      · rw [State.settle, bodyAt_setStatus, hat]
      · exact .inl (statusAt_setStatus_ne (by simp) hj)
  | crash =>
      refine h.of_step (keeps_crash _) (fun i body hat => by rw [bodyAt_requeue, hat]) (fun i hi => ?_) trivial
      exact .inl (statusAt_requeue_acked hi)

theorem persisted_init {bronze : Bronze} (hunique : KeyedTable.KeyUnique (RawTrade.tradeId pg) bronze) :
    Persisted pg loads (init bronze) where
  unique := Session.All.of_committed hunique (by simp [init])
  acked i hi := by simp [init, statusAt] at hi
  position := trivial

end Invariant

section Books

variable {Body : Type} {pg : Postgres} {storable : Dict → Bool} {loads : Body → Except Exn Json}
  {s t : State Body} {a : Action Body} {i : Nat}

/-- The deliveries of the incarnation that are not settled. -/
def State.held (s : State Body) : List Nat := s.pc.current.toList ++ s.inbox

structure Books (s : State Body) : Prop where
  nodup : s.held.Nodup
  held : ∀ i ∈ s.held, statusAt s.messages i = some .delivered
  settled : ∀ i acked, (i, acked) ∈ s.settled → statusAt s.messages i = some (if acked then .acked else .dead)
  once : (s.settled.map Prod.fst).Nodup
  returned : ∀ i, i ∈ s.returned ↔ (i, true) ∈ s.settled ∨ ∃ trade, s.pc = .returned i trade

theorem Books.not_settled (h : Books s) (hi : i ∈ s.held) : i ∉ s.settled.map Prod.fst := by
  rintro hmem
  obtain ⟨⟨j, acked⟩, hj, rfl⟩ := List.mem_map.mp hmem
  have hstatus := h.settled j acked hj
  rw [h.held j hi] at hstatus
  cases acked <;> cases hstatus

theorem Books.not_held (h : Books s) (hi : statusAt s.messages i = some .ready) :
    i ∉ s.held ∧ i ∉ s.settled.map Prod.fst := by
  refine ⟨fun hheld => ?_, fun hmem => ?_⟩
  · rw [h.held i hheld] at hi
    cases hi
  · obtain ⟨⟨j, acked⟩, hj, rfl⟩ := List.mem_map.mp hmem
    rw [h.settled j acked hj] at hi
    cases acked <;> cases hi

/-- A step that settles nothing and takes no new delivery. -/
theorem Books.of_step (h : Books s)
    (hstatus : ∀ i status, status ≠ .ready → statusAt s.messages i = some status →
      statusAt t.messages i = some status)
    (hheld : t.held = s.held) (hsettled : t.settled = s.settled)
    (hreturned : ∀ i, i ∈ t.returned ↔ (i, true) ∈ s.settled ∨ ∃ trade, t.pc = .returned i trade) :
    Books t where
  nodup := hheld ▸ h.nodup
  held i hi := hstatus i _ (by simp) (h.held i (hheld ▸ hi))
  settled i acked hi := hstatus i _ (by cases acked <;> simp) (h.settled i acked (hsettled ▸ hi))
  once := hsettled ▸ h.once
  returned := hsettled ▸ hreturned

/-- A step inside the callback, short of the return of `insert_one`. -/
theorem Books.goto (h : Books s) {conn : Session Bronze} {pc : Pc} (hcurrent : pc.current = s.pc.current)
    (hbefore : ∀ i trade, s.pc ≠ .returned i trade) (hafter : ∀ i trade, pc ≠ .returned i trade) :
    Books { s with conn := conn, pc := pc } := by
  refine h.of_step (fun _ _ _ => id) (by rw [State.held, hcurrent, State.held]) rfl fun i => ?_
  rw [h.returned i]
  exact or_congr_right ⟨fun ⟨trade, hpc⟩ => absurd hpc (hbefore i trade),
    fun ⟨trade, hpc⟩ => absurd hpc (hafter i trade)⟩

theorem Books.deliver (h : Books s) (hi : statusAt s.messages i = some .ready) :
    Books { s with messages := setStatus s.messages i .delivered, inbox := s.inbox ++ [i] } := by
  obtain ⟨hfree, hunsettled⟩ := h.not_held hi
  have hheld : State.held { s with messages := setStatus s.messages i .delivered, inbox := s.inbox ++ [i] } =
      s.held ++ [i] := (List.append_assoc _ _ _).symm
  refine ⟨?_, fun j hj => ?_, fun j acked hj => ?_, h.once, h.returned⟩
  · rw [hheld]
    exact List.nodup_append_comm.mp (List.nodup_cons.mpr ⟨hfree, h.nodup⟩)
  · rw [statusAt_setStatus]
    split_ifs with hij
    · rw [← hij, hi, Option.map_some]
    · rw [hheld, List.mem_append, List.mem_singleton] at hj
      exact h.held j (hj.resolve_right fun heq => hij heq.symm)
  · have hij : i ≠ j := by
      rintro rfl
      exact hunsettled (List.mem_map_of_mem hj)
    rw [statusAt_setStatus, if_neg hij]
    exact h.settled j acked hj

theorem Books.settle (h : Books s) {acked : Bool} (hcurrent : s.pc.current = some i)
    (hacked : acked = true ↔ ∃ trade, s.pc = .returned i trade) : Books (s.settle i acked) := by
  have hheld : s.held = i :: s.inbox := by rw [State.held, hcurrent, Option.toList_some, List.singleton_append]
  have hunsettled := h.not_settled (hheld ▸ List.mem_cons_self)
  have hnodup := h.nodup
  rw [hheld, List.nodup_cons] at hnodup
  refine ⟨hnodup.2, fun j hj => ?_, fun j verdict hj => ?_, ?_, fun j => ?_⟩
  · have hj : j ∈ s.inbox := hj
    have hij : i ≠ j := by
      rintro rfl
      exact hnodup.1 hj
    rw [State.settle, statusAt_setStatus, if_neg hij]
    exact h.held j (hheld ▸ List.mem_cons_of_mem i hj)
  · rcases List.mem_append.mp hj with hold | hnew
    · have hij : i ≠ j := by
        rintro rfl
        exact hunsettled (List.mem_map_of_mem hold)
      rw [State.settle, statusAt_setStatus, if_neg hij]
      exact h.settled j verdict hold
    · cases List.mem_singleton.mp hnew
      rw [State.settle, statusAt_setStatus, if_pos rfl, h.held i (hheld ▸ List.mem_cons_self), Option.map_some]
  · rw [State.settle, List.map_append]
    exact List.nodup_append_comm.mp (List.nodup_cons.mpr ⟨hunsettled, h.once⟩)
  · have hreturned : (∃ trade, s.pc = .returned j trade) ↔ (j, true) = (i, acked) := by
      constructor
      · rintro ⟨trade, hpc⟩
        rw [hpc] at hcurrent
        obtain rfl : j = i := Option.some.inj hcurrent
        rw [hacked.mpr ⟨trade, hpc⟩]
      · intro heq
        obtain ⟨rfl, htrue⟩ := Prod.mk.inj heq
        exact hacked.mp htrue.symm
    simp only [State.settle, List.mem_append, List.mem_singleton, reduceCtorEq, exists_false, or_false]
    rw [h.returned j, hreturned]

theorem books_step (h : Books s) (hstep : step pg storable loads s a = some t) : Books t := by
  cases transition_of_step hstep with
  | publish body =>
      exact h.of_step (fun i status hready hi => (statusAt_publish hready).mpr hi) rfl rfl h.returned
  | expire i hi =>
      refine h.of_step (fun j status hready hj => ?_) rfl rfl h.returned
      have hij : i ≠ j := by
        rintro rfl
        rw [hi] at hj
        exact hready (Option.some.inj hj).symm
      rw [statusAt_setStatus, if_neg hij, hj]
  | deliver i hi => exact h.deliver hi
  | begin i inbox hpc hinbox =>
      refine h.of_step (fun _ _ _ => id) (by simp [State.held, hpc, hinbox, Pc.current]) rfl fun j => ?_
      rw [h.returned j]
      simp [hpc]
  | parsed i trade hpc | unreadable i hpc | executed _ _ i trade conn hpc | executeRaised _ _ i trade e conn hpc
  | committed _ i trade conn hpc | commitRaised _ i trade e conn hpc | raised i trade hpc =>
      exact h.goto (by simp [hpc, Pc.current]) (by simp [hpc]) (by simp)
  | returned i trade hpc =>
      refine h.of_step (fun _ _ _ => id) (by simp [State.held, hpc, Pc.current]) rfl fun j => ?_
      rw [List.mem_append, h.returned j]
      simp [hpc, eq_comm]
  | ack i trade hpc => exact h.settle (by rw [hpc]; rfl) (by simp [hpc])
  | nack i hpc => exact h.settle (by rw [hpc]; rfl) (by simp [hpc])
  | crash => exact ⟨List.nodup_nil, by simp [State.held, Pc.current], by simp, List.nodup_nil, by simp⟩

theorem books_init (bronze : Bronze) : Books (init bronze : State Body) :=
  ⟨List.nodup_nil, by simp [State.held, Pc.current, init], by simp [init], List.nodup_nil, by simp [init]⟩

def Action.published : Action Body → Option Body
  | .publish body => some body
  | _ => none

theorem bodies_step (hstep : step pg storable loads s a = some t) :
    t.messages.map Message.body = s.messages.map Message.body ++ a.published.toList := by
  cases transition_of_step hstep with
  | publish body => exact List.map_append
  | crash => exact bodies_requeue.trans (List.append_nil _).symm
  | expire | deliver | ack | nack => exact bodies_setStatus.trans (List.append_nil _).symm
  | _ => exact (List.append_nil _).symm

/-- The queue holds what was published, in order and whatever its status. -/
theorem bodies_run {as : List (Action Body)} (hrun : Runs.run (step pg storable loads) s as = some t) :
    t.messages.map Message.body = s.messages.map Message.body ++ as.filterMap Action.published := by
  induction as generalizing s with
  | nil =>
      cases hrun
      exact (List.append_nil _).symm
  | cons a as ih =>
      obtain ⟨u, hstep, hrest⟩ := Runs.run_cons.mp hrun
      calc t.messages.map Message.body
          = u.messages.map Message.body ++ as.filterMap Action.published := ih hrest
        _ = s.messages.map Message.body ++ a.published.toList ++ as.filterMap Action.published := by
            rw [bodies_step hstep]
        _ = s.messages.map Message.body ++ (a :: as).filterMap Action.published := by
            cases h : a.published <;> simp [h]

end Books

/-- `acked` and `whereabouts` are about the messages over all incarnations, `once` and `verdict` about the
deliveries of the one that runs. -/
structure AtLeastOnce {Body : Type} (pg : Postgres) (loads : Body → Except Exn Json) (published : List Body)
    (s : State Body) : Prop where
  bodies : s.messages.map Message.body = published
  acked : ∀ m ∈ s.messages, m.status = .acked →
    ∃ trade, parse loads m.body = .ok trade ∧ Stored pg s.conn.committed trade
  whereabouts : ∀ m ∈ s.messages, (m.status = .ready ∨ m.status = .delivered) ∨ m.status = .dead ∨
    ∃ trade, parse loads m.body = .ok trade ∧ Stored pg s.conn.committed trade
  once : (s.settled.map Prod.fst).Nodup
  verdict : ∀ i acked, (i, acked) ∈ s.settled → (acked = true ↔ i ∈ s.returned) ∧
    statusAt s.messages i = some (if acked then .acked else .dead)
  unique : KeyedTable.KeyUnique (RawTrade.tradeId pg) s.conn.committed

section Main

variable {Body : Type} {pg : Postgres} {storable : Dict → Bool} {loads : Body → Except Exn Json} {s : State Body}

theorem Persisted.exists_stored (h : Persisted pg loads s) {m : Message Body} (hm : m ∈ s.messages)
    (hacked : m.status = .acked) :
    ∃ trade, parse loads m.body = .ok trade ∧ Stored pg s.conn.committed trade := by
  obtain ⟨i, hi⟩ := List.mem_iff_getElem?.mp hm
  obtain ⟨trade, ⟨body, hat, hparse⟩, hsafe⟩ := h.acked i (by rw [statusAt, hi, Option.map_some, hacked])
  rw [bodyAt, hi, Option.map_some, Option.some.injEq] at hat
  exact ⟨trade, hat ▸ hparse, hsafe.1⟩

theorem Books.verdict (h : Books s) {i : Nat} {acked : Bool} (hi : (i, acked) ∈ s.settled) :
    acked = true ↔ i ∈ s.returned := by
  rw [h.returned i]
  constructor
  · rintro rfl
    exact .inl hi
  · rintro (hack | ⟨trade, hpc⟩)
    · have hstatus := h.settled i true hack
      rw [h.settled i acked hi] at hstatus
      cases acked <;> simp at hstatus ⊢
    · have hheld : i ∈ s.held := by simp [State.held, hpc, Pc.current]
      exact absurd (List.mem_map_of_mem hi) (h.not_settled hheld)

/-- **At-least-once with direct persistence**, in every state of every run. -/
theorem at_least_once {bronze : Bronze} (hunique : KeyedTable.KeyUnique (RawTrade.tradeId pg) bronze)
    {as : List (Action Body)} (hrun : Runs.run (step pg storable loads) (init bronze) as = some s) :
    AtLeastOnce pg loads (as.filterMap Action.published) s := by
  have hpersisted := Runs.invariant (fun _ _ _ => persisted_step) (persisted_init hunique) hrun
  have hbooks := Runs.invariant (fun _ _ _ => books_step) (books_init bronze) hrun
  refine ⟨bodies_run hrun, fun m hm hacked => hpersisted.exists_stored hm hacked, fun m hm => ?_, hbooks.once,
    fun i acked hi => ⟨hbooks.verdict hi, hbooks.settled i acked hi⟩, hpersisted.unique.1⟩
  cases hstatus : m.status with
  | ready => exact .inl (.inl rfl)
  | delivered => exact .inl (.inr rfl)
  | dead => exact .inr (.inl rfl)
  | acked => exact .inr (.inr (hpersisted.exists_stored hm hstatus))

end Main

/-- A crash behind the commit and ahead of the ACK: the trade is delivered again and suppressed. The other
message is no JSON object. -/
def crashBeforeAck : List (Action Json) :=
  [.publish (.obj [("trade_id", .str "1")]), .publish .null, .deliver 0, .deliver 1, .begin, .parse,
    .execute 5 .done, .commit .done, .crash, .deliver 0, .begin, .parse, .execute 9 .done, .commit .done,
    .finish false, .settle, .deliver 1, .begin, .parse, .settle]

theorem at_least_once_crashBeforeAck :
    ∃ s, Runs.run (step Repository.samplePostgres Repository.sampleStorable .ok) (init []) crashBeforeAck = some s ∧
      s.settled = [(0, true), (1, false)] ∧ s.conn.committed.length = 1 ∧
      AtLeastOnce Repository.samplePostgres .ok [.obj [("trade_id", .str "1")], .null] s := by
  obtain ⟨s, hrun, hsettled, hbronze⟩ : ∃ s, Runs.run (step Repository.samplePostgres Repository.sampleStorable .ok)
      (init []) crashBeforeAck = some s ∧ s.settled = [(0, true), (1, false)] ∧ s.conn.committed.length = 1 :=
    ⟨_, rfl, rfl, rfl⟩
  have hempty : KeyedTable.KeyUnique (RawTrade.tradeId Repository.samplePostgres) [] := List.nodup_nil
  exact ⟨s, hrun, hsettled, hbronze, at_least_once hempty hrun⟩

end CryptoLakehouse.Delivery
