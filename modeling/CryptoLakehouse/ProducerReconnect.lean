import CryptoLakehouse.LibraryRuns
import CryptoLakehouse.ProducerStream

/-! The outer loop of `_stream` (`producer/main.py`) over `CoinbaseWebSocketClient`: it connects, subscribes
and listens until the session ends. Every way out of a session but one goes through the handler that sleeps
before the next turn: when the peer closes cleanly, `listen` ends without an exception. -/

namespace CryptoLakehouse.Reconnect

variable {Frame Body : Type}

def MAX_RECONNECT_ATTEMPTS : Nat := 10

/-- `exponential_backoff` with its defaults, in seconds; `none` raises. -/
def exponentialBackoff (attempt : Int) : Option Int :=
  let base := 1
  let maxDelay := 60
  if attempt < 0 then none else some (min (base * 2 ^ attempt.toNat) maxDelay)

/-- A connection as `connect` returns it, until the peer or the network ends it. -/
inductive Websocket where
  | opened
  | closed (clean : Bool)
  deriving DecidableEq

/-- What `_stream` does that its caller and the exchange can tell. -/
inductive Event where
  | connect
  | subscribed
  | failed
  | slept (delay : Int)
  | ended
  deriving DecidableEq

inductive Pc where
  /-- about to test `_shutdown_requested` -/
  | looping
  | connecting
  | subscribing
  | listening
  /-- in the `except` branch -/
  | handling
  | sleeping
  | returned
  deriving DecidableEq

/-- `websockets` are all that were opened, the current one last; `stream` holds the counters and what was
published. -/
structure State (Body : Type) where
  pc : Pc
  attempt : Nat
  shutdown : Bool
  websockets : List Websocket
  events : List Event
  stream : Stream.State Body

def init : State Body := ⟨.looping, 0, false, [], [], Stream.init⟩

/-- `signal` sets `_shutdown_requested`. The peer closes a websocket whenever it likes; `listen` ends on a
clean close and raises on another. -/
inductive Action (Frame : Type) where
  | signal
  | peerCloses (i : Nat) (clean : Bool)
  | loop
  | connectReturns
  | connectRaises
  | subscribeReturns
  | subscribeRaises
  | frame (raw : Frame)
  | ends
  | drops
  | handle
  | wake

section Code

variable (py : Pydantic) (loads : Frame → Except Exn Json) (dump : TradeMessage → Body)

/-- An exception on its way to the handler. -/
def State.fail (s : State Body) : State Body := { s with pc := .handling, events := s.events ++ [.failed] }

/-- What `listen` makes of a frame: it skips what is not JSON, and logs the rest by `message.get`. -/
def listen (raw : Frame) : Except Exn (Option Dict) :=
  match loads raw with
  | .error .jsonDecodeError => .ok none
  | .error e => .error e
  | .ok value =>
      match value.asDict with
      | .error e => .error e
      | .ok message => .ok (some message)

/-- One frame. The flag is tested on the messages that `listen` yields. -/
def State.onRaw (s : State Body) (raw : Frame) : State Body :=
  match listen loads raw with
  | .error _ => s.fail
  | .ok none => s
  | .ok (some message) =>
      if s.shutdown then { s with pc := .looping }
      else
        match Stream.onMessage py dump s.stream message with
        | (stream, none) => { s with stream := stream }
        | (stream, some _) => { s with stream := stream }.fail

def step (s : State Body) : Action Frame → Option (State Body)
  | .signal => some { s with shutdown := true }
  | .peerCloses i clean =>
      match s.websockets[i]? with
      | some .opened => some { s with websockets := s.websockets.set i (.closed clean) }
      | _ => none
  | .loop =>
      match s.pc with
      | .looping =>
          some (if s.shutdown then { s with pc := .returned }
            else { s with pc := .connecting, events := s.events ++ [.connect] })
      | _ => none
  | .connectReturns =>
      match s.pc with
      | .connecting => some { s with pc := .subscribing, websockets := s.websockets ++ [.opened] }
      | _ => none
  | .connectRaises =>
      match s.pc with
      | .connecting => some s.fail
      | _ => none
  | .subscribeReturns =>
      match s.pc with
      | .subscribing => some { s with pc := .listening, attempt := 0, events := s.events ++ [.subscribed] }
      | _ => none
  | .subscribeRaises =>
      match s.pc with
      | .subscribing => some s.fail
      | _ => none
  | .frame raw =>
      match s.pc with
      | .listening => some (s.onRaw py loads dump raw)
      | _ => none
  | .ends =>
      match s.pc, s.websockets.getLast? with
      | .listening, some (.closed true) => some { s with pc := .looping, events := s.events ++ [.ended] }
      | _, _ => none
  | .drops =>
      match s.pc, s.websockets.getLast? with
      | .listening, some (.closed false) => some s.fail
      | _, _ => none
  | .handle =>
      match s.pc with
      | .handling =>
          if s.shutdown then some { s with pc := .returned }
          else
            match exponentialBackoff s.attempt with
            | some delay => some { s with pc := .sleeping, events := s.events ++ [.slept delay] }
            | none => some { s with pc := .returned }
      | _ => none
  | .wake =>
      match s.pc with
      | .sleeping =>
          let attempt := s.attempt + 1
          some { s with attempt := attempt, pc := if attempt ≥ MAX_RECONNECT_ATTEMPTS then .returned else .looping }
      | _ => none

end Code

section Frames

variable {py : Pydantic} {loads : Frame → Except Exn Json} {dump : TradeMessage → Body}

/-- The frame ends the session: by the shutdown that its message finds, or by an exception. -/
def EndsOn (py : Pydantic) (loads : Frame → Except Exn Json) (shutdown : Bool) (raw : Frame) : Prop :=
  if shutdown then loads raw ≠ .error .jsonDecodeError else ¬Stream.BenignFrame py loads raw

/-- Before a shutdown is requested a frame is what the session makes of it. -/
theorem onRaw_of_running {s : State Body} (hrunning : s.shutdown = false) (raw : Frame) :
    s.onRaw py loads dump raw =
      match Stream.onFrame py loads dump s.stream raw with
      | (stream, none) => { s with stream := stream }
      | (stream, some _) => { s with stream := stream }.fail := by
  unfold State.onRaw listen Stream.onFrame
  cases loads raw with
  | error e => cases e <;> rfl
  | ok value =>
      cases value with
      | obj message => simp only [Json.asDict, hrunning]; rfl
      | null | bool | int | float | str | arr => rfl

variable (py loads dump) in
/-- What a frame can come to. -/
theorem onRaw_cases (s : State Body) (raw : Frame) :
    (¬EndsOn py loads s.shutdown raw ∧ ∃ stream, s.onRaw py loads dump raw = { s with stream := stream }) ∨
      EndsOn py loads s.shutdown raw ∧
        (s.shutdown = true ∧ s.onRaw py loads dump raw = { s with pc := .looping } ∨
          ∃ stream, s.onRaw py loads dump raw = { s with stream := stream }.fail) := by
  have hhandles : Stream.Handles dump (Stream.onFrame py loads dump) (Stream.BenignFrame py loads) _ :=
    Stream.handles_onFrame
  rcases Bool.eq_false_or_eq_true s.shutdown with hshutdown | hshutdown
  · unfold State.onRaw listen EndsOn
    rw [if_pos hshutdown]
    cases hloads : loads raw with
    | error e =>
        cases e
        case jsonDecodeError => exact .inl ⟨by simp, s.stream, rfl⟩
        all_goals exact .inr ⟨by simp, .inr ⟨s.stream, rfl⟩⟩
    | ok value =>
        cases value with
        | obj message => exact .inr ⟨by simp, .inl ⟨hshutdown, if_pos hshutdown⟩⟩
        | null | bool | int | float | str | arr => exact .inr ⟨by simp, .inr ⟨s.stream, rfl⟩⟩
  · rw [onRaw_of_running hshutdown]
    by_cases hbenign : Stream.BenignFrame py loads raw
    · obtain ⟨stream, hframe, -⟩ := hhandles.takes s.stream raw hbenign
      rw [hframe]
      exact .inl ⟨by simpa [EndsOn, hshutdown] using hbenign, stream, rfl⟩
    · obtain ⟨stream, e, hframe⟩ := hhandles.raises s.stream raw hbenign
      rw [hframe]
      exact .inr ⟨by simpa [EndsOn, hshutdown] using hbenign, .inr ⟨stream, rfl⟩⟩

end Frames

/-- The check for a negative attempt never fires in `_stream`. -/
theorem exponentialBackoff_natCast (attempt : Nat) :
    exponentialBackoff attempt = some (min (1 * 2 ^ attempt) 60) := by
  rw [exponentialBackoff, if_neg (Int.not_lt.mpr (Int.natCast_nonneg attempt)), Int.toNat_natCast]

section Step

variable {py : Pydantic} {loads : Frame → Except Exn Json} {dump : TradeMessage → Body}

/-- What a step can do, case by case. -/
inductive Transition (py : Pydantic) (loads : Frame → Except Exn Json) (s : State Body) :
    Action Frame → State Body → Prop where
  | signal : Transition py loads s .signal { s with shutdown := true }
  | peerCloses (i : Nat) (clean : Bool) (hopen : s.websockets[i]? = some .opened) :
      Transition py loads s (.peerCloses i clean) { s with websockets := s.websockets.set i (.closed clean) }
  | returns (hpc : s.pc = .looping) (hshutdown : s.shutdown = true) :
      Transition py loads s .loop { s with pc := .returned }
  | connects (hpc : s.pc = .looping) (hrunning : s.shutdown = false) :
      Transition py loads s .loop { s with pc := .connecting, events := s.events ++ [.connect] }
  | opens (hpc : s.pc = .connecting) :
      Transition py loads s .connectReturns
        { s with pc := .subscribing, websockets := s.websockets ++ [.opened] }
  | refused (hpc : s.pc = .connecting) : Transition py loads s .connectRaises s.fail
  | subscribes (hpc : s.pc = .subscribing) :
      Transition py loads s .subscribeReturns
        { s with pc := .listening, attempt := 0, events := s.events ++ [.subscribed] }
  | unsubscribed (hpc : s.pc = .subscribing) : Transition py loads s .subscribeRaises s.fail
  | takes (raw : Frame) (hpc : s.pc = .listening) (hstays : ¬EndsOn py loads s.shutdown raw)
      (stream : Stream.State Body) : Transition py loads s (.frame raw) { s with stream := stream }
  | breaks (raw : Frame) (hpc : s.pc = .listening) (hends : EndsOn py loads s.shutdown raw)
      (hshutdown : s.shutdown = true) : Transition py loads s (.frame raw) { s with pc := .looping }
  | raises (raw : Frame) (hpc : s.pc = .listening) (hends : EndsOn py loads s.shutdown raw)
      (stream : Stream.State Body) : Transition py loads s (.frame raw) { s with stream := stream }.fail
  | ends (hpc : s.pc = .listening) (hclosed : s.websockets.getLast? = some (.closed true)) :
      Transition py loads s .ends { s with pc := .looping, events := s.events ++ [.ended] }
  | drops (hpc : s.pc = .listening) (hclosed : s.websockets.getLast? = some (.closed false)) :
      Transition py loads s .drops s.fail
  | stops (hpc : s.pc = .handling) (hshutdown : s.shutdown = true) :
      Transition py loads s .handle { s with pc := .returned }
  | sleeps (hpc : s.pc = .handling) (hrunning : s.shutdown = false) (delay : Int)
      (hdelay : exponentialBackoff s.attempt = some delay) :
      Transition py loads s .handle { s with pc := .sleeping, events := s.events ++ [.slept delay] }
  | wakes (hpc : s.pc = .sleeping) (hmore : s.attempt + 1 < MAX_RECONNECT_ATTEMPTS) :
      Transition py loads s .wake { s with attempt := s.attempt + 1, pc := .looping }
  | givesUp (hpc : s.pc = .sleeping) (hmax : MAX_RECONNECT_ATTEMPTS ≤ s.attempt + 1) :
      Transition py loads s .wake { s with attempt := s.attempt + 1, pc := .returned }

theorem transition_of_step {s s' : State Body} {a : Action Frame} (h : step py loads dump s a = some s') :
    Transition py loads s a s' := by
  cases a with
  | signal =>
      cases h
      exact .signal
  | peerCloses i clean =>
      simp only [step] at h
      split at h <;> cases h
      exact .peerCloses i clean (by assumption)
  | loop =>
      cases hpc : s.pc <;> simp only [step, hpc] at h <;> cases h
      rcases Bool.eq_false_or_eq_true s.shutdown with hshutdown | hrunning
      · rw [if_pos hshutdown]
        exact .returns hpc hshutdown
      · rw [if_neg (Bool.not_eq_true _ ▸ hrunning)]
        exact .connects hpc hrunning
  | connectReturns =>
      cases hpc : s.pc <;> simp only [step, hpc] at h <;> cases h
      exact .opens hpc
  | connectRaises =>
      cases hpc : s.pc <;> simp only [step, hpc] at h <;> cases h
      exact .refused hpc
  | subscribeReturns =>
      cases hpc : s.pc <;> simp only [step, hpc] at h <;> cases h
      exact .subscribes hpc
  | subscribeRaises =>
      cases hpc : s.pc <;> simp only [step, hpc] at h <;> cases h
      exact .unsubscribed hpc
  | frame raw =>
      cases hpc : s.pc <;> simp only [step, hpc] at h <;> cases h
      rcases onRaw_cases py loads dump s raw with
        ⟨hstays, stream, heq⟩ | ⟨hends, ⟨hshutdown, heq⟩ | ⟨stream, heq⟩⟩ <;> rw [heq]
      · exact .takes raw hpc hstays stream
      · exact .breaks raw hpc hends hshutdown
      · exact .raises raw hpc hends stream
  | ends =>
      simp only [step] at h
      split at h <;> cases h
      exact .ends (by assumption) (by assumption)
  | drops =>
      simp only [step] at h
      split at h <;> cases h
      exact .drops (by assumption) (by assumption)
  | handle =>
      cases hpc : s.pc <;> simp only [step, hpc, exponentialBackoff_natCast] at h <;> try cases h
      split_ifs at h with hshutdown <;> cases h
      · exact .stops hpc hshutdown
      · exact .sleeps hpc (Bool.not_eq_true _ ▸ hshutdown) _ (exponentialBackoff_natCast _)
  | wake =>
      cases hpc : s.pc <;> simp only [step, hpc] at h <;> cases h
      split_ifs with hmax
      · exact .givesUp hpc hmax
      · exact .wakes hpc (Nat.not_le.mp hmax)

end Step

end CryptoLakehouse.Reconnect
