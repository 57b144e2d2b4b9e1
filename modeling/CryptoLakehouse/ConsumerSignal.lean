import CryptoLakehouse.ConsumerMain
import Mathlib.Data.List.Induction

/-! `_handle_shutdown` of `consumer/main.py`. It sets `_shutdown_requested`, which nothing reads: neither
`main` nor `start_consuming`, which dispatches deliveries until `stop_consuming` or an exception ends it. -/

namespace CryptoLakehouse.ConsumerSignal

/-- `begun` lists the bodies whose `on_message` has begun, each with the flag as it was then. -/
structure State (Body : Type) where
  process : ConsumerMain.State Body
  shutdownRequested : Bool
  begun : List (Body × Bool)

/-- A handled SIGTERM or SIGINT, or something that the process is offered. -/
inductive Event (Body : Type) where
  | signal
  | act (a : ConsumerMain.Action Body)

section Code

variable {Body : Type} (pg : Postgres) (loads : Body → Except Exn Json)

def handleShutdown (s : State Body) : State Body := { s with shutdownRequested := true }

/-- What the process makes of an offer; one that it cannot take where it stands is left out. -/
def take (process : ConsumerMain.State Body) (a : ConsumerMain.Action Body) : ConsumerMain.State Body :=
  (ConsumerMain.step pg loads process a).getD process

/-- `start_consuming` calls `on_message` for a delivery that it is offered while it waits. -/
def dispatches (process : ConsumerMain.State Body) : ConsumerMain.Action Body → Option Body
  | .deliver body =>
      match process.main with
      | .consuming => some body
      | _ => none
  | _ => none

def handle (s : State Body) : Event Body → State Body
  | .signal => handleShutdown s
  | .act a =>
      { s with
        process := take pg loads s.process a
        begun := s.begun ++ (dispatches s.process a).toList.map fun body => (body, s.shutdownRequested) }

def init (batchSize : Int) (bronze : Bronze) : State Body := ⟨ConsumerMain.init batchSize bronze, false, []⟩

def after (s : State Body) (events : List (Event Body)) : State Body := events.foldl (handle pg loads) s

end Code

section Law

variable {Body : Type} (pg : Postgres) (loads : Body → Except Exn Json)

variable {pg loads} {s : State Body} {events : List (Event Body)}

theorem after_snoc (event : Event Body) :
    after pg loads s (events ++ [event]) = handle pg loads (after pg loads s events) event := by
  rw [after, List.foldl_append]
  rfl

end Law

end CryptoLakehouse.ConsumerSignal
