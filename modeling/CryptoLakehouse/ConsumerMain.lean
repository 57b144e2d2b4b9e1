import CryptoLakehouse.ConsumerFifo
import CryptoLakehouse.WarehouseBronze

/-! `consumer/main.py`: a `TradeConsumer` whose repository is the `BatchBuffer` over the
`TradeRepository`. The main thread runs `on_message` and, once `start` is over, the shutdown sequence;
the timers run flushes of their own. `insert_one` of the buffer is `add`, so an acknowledgement says
that the trade was appended, and that a flush triggered by its size, if any, is over. -/

namespace CryptoLakehouse.ConsumerMain

/-- Where the main thread stands. `handling` is between the `add` of a delivery and its settlement. -/
inductive MainPc where
  | consuming
  | handling (message : Dict)
  | flushing
  | stopping
  | closing
  | finished

structure State (Body : Type) where
  buffer : BatchBuffer.System Unit Dict
  bronze : Bronze
  main : MainPc
  acked : List Dict
  nacked : List Body

/-- The steps of the main thread, and those of flushes and timers. `shutdown` is an exception that ends
`start`, of the connection or of a settlement. `commitUnseen` is an `insert_batch` that raises although the
server committed. -/
inductive Action (Body : Type) where
  | deliver (body : Body)
  | ack
  | shutdown
  | stop
  | close
  | disconnect
  | expire (k : Nat)
  | claim (th : Thread Unit)
  | insertReturns (th : Thread Unit) (receivedAt : Instant)
  | insertRaises (th : Thread Unit)
  | commitUnseen (th : Thread Unit) (receivedAt : Instant)
  | giveBack (th : Thread Unit)
  | release (th : Thread Unit)
  | resetTimer (th : Thread Unit)

variable {Body : Type}

/-- The body of `on_message` up to `insert_one`: `json.loads` and `message.get`. -/
def parse (loads : Body → Except Exn Json) (body : Body) : Except Exn Dict := do
  (← loads body).asDict

/-- A step inside the buffer that leaves the database and the main thread alone. -/
def State.onBuffer (s : State Body) (a : BatchBuffer.Action Unit Dict) : Option (State Body) :=
  (BatchBuffer.step s.buffer a).map fun buffer => { s with buffer := buffer }

/-- The batch that the thread handed to `insert_batch` is committed with the stamp taken for it. -/
def State.commit (pg : Postgres) (s : State Body) (th : Thread Unit) (receivedAt : Instant) : State Body :=
  { s with bronze := insertBatch pg s.bronze receivedAt (s.buffer.pc th).batch }

def step (pg : Postgres) (loads : Body → Except Exn Json) (s : State Body) :
    Action Body → Option (State Body)
  | .deliver body =>
      match s.main with
      | .consuming =>
          match parse loads body with
          | .error _ => some { s with nacked := s.nacked ++ [body] }
          | .ok message => ({ s with main := .handling message } : State Body).onBuffer (.add () message)
      | _ => none
  | .ack =>
      match s.main, s.buffer.pc (.caller ()) with
      | .handling message, .outside => some { s with main := .consuming, acked := s.acked ++ [message] }
      | _, _ => none
  | .shutdown =>
      match s.main with
      | .consuming | .handling _ => ({ s with main := .flushing } : State Body).onBuffer (.flush ())
      | _ => none
  | .stop =>
      match s.main, s.buffer.pc (.caller ()) with
      | .flushing, .outside => ({ s with main := .stopping } : State Body).onBuffer (.stop ())
      | _, _ => none
  | .close =>
      match s.main with
      | .stopping => some { s with main := .closing }
      | _ => none
  | .disconnect =>
      match s.main with
      | .closing => some { s with main := .finished }
      | _ => none
  | .expire k => s.onBuffer (.expire k)
  | .claim th => s.onBuffer (.claim th)
  | .insertReturns th receivedAt => (s.commit pg th receivedAt).onBuffer (.insertReturns th)
  | .insertRaises th => s.onBuffer (.insertRaises th)
  | .commitUnseen th receivedAt => (s.commit pg th receivedAt).onBuffer (.insertRaises th)
  | .giveBack th => s.onBuffer (.giveBack th)
  | .release th => s.onBuffer (.release th)
  | .resetTimer th => s.onBuffer (.resetTimer th)

/-- The process after `main` has wired its parts, over a table filled by earlier ones. -/
def init (batchSize : Int) (bronze : Bronze) : State Body :=
  ⟨BatchBuffer.init batchSize, bronze, .consuming, [], []⟩

end CryptoLakehouse.ConsumerMain
