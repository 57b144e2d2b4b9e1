import CryptoLakehouse.ConsumerFifo
import CryptoLakehouse.ConsumerRepository

/-! A `BatchBuffer` over a `TradeRepository`: the batch of a flush goes to `insert_batch` on the one
connection, and what that call comes to decides whether the batch is dropped or goes back to the front. A
batch may be committed and go back all the same, and meet newer messages before it is sent again. -/

namespace CryptoLakehouse.BufferedInserts

open BatchBuffer (Refines)
open KeyedTable (FirstWins)
open Transaction (Session)

/-- `result` is what `insert_batch` has come to in a thread that is still inside it. -/
structure State (T : Type) where
  buffer : BatchBuffer.System T Dict
  conn : Session Bronze
  result : Thread T → Option (Except Transaction.Error Unit)

/-- `insertBatch` runs the call up to its commit, `leave` is the way out of it. Behind the commit the code
counts and logs, and `raise` is an exception from there. -/
inductive Action (T : Type) where
  | buffer (a : BatchBuffer.Action T Dict)
  | insertBatch (th : Thread T) (receivedAt : Instant) (replies : Nat → Transaction.Reply)
  | leave (th : Thread T)
  | raise (th : Thread T)

section Code

variable {T : Type} [DecidableEq T]

def State.onBuffer (s : State T) (a : BatchBuffer.Action T Dict) : Option (State T) :=
  (BatchBuffer.step s.buffer a).map fun buffer => { s with buffer := buffer }

def State.setResult (s : State T) (th : Thread T) (result : Option (Except Transaction.Error Unit)) : State T :=
  { s with result := Function.update s.result th result }

@[simp] theorem setResult_buffer (s : State T) (th : Thread T) (result : Option (Except Transaction.Error Unit)) :
    (s.setResult th result).buffer = s.buffer := rfl
@[simp] theorem setResult_conn (s : State T) (th : Thread T) (result : Option (Except Transaction.Error Unit)) :
    (s.setResult th result).conn = s.conn := rfl
@[simp] theorem setResult_result (s : State T) (th th' : Thread T)
    (result : Option (Except Transaction.Error Unit)) :
    (s.setResult th result).result th' = if th' = th then result else s.result th' := Function.update_apply ..

def step (pg : Postgres) (storable : Dict → Bool) (s : State T) : Action T → Option (State T)
  | .buffer (.insertReturns _) | .buffer (.insertRaises _) => none
  | .buffer a => s.onBuffer a
  | .insertBatch th receivedAt replies =>
      match s.buffer.pc th, s.result th with
      | .inserting batch, none =>
          let (result, conn) := Repository.insertBatch pg storable replies batch receivedAt s.conn
          some ({ s with conn := conn }.setResult th (some result))
      | _, _ => none
  | .leave th =>
      match s.result th with
      | some (.ok _) => (s.setResult th none).onBuffer (.insertReturns th)
      | some (.error _) => (s.setResult th none).onBuffer (.insertRaises th)
      | none => none
  | .raise th =>
      match s.result th with
      | some _ => (s.setResult th none).onBuffer (.insertRaises th)
      | none => none

/-- A new buffer over an empty table. -/
def init (batchSize : Int) : State T := ⟨BatchBuffer.init batchSize, ⟨[], .idle⟩, fun _ => none⟩

end Code

/-- Bronze holds, for each trade id, the first trade with it among some of the first trades added, which
include `before`. -/
def Covers (pg : Postgres) (before added : List Dict) (bronze : Bronze) : Prop :=
  ∃ seen, before <+: seen ∧ seen <+: added ∧
    FirstWins RawTrade.payload (pg.textAt · "trade_id") bronze seen

section Covers

variable {pg : Postgres} {before before' added added' : List Dict} {bronze : Bronze}

theorem Covers.mono (h : Covers pg before added bronze) (hbefore : before' <+: before)
    (hadded : added <+: added') : Covers pg before' added' bronze :=
  h.imp fun _ ⟨hstart, hseen, hfirst⟩ => ⟨hbefore.trans hstart, hseen.trans hadded, hfirst⟩

theorem Covers.insertBatch {batch : List Dict} (h : Covers pg before added bronze)
    (hbatch : before ++ batch <+: added) (receivedAt : Instant) :
    Covers pg (before ++ batch) added (insertBatch pg bronze receivedAt batch) := by
  obtain ⟨seen, hstart, hseen, hfirst⟩ := h
  have hpayload : (batch.map fun trade => (⟨trade, receivedAt⟩ : RawTrade)).map RawTrade.payload = batch := by
    rw [List.map_map]
    exact List.map_id batch
  obtain ⟨seen', hstart', -, hseen', hfirst'⟩ := hfirst.insertAll hstart hseen (hpayload ▸ hbatch)
  exact ⟨seen', hpayload ▸ hstart', hseen', hfirst'⟩

theorem Covers.keyUnique (h : Covers pg before added bronze) :
    KeyedTable.KeyUnique (RawTrade.tradeId pg) bronze := by
  obtain ⟨seen, -, -, hfirst⟩ := h
  exact hfirst.unique

theorem Covers.find_eq (h : Covers pg before added bronze) {row : RawTrade} {id : String} (hrow : row ∈ bronze)
    (hid : row.tradeId pg = some id) :
    added.find? (fun trade => pg.textAt trade "trade_id" = some id) = some row.payload := by
  obtain ⟨seen, -, ⟨rest, rfl⟩, hfirst⟩ := h
  rw [List.find?_append, hfirst.first row hrow id hid, Option.some_or]

theorem Covers.exists_row (h : Covers pg before added bronze) {trade : Dict} {id : String}
    (htrade : trade ∈ before) (hid : pg.textAt trade "trade_id" = some id) :
    ∃ row ∈ bronze, row.tradeId pg = some id := by
  obtain ⟨seen, hstart, -, hfirst⟩ := h
  exact hfirst.present trade (hstart.subset htrade) id hid

end Covers

/-- `returned` says that a batch whose `insert_batch` is about to return is committed. -/
structure Inv {T : Type} (pg : Postgres) (s : State T) : Prop where
  refines : ∃ q holder, Refines s.buffer holder q
  conn : s.conn.All (Covers pg s.buffer.flushed.flatten s.buffer.added)
  running : ∀ th result, s.result th = some result → ∃ batch, s.buffer.pc th = .inserting batch
  returned : ∀ th, s.result th = some (.ok ()) →
    s.conn.All (Covers pg (s.buffer.flushed.flatten ++ (s.buffer.pc th).batch) s.buffer.added)

section Steps

variable {T : Type} [DecidableEq T] {pg : Postgres} {storable : Dict → Bool} {s s' : State T}

theorem inv_init (batchSize : Int) : Inv pg (init batchSize : State T) where
  refines := ⟨_, _, BatchBuffer.refines_init batchSize⟩
  conn := Session.All.of_committed ⟨[], List.nil_prefix, List.nil_prefix, FirstWins.empty⟩ (by simp [init])
  running th result hresult := by simp [init] at hresult
  returned th hresult := by simp [init] at hresult

theorem onBuffer_eq_some {a : BatchBuffer.Action T Dict} :
    s.onBuffer a = some s' ↔
      ∃ buffer, BatchBuffer.step s.buffer a = some buffer ∧ { s with buffer := buffer } = s' := by
  rw [State.onBuffer, Option.map_eq_some_iff]

theorem Inv.buffer_step {a : BatchBuffer.Action T Dict} (h : Inv pg s) (hreturns : ∀ th, a ≠ .insertReturns th)
    (hraises : ∀ th, a ≠ .insertRaises th) (hstep : s.onBuffer a = some s') : Inv pg s' := by
  obtain ⟨buffer, hbuffer, rfl⟩ := onBuffer_eq_some.mp hstep
  obtain ⟨q, holder, href⟩ := h.refines
  obtain ⟨-, q', -, holder', href'⟩ := BatchBuffer.refines_step href hbuffer
  obtain ⟨hadded, hflushed⟩ := BatchBuffer.history_step hbuffer
  have hflushes : BatchBuffer.flushes s.buffer a = [] := by
    cases a with
    | insertReturns th => exact absurd rfl (hreturns th)
    | _ => rfl
  rw [hflushes, List.append_nil] at hflushed
  have hgrows : s.buffer.added <+: buffer.added := hadded ▸ List.prefix_append _ _
  have hinserting : ∀ {th batch}, s.buffer.pc th = .inserting batch → buffer.pc th = .inserting batch :=
    fun hpc => ((BatchBuffer.inserting_step hpc hbuffer).resolve_left (hreturns _)).resolve_left (hraises _)
  refine ⟨⟨q', holder', href'⟩, ?_, ?_, ?_⟩
  · rw [hflushed]
    exact h.conn.imp fun bronze hcovers => hcovers.mono List.prefix_rfl hgrows
  · intro th result hresult
    obtain ⟨batch, hpc⟩ := h.running th result hresult
    exact ⟨batch, hinserting hpc⟩
  · intro th hresult
    obtain ⟨batch, hpc⟩ := h.running th _ hresult
    have hreturned := h.returned th hresult
    rw [hpc] at hreturned
    rw [hflushed, hinserting hpc]
    exact hreturned.imp fun bronze hcovers => hcovers.mono List.prefix_rfl hgrows

/-- While one thread is inside `insert_batch` no other has a result of its own. -/
theorem Inv.result_eq_none (h : Inv pg s) {th th' : Thread T} {batch : List Dict}
    (hpc : s.buffer.pc th = .inserting batch) (hne : th' ≠ th) : s.result th' = none := by
  obtain ⟨q, holder, href⟩ := h.refines
  cases hresult : s.result th' with
  | none => rfl
  | some result =>
      obtain ⟨batch', hpc'⟩ := h.running th' result hresult
      exact absurd (href.losslessFifo.exclusive th' th batch' batch hpc' hpc) hne

/-- The result of the call becomes known to the thread that made it. -/
theorem Inv.insertBatch_step (h : Inv pg s) {th : Thread T} {batch : List Dict}
    (hpc : s.buffer.pc th = .inserting batch) {receivedAt : Instant} {replies : Nat → Transaction.Reply}
    {result : Except Transaction.Error Unit} {conn : Session Bronze}
    (hcall : Repository.insertBatch pg storable replies batch receivedAt s.conn = (result, conn)) :
    Inv pg ({ s with conn := conn }.setResult th (some result)) := by
  obtain ⟨q, holder, href⟩ := h.refines
  have hbatch := href.inserting_isPrefix hpc
  have hview := h.conn.view
  obtain ⟨hcommitted, hactive⟩ := Repository.insertBatch_outcome pg storable replies batch
    receivedAt s.conn
  rw [hcall] at hcommitted hactive
  have hresult : ∀ th' result', (if th' = th then some result else s.result th') = some result' →
      th' = th ∧ result' = result := by
    intro th' result' hth'
    by_cases heq : th' = th
    · rw [if_pos heq] at hth'
      exact ⟨heq, (Option.some.inj hth').symm⟩
    · rw [if_neg heq, h.result_eq_none hpc heq] at hth'
      cases hth'
  refine ⟨⟨q, holder, href⟩, ⟨?_, ?_⟩, ?_, ?_⟩
  · rcases hcommitted with hold | hnew
    · exact hold ▸ h.conn.1
    · exact hnew ▸ (hview.insertBatch hbatch receivedAt).mono (List.prefix_append _ _) List.prefix_rfl
  · intro work hwork
    obtain ⟨sent, hsent, rfl⟩ := hactive work hwork
    have hprefix := ((List.prefix_append_right_inj s.buffer.flushed.flatten).mpr hsent).trans hbatch
    exact (hview.insertBatch hprefix receivedAt).mono (List.prefix_append _ _) List.prefix_rfl
  · intro th' result' hth'
    obtain ⟨rfl, -⟩ := hresult th' result' (by simpa using hth')
    exact ⟨batch, hpc⟩
  · intro th' hth'
    obtain ⟨rfl, rfl⟩ := hresult th' _ (by simpa using hth')
    have hgoal : conn.All (Covers pg (s.buffer.flushed.flatten ++ batch) s.buffer.added) := by
      by_cases hne : batch = []
      · rw [hne, Repository.insertBatch, if_pos rfl] at hcall
        cases hcall
        rw [hne, List.append_nil]
        exact h.conn
      · rw [Repository.insertBatch_ok hne hcall]
        exact Session.All.of_committed (hview.insertBatch hbatch receivedAt) (by simp)
    simpa [hpc, BatchBuffer.Pc.batch] using hgoal

/-- The way out of `insert_batch`; the batch counts as flushed only behind a commit. -/
theorem Inv.leave_step (h : Inv pg s) {th : Thread T} {result : Except Transaction.Error Unit}
    (hresult : s.result th = some result) {a : BatchBuffer.Action T Dict}
    (ha : a = .insertRaises th ∨ a = .insertReturns th ∧ result = .ok ())
    (hstep : (s.setResult th none).onBuffer a = some s') : Inv pg s' := by
  obtain ⟨buffer, hbuffer, rfl⟩ := onBuffer_eq_some.mp hstep
  obtain ⟨q, holder, href⟩ := h.refines
  obtain ⟨-, q', -, holder', href'⟩ := BatchBuffer.refines_step href hbuffer
  obtain ⟨hadded, hflushed⟩ := BatchBuffer.history_step hbuffer
  obtain ⟨batch, hpc⟩ := h.running th result hresult
  have hnone : ∀ th', (s.setResult th none).result th' = none := by
    intro th'
    rw [setResult_result]
    split_ifs with heq
    · rfl
    · exact h.result_eq_none hpc heq
  refine ⟨⟨q', holder', href'⟩, ?_, fun th' result' hth' => ?_, fun th' hth' => ?_⟩
  · rcases ha with rfl | ⟨rfl, rfl⟩ <;>
      simp only [setResult_buffer, BatchBuffer.flushes, BatchBuffer.Action.puts, List.append_nil]
        at hadded hflushed
    · rw [hflushed, hadded]
      exact h.conn
    · rw [hflushed, hadded, List.flatten_concat]
      exact h.returned th hresult
  · rw [hnone th'] at hth'
    cases hth'
  · rw [hnone th'] at hth'
    cases hth'

theorem inv_step {a : Action T} (h : Inv pg s) (hstep : step pg storable s a = some s') : Inv pg s' := by
  cases a with
  | buffer a =>
      cases a with
      | insertReturns th | insertRaises th => cases hstep
      | _ => exact h.buffer_step (by simp) (by simp) hstep
  | insertBatch th receivedAt replies =>
      simp only [step] at hstep
      split at hstep <;> cases hstep
      rename_i batch hpc _
      exact h.insertBatch_step hpc rfl
  | leave th =>
      simp only [step] at hstep
      split at hstep
      · rename_i hresult
        exact h.leave_step hresult (.inr ⟨rfl, rfl⟩) hstep
      · rename_i hresult
        exact h.leave_step hresult (.inl rfl) hstep
      · cases hstep
  | raise th =>
      simp only [step] at hstep
      split at hstep
      · rename_i hresult
        exact h.leave_step hresult (.inl rfl) hstep
      · cases hstep

/-- Some of the trades has the id. -/
def HasId (pg : Postgres) (trades : List Dict) (id : String) : Prop :=
  ∃ trade ∈ trades, pg.textAt trade "trade_id" = some id

/-- Bronze has one row for each trade id, with the payload added first; and an id that was added is in
bronze, in the buffer or in a batch in flight. -/
structure ExactlyOnce (pg : Postgres) (s : State T) : Prop where
  unique : KeyedTable.KeyUnique (RawTrade.tradeId pg) s.conn.committed
  earliest : ∀ row ∈ s.conn.committed, ∀ id, row.tradeId pg = some id →
    s.buffer.added.find? (fun trade => pg.textAt trade "trade_id" = some id) = some row.payload
  ids : ∀ id, HasId pg s.buffer.added id ↔ (∃ row ∈ s.conn.committed, row.tradeId pg = some id) ∨
    HasId pg s.buffer.obj.buffer id ∨ ∃ th, HasId pg (s.buffer.pc th).batch id

omit [DecidableEq T] in
theorem Inv.exactlyOnce (h : Inv pg s) : ExactlyOnce pg s where
  unique := h.conn.1.keyUnique
  earliest row hrow id hid := h.conn.1.find_eq hrow hid
  ids id := by
    obtain ⟨q, holder, href⟩ := h.refines
    have hadded := href.added_split
    constructor
    · rintro ⟨trade, htrade, hid⟩
      rw [← hadded, List.mem_append, List.mem_append] at htrade
      rcases htrade with hflushed | hflight | hbuffer
      · exact .inl (h.conn.1.exists_row hflushed hid)
      · cases holder with
        | none => cases hflight
        | some th => exact .inr (.inr ⟨th, trade, hflight, hid⟩)
      · exact .inr (.inl ⟨trade, hbuffer, hid⟩)
    · rintro (⟨row, hrow, hid⟩ | ⟨trade, htrade, hid⟩ | ⟨th, trade, htrade, hid⟩)
      · exact ⟨row.payload, List.mem_of_find?_eq_some (h.conn.1.find_eq hrow hid), hid⟩
      · exact ⟨trade, hadded ▸ List.mem_append_right _ (List.mem_append_right _ htrade), hid⟩
      · have hbatch : (s.buffer.pc th).batch ≠ [] := List.ne_nil_of_mem htrade
        rw [← href.flight_eq hbatch] at htrade
        exact ⟨trade, hadded ▸ List.mem_append_right _ (List.mem_append_left _ htrade), hid⟩

/-- The message that a step adds to the buffer. -/
def Action.puts : Action T → List Dict
  | .buffer a => a.puts
  | _ => []

theorem added_step {a : Action T} (hstep : step pg storable s a = some s') :
    s'.buffer.added = s.buffer.added ++ a.puts := by
  have hbuffer : ∀ {u : State T} {b : BatchBuffer.Action T Dict}, u.onBuffer b = some s' →
      s'.buffer.added = u.buffer.added ++ b.puts := by
    intro u b h
    obtain ⟨buffer, hb, rfl⟩ := onBuffer_eq_some.mp h
    exact (BatchBuffer.history_step hb).1
  cases a with
  | buffer b =>
      cases b with
      | insertReturns th | insertRaises th => cases hstep
      | _ => exact hbuffer hstep
  | insertBatch th receivedAt replies =>
      simp only [step] at hstep
      split at hstep <;> cases hstep
      exact (List.append_nil _).symm
  | leave th =>
      simp only [step] at hstep
      split at hstep
      · exact hbuffer hstep
      · exact hbuffer hstep
      · cases hstep
  | raise th =>
      simp only [step] at hstep
      split at hstep
      · exact hbuffer hstep
      · cases hstep

/-- **Exactly-once effect in bronze**, whatever the threads, the timers, the server and the connection do. -/
theorem exactly_once {batchSize : Int} {as : List (Action T)}
    (hrun : Runs.run (step pg storable) (init batchSize) as = some s) :
    s.buffer.added = as.flatMap Action.puts ∧ ExactlyOnce pg s := by
  have hadded := Runs.history_run (fun s : State T => s.buffer.added) (fun _ _ _ hstep => added_step hstep) hrun
  rw [Runs.outputs_label hrun] at hadded
  exact ⟨hadded, (Runs.invariant (fun _ _ _ => inv_step) (inv_init batchSize) hrun).exactlyOnce⟩

end Steps

/-- A batch is committed and goes back all the same, and a later trade with its id joins it for the retry. -/
def ambiguousCommit : List (Action Nat) :=
  [.buffer (.add 0 [("trade_id", .str "1")]), .buffer (.claim (.caller 0)),
    .insertBatch (.caller 0) 5 (fun _ => .done), .raise (.caller 0),
    .buffer (.add 1 [("trade_id", .str "1"), ("price", .str "2")]), .buffer (.giveBack (.caller 0)),
    .buffer (.release (.caller 0)), .buffer (.claim (.caller 1)),
    .insertBatch (.caller 1) 9 (fun _ => .done), .leave (.caller 1)]

theorem exactly_once_ambiguousCommit :
    ∃ s, Runs.run (step Repository.samplePostgres Repository.sampleStorable) (init 1) ambiguousCommit = some s ∧
      s.buffer.flushed.flatten.length = 2 ∧ s.conn.committed.length = 1 ∧
      s.buffer.added = ambiguousCommit.flatMap Action.puts ∧ ExactlyOnce Repository.samplePostgres s := by
  obtain ⟨s, hrun, hflushed, hbronze⟩ : ∃ s, Runs.run (step Repository.samplePostgres Repository.sampleStorable)
      (init 1) ambiguousCommit = some s ∧ s.buffer.flushed.flatten.length = 2 ∧ s.conn.committed.length = 1 :=
    ⟨_, rfl, rfl, rfl⟩
  exact ⟨s, hrun, hflushed, hbronze, exactly_once hrun⟩

end CryptoLakehouse.BufferedInserts
