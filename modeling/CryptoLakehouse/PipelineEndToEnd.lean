import CryptoLakehouse.ConsumerDelivery
import CryptoLakehouse.ConsumerShutdown
import CryptoLakehouse.ProducerContract
import CryptoLakehouse.WarehouseContent

/-! From the frames of the exchange to the gold tables. Between them are a queue that may deliver a message
again, consumers that may stop anywhere, and inserts that may fail or succeed unseen. The consumer is wired
in both of its ways: straight to the repository, or to the buffer as `consumer/main.py` has it. -/

namespace CryptoLakehouse.Pipeline

section Producer

variable {Frame Body : Type} (py : Pydantic) (loads : Frame → Except Exn Json)

/-- The trades that `_stream` publishes, over all of its connections. -/
def trades (connections : List (List Frame)) : List TradeMessage :=
  connections.flatMap fun frames => (Stream.session py loads id frames).1.published

/-- The same as they are sent. -/
def published (dump : TradeMessage → Body) (connections : List (List Frame)) : List Body :=
  connections.flatMap fun frames => (Stream.session py loads dump frames).1.published

variable {py loads}

theorem mem_published {dump : TradeMessage → Body} {connections : List (List Frame)} {body : Body} :
    body ∈ published py loads dump connections ↔ ∃ m ∈ trades py loads connections, dump m = body := by
  simp only [published, trades, List.mem_flatMap, Stream.mem_published_iff]
  constructor
  · rintro ⟨frames, hframes, d, m, hreached, hvalidate, rfl⟩
    exact ⟨m, ⟨frames, hframes, d, m, hreached, hvalidate, rfl⟩, rfl⟩
  · rintro ⟨_, ⟨frames, hframes, d, m, hreached, hvalidate, rfl⟩, rfl⟩
    exact ⟨frames, hframes, d, m, hreached, hvalidate, rfl⟩

end Producer

section Bronze

variable (pg : Postgres) (decimalText : Decimal → String) (timeText : Int → String)

/-- Bronze has rows of these trades only, each id once. -/
structure Sound (ms : List TradeMessage) (bronze : Bronze) : Prop where
  unique : KeyedTable.KeyUnique (RawTrade.tradeId pg) bronze
  rows : ∀ row ∈ bronze, ∃ m ∈ ms, row.payload = m.modelDump decimalText timeText

/-- The trades that have got into bronze. -/
def stored (bronze : Bronze) (ms : List TradeMessage) : List TradeMessage :=
  ms.filter fun m => some m.tradeId ∈ bronze.map (RawTrade.tradeId pg)

variable {pg decimalText timeText} {ms : List TradeMessage} {bronze : Bronze}

theorem sound_nil : Sound pg decimalText timeText ms [] :=
  ⟨List.nodup_nil, fun _ hrow => absurd hrow List.not_mem_nil⟩

theorem Sound.insertBatch (h : Sound pg decimalText timeText ms bronze) (receivedAt : Instant) {batch : List Dict}
    (hbatch : ∀ trade ∈ batch, ∃ m ∈ ms, trade = m.modelDump decimalText timeText) :
    Sound pg decimalText timeText ms (insertBatch pg bronze receivedAt batch) := by
  refine ⟨KeyedTable.keyUnique_insertAbsent _ _ h.unique, fun row hrow => ?_⟩
  rcases mem_insertBatch pg hrow with hold | ⟨trade, htrade, hpayload⟩
  · exact h.rows row hold
  · rw [hpayload]
    exact hbatch trade htrade

theorem mem_stored {m : TradeMessage} :
    m ∈ stored pg bronze ms ↔ m ∈ ms ∧ ∃ row ∈ bronze, row.tradeId pg = some m.tradeId := by
  rw [stored, List.mem_filter, decide_eq_true_eq, List.mem_map]

theorem mem_stored_of_stored {m : TradeMessage} (hm : m ∈ ms)
    (h : Stored pg bronze (m.modelDump decimalText timeText)) : m ∈ stored pg bronze ms := by
  obtain ⟨row, hrow, hid⟩ := h.tradeId_eq
  exact mem_stored.mpr ⟨hm, row, hrow, hid.trans (textAt_modelDump pg decimalText timeText m).1⟩

theorem Sound.holds (h : Sound pg decimalText timeText ms bronze) :
    Holds pg decimalText timeText bronze (stored pg bronze ms) where
  unique := h.unique
  sound row hrow := by
    obtain ⟨m, hm, hpayload⟩ := h.rows row hrow
    refine ⟨m, mem_stored.mpr ⟨hm, row, hrow, ?_⟩, hpayload⟩
    rw [RawTrade.tradeId, hpayload, (textAt_modelDump pg decimalText timeText m).1]
  complete m hm := (mem_stored.mp hm).2

theorem Sound.reflects {num : Numerics} (h : Sound pg decimalText timeText ms bronze) (hid : Identified ms)
    (hreads : Reads pg decimalText timeText ms) (hnum : Gold.Unordered num) :
    Reflects pg num bronze (stored pg bronze ms) := by
  have hmem : ∀ {m}, m ∈ stored pg bronze ms → m ∈ ms := fun hm => (mem_stored.mp hm).1
  refine h.holds.reflects (fun m hm m' hm' => hid m (hmem hm) m' (hmem hm')) ?_ hnum
  exact ⟨fun m hm => hreads.price m (hmem hm), fun m hm => hreads.size m (hmem hm),
    fun m hm => hreads.time m (hmem hm)⟩

end Bronze

end CryptoLakehouse.Pipeline

namespace CryptoLakehouse.Delivery

open Transaction (Session)

variable {Body : Type} {pg : Postgres} {storable : Dict → Bool} {loads : Body → Except Exn Json}
  {s t : State Body} {a : Action Body}

/-- What an insert of the running trade keeps is kept by every step. -/
theorem all_step {P : Bronze → Prop} (h : s.conn.All P)
    (hinsert : ∀ i trade, s.pc = .executing i trade → ∀ receivedAt bronze, P bronze →
      P (insertBatch pg bronze receivedAt [trade])) (hstep : step pg storable loads s a = some t) :
    t.conn.All P := by
  have hexecute : ∀ {i trade} reply receivedAt, s.pc = .executing i trade →
      (s.conn.execute reply (Repository.insertStatement pg storable receivedAt [trade])).2.All P := by
    intro i trade reply receivedAt hpc
    apply h.execute
    intro bronze bronze' hbronze hinserted
    obtain ⟨-, rfl⟩ := Repository.insertStatement_eq_some.mp hinserted
    exact hinsert i trade hpc receivedAt bronze hbronze
  cases transition_of_step hstep with
  | executed receivedAt reply i trade conn hpc heq =>
      obtain rfl := congrArg Prod.snd heq
      exact hexecute reply receivedAt hpc
  | executeRaised receivedAt reply i trade e conn hpc heq =>
      obtain rfl := congrArg Prod.snd heq
      exact hexecute reply receivedAt hpc
  | committed reply i trade conn hpc heq =>
      obtain rfl := congrArg Prod.snd heq
      exact h.commit
  | commitRaised reply i trade e conn hpc heq =>
      obtain rfl := congrArg Prod.snd heq
      exact h.commit
  | crash => exact Session.All.of_committed h.1 (by simp)
  | _ => exact h

end CryptoLakehouse.Delivery

namespace CryptoLakehouse.ConsumerMain

variable {Body : Type} {pg : Postgres} {loads : Body → Except Exn Json} {s t : State Body} {a : Action Body}

/-- Only a delivery that is read as a trade adds to the buffer. -/
def adds (loads : Body → Except Exn Json) : Action Body → List Dict
  | .deliver body =>
      match parse loads body with
      | .ok trade => [trade]
      | .error _ => []
  | _ => []

theorem added_step (hstep : step pg loads s a = some t) :
    t.buffer.added = s.buffer.added ++ adds loads a := by
  have hbuffer : ∀ {u u' : State Body} {b : BatchBuffer.Action Unit Dict}, u.onBuffer b = some u' →
      u'.buffer.added = u.buffer.added ++ b.puts := by
    intro u u' b h
    obtain ⟨buffer, hbuffer, rfl⟩ := onBuffer_eq_some.mp h
    exact (BatchBuffer.history_step hbuffer).1
  cases a with
  | deliver body =>
      simp only [step] at hstep
      split at hstep
      · cases hparse : parse loads body with
        | error e =>
            rw [hparse] at hstep
            cases hstep
            simp [adds, hparse]
        | ok trade =>
            rw [hparse] at hstep
            simpa [adds, hparse, BatchBuffer.Action.puts] using hbuffer hstep
      · cases hstep
  | ack | close | disconnect =>
      simp only [step] at hstep
      split at hstep <;> cases hstep
      exact (List.append_nil _).symm
  | shutdown => exact hbuffer (onBuffer_of_shutdown pg loads hstep)
  | stop =>
      simp only [step] at hstep
      split at hstep
      · exact hbuffer hstep
      · cases hstep
  | insertReturns th receivedAt | commitUnseen th receivedAt | expire k | claim th | insertRaises th
  | giveBack th | release th | resetTimer th => exact hbuffer hstep

theorem added_run {as : List (Action Body)} (hrun : Runs.run (step pg loads) s as = some t) :
    t.buffer.added = s.buffer.added ++ as.flatMap (adds loads) := by
  have hadded := Runs.history_run (fun s : State Body => s.buffer.added) (fun _ _ _ hstep => added_step hstep) hrun
  rwa [Runs.outputs_label hrun] at hadded

/-- A batch in the hands of a flush was added. -/
theorem Inv.batch_subset (h : Inv pg s) (th : Thread Unit) : (s.buffer.pc th).batch ⊆ s.buffer.added := by
  intro trade htrade
  obtain ⟨q, holder, href⟩ := h.refines
  rw [← href.flight_eq (List.ne_nil_of_mem htrade)] at htrade
  rw [← href.added_split]
  exact List.mem_append_right _ (List.mem_append_left _ htrade)

/-- What an insert of added trades keeps is kept by every step. -/
theorem bronze_step {P : Bronze → Prop} (hinv : Inv pg s) (h : P s.bronze)
    (hinsert : ∀ receivedAt batch, batch ⊆ s.buffer.added → P (insertBatch pg s.bronze receivedAt batch))
    (hstep : step pg loads s a = some t) : P t.bronze := by
  rw [(effect_step hstep).2.1]
  cases a with
  | insertReturns th receivedAt => exact hinsert receivedAt _ (hinv.batch_subset th)
  | commitUnseen th receivedAt => exact hinsert receivedAt _ (hinv.batch_subset th)
  | _ => exact h

end CryptoLakehouse.ConsumerMain

namespace CryptoLakehouse.Pipeline

section EndToEnd

variable {Frame Body : Type} {py : Pydantic} {loadsFrame : Frame → Except Exn Json} {pg : Postgres} {num : Numerics}
  {storable : Dict → Bool} {loads : Body → Except Exn Json} {dump : TradeMessage → Body}
  {decimalText : Decimal → String} {timeText : Int → String} {connections : List (List Frame)}

-- `json.loads` reads what `model_dump_json` has written.
variable (hloads : ∀ m, loads (dump m) = .ok (.obj (m.modelDump decimalText timeText)))
include hloads

theorem parse_dump (m : TradeMessage) :
    ConsumerMain.parse loads (dump m) = .ok (m.modelDump decimalText timeText) := by
  rw [ConsumerMain.parse, hloads]
  rfl

section Direct

open Delivery (Message)

/-- Every message of the queue is a published trade, and bronze has such rows only. -/
structure Fed (ms : List TradeMessage) (pg : Postgres) (loads : Body → Except Exn Json) (dump : TradeMessage → Body)
    (decimalText : Decimal → String) (timeText : Int → String) (s : Delivery.State Body) : Prop where
  persisted : Delivery.Persisted pg loads s
  messages : ∀ body ∈ s.messages.map Message.body, ∃ m ∈ ms, dump m = body
  sound : s.conn.All (Sound pg decimalText timeText ms)

theorem Fed.step {ms : List TradeMessage} {s t : Delivery.State Body} {a : Delivery.Action Body}
    (h : Fed ms pg loads dump decimalText timeText s)
    (hbody : ∀ body, a = .publish body → ∃ m ∈ ms, dump m = body)
    (hstep : Delivery.step pg storable loads s a = some t) : Fed ms pg loads dump decimalText timeText t := by
  refine ⟨Delivery.persisted_step h.persisted hstep, fun body hmem => ?_, Delivery.all_step h.sound ?_ hstep⟩
  · rw [Delivery.bodies_step hstep, List.mem_append, Option.mem_toList] at hmem
    rcases hmem with hold | hnew
    · exact h.messages body hold
    · cases a <;> cases hnew
      exact hbody body rfl
  · intro i trade hpc receivedAt bronze hsound
    have hposition := h.persisted.position
    rw [hpc] at hposition
    obtain ⟨body, hat, hparse⟩ := hposition
    obtain ⟨message, hmessage, rfl⟩ := Option.map_eq_some_iff.mp hat
    obtain ⟨m, hm, hdump⟩ := h.messages _ (List.mem_map_of_mem (List.mem_of_getElem? hmessage))
    rw [← hdump, parse_dump hloads] at hparse
    obtain rfl := Except.ok.inj hparse
    exact hsound.insertBatch receivedAt fun trade htrade => ⟨m, hm, List.mem_singleton.mp htrade⟩

/-- **The tables are the trades, with the repository behind the consumer.** In every state of every run, with
crashes, redeliveries and failing commands, the first run of dbt builds the tables of the trades that have
got into bronze, each once; and every acknowledged trade is among them. -/
theorem tables_reflect_direct {as : List (Delivery.Action Body)} {s : Delivery.State Body}
    (hrun : Runs.run (Delivery.step pg storable loads) (Delivery.init []) as = some s)
    (hqueue : ∀ body, .publish body ∈ as → body ∈ published py loadsFrame dump connections)
    (hid : Identified (trades py loadsFrame connections))
    (hreads : Reads pg decimalText timeText (trades py loadsFrame connections)) (hnum : Gold.Unordered num) :
    Reflects pg num s.conn.committed (stored pg s.conn.committed (trades py loadsFrame connections)) ∧
      ∀ message ∈ s.messages, message.status = .acked →
        ∃ m ∈ stored pg s.conn.committed (trades py loadsFrame connections), dump m = message.body := by
  have hinit : Fed (trades py loadsFrame connections) pg loads dump decimalText timeText
      (Delivery.init [] : Delivery.State Body) := by
    refine ⟨Delivery.persisted_init List.nodup_nil, fun body hmem => absurd hmem List.not_mem_nil, ?_⟩
    exact Transaction.Session.All.of_committed sound_nil (by simp [Delivery.init])
  have hlabels : Runs.Meets (Delivery.step pg storable loads) (fun _ a => ∀ body, a = .publish body →
      ∃ m ∈ trades py loadsFrame connections, dump m = body) (Delivery.init []) as := by
    rw [Runs.meets_label hrun]
    rintro a ha body rfl
    exact mem_published.mp (hqueue body ha)
  have hfed := Runs.invariant_of_meets (fun _ _ _ h hbody hstep => Fed.step hloads h hbody hstep) hinit hlabels hrun
  refine ⟨hfed.sound.1.reflects hid hreads hnum, fun message hmessage hacked => ?_⟩
  obtain ⟨m, hm, hdump⟩ := hfed.messages message.body (List.mem_map_of_mem hmessage)
  obtain ⟨trade, hparse, hstored⟩ := hfed.persisted.exists_stored hmessage hacked
  rw [← hdump, parse_dump hloads] at hparse
  obtain rfl := Except.ok.inj hparse
  exact ⟨m, mem_stored_of_stored hm hstored, hdump⟩

end Direct

section Buffered

open ConsumerMain (Settled)

/-- Bronze after some incarnations of `consumer/main.py`, each of which ends anywhere. -/
inductive Incarnations (pg : Postgres) (loads : Body → Except Exn Json) (sent : List Body) : Bronze → Prop where
  | first : Incarnations pg loads sent []
  | next (bronze : Bronze) (h : Incarnations pg loads sent bronze) (batchSize : Int)
      (as : List (ConsumerMain.Action Body)) (s : ConsumerMain.State Body)
      (hrun : Runs.run (ConsumerMain.step pg loads) (ConsumerMain.init batchSize bronze) as = some s)
      (hsent : ∀ body, .deliver body ∈ as → body ∈ sent) : Incarnations pg loads sent s.bronze

/-- What was added to the buffer is among the trades, and so is what bronze has. -/
structure Filled (ms : List TradeMessage) (pg : Postgres) (decimalText : Decimal → String) (timeText : Int → String)
    (s : ConsumerMain.State Body) : Prop where
  inv : ConsumerMain.Inv pg s
  added : ∀ trade ∈ s.buffer.added, ∃ m ∈ ms, trade = m.modelDump decimalText timeText
  sound : Sound pg decimalText timeText ms s.bronze

theorem Filled.step {ms : List TradeMessage} {s t : ConsumerMain.State Body} {a : ConsumerMain.Action Body}
    (h : Filled ms pg decimalText timeText s) (hbody : ∀ body, a = .deliver body → ∃ m ∈ ms, dump m = body)
    (hstep : ConsumerMain.step pg loads s a = some t) : Filled ms pg decimalText timeText t := by
  refine ⟨ConsumerMain.inv_step h.inv hstep, fun trade htrade => ?_, ConsumerMain.bronze_step h.inv h.sound ?_ hstep⟩
  · rw [ConsumerMain.added_step hstep, List.mem_append] at htrade
    rcases htrade with hold | hnew
    · exact h.added trade hold
    · cases a with
      | deliver body =>
          obtain ⟨m, hm, rfl⟩ := hbody body rfl
          rw [ConsumerMain.adds, parse_dump hloads] at hnew
          exact ⟨m, hm, List.mem_singleton.mp hnew⟩
      | _ => cases hnew
  · exact fun receivedAt batch hbatch => h.sound.insertBatch receivedAt fun trade htrade =>
      h.added trade (hbatch htrade)

omit hloads in
theorem filled_init {ms : List TradeMessage} {bronze : Bronze} (hbronze : Sound pg decimalText timeText ms bronze)
    (batchSize : Int) :
    Filled ms pg decimalText timeText (ConsumerMain.init batchSize bronze : ConsumerMain.State Body) := by
  refine ⟨ConsumerMain.inv_init batchSize bronze, ?_, hbronze⟩
  simp [ConsumerMain.init, BatchBuffer.init, BatchBuffer.System.startTimer]

theorem filled_run {ms : List TradeMessage} {bronze : Bronze} (hbronze : Sound pg decimalText timeText ms bronze)
    {batchSize : Int} {as : List (ConsumerMain.Action Body)} {s : ConsumerMain.State Body}
    (hrun : Runs.run (ConsumerMain.step pg loads) (ConsumerMain.init batchSize bronze) as = some s)
    (hsent : ∀ body, .deliver body ∈ as → ∃ m ∈ ms, dump m = body) : Filled ms pg decimalText timeText s := by
  have hlabels : Runs.Meets (ConsumerMain.step pg loads) (fun _ a => ∀ body, a = .deliver body →
      ∃ m ∈ ms, dump m = body) (ConsumerMain.init batchSize bronze) as := by
    rw [Runs.meets_label hrun]
    rintro a ha body rfl
    exact hsent body ha
  exact Runs.invariant_of_meets (fun _ _ _ h hbody hstep => Filled.step hloads h hbody hstep)
    (filled_init hbronze batchSize) hlabels hrun

theorem Incarnations.sound {ms : List TradeMessage} {sent : List Body} {bronze : Bronze}
    (h : Incarnations pg loads sent bronze) (hsent : ∀ body ∈ sent, ∃ m ∈ ms, dump m = body) :
    Sound pg decimalText timeText ms bronze := by
  induction h with
  | first => exact sound_nil
  | next bronze h batchSize as s hrun hdelivered ih =>
      exact (filled_run hloads ih hrun fun body hbody => hsent body (hdelivered body hbody)).sound

/-- **The tables are the trades, with the buffer behind the consumer.** After any incarnations that end
anywhere, and in every state of one more, the first run of dbt builds the tables of the trades that have got
into bronze, each once; and once the buffer is settled, every trade delivered to this one is among them. -/
theorem tables_reflect_buffered {bronze : Bronze}
    (hbefore : Incarnations pg loads (published py loadsFrame dump connections) bronze) {batchSize : Int}
    {as : List (ConsumerMain.Action Body)} {s : ConsumerMain.State Body}
    (hrun : Runs.run (ConsumerMain.step pg loads) (ConsumerMain.init batchSize bronze) as = some s)
    (hdelivered : ∀ body, .deliver body ∈ as → body ∈ published py loadsFrame dump connections)
    (hid : Identified (trades py loadsFrame connections))
    (hreads : Reads pg decimalText timeText (trades py loadsFrame connections)) (hnum : Gold.Unordered num) :
    Reflects pg num s.bronze (stored pg s.bronze (trades py loadsFrame connections)) ∧
      (Settled s → ∀ m ∈ trades py loadsFrame connections, .deliver (dump m) ∈ as →
        m ∈ stored pg s.bronze (trades py loadsFrame connections)) := by
  have hsound := hbefore.sound hloads fun body hbody => mem_published.mp hbody
  have hfilled := filled_run hloads hsound hrun fun body hbody => mem_published.mp (hdelivered body hbody)
  refine ⟨hfilled.sound.reflects hid hreads hnum, fun hsettled m hm hdeliver => ?_⟩
  have hadded : m.modelDump decimalText timeText ∈ s.buffer.added := by
    rw [ConsumerMain.added_run hrun]
    refine List.mem_append_right _ (List.mem_flatMap.mpr ⟨_, hdeliver, ?_⟩)
    rw [ConsumerMain.adds, parse_dump hloads]
    exact List.mem_singleton_self _
  exact mem_stored_of_stored hm ((hfilled.inv.drained hsettled).committed _ hadded)

end Buffered

end EndToEnd

section Sample

/-- One frame with one trade. -/
def sampleConnections : List (List Json) :=
  [[.obj [("channel", .str "market_trades"),
    ("events", .arr [.obj [("trades", .arr [.obj (offeredTrade "1")])]])]]]

def sampleDump (m : TradeMessage) : Json := .obj (m.modelDump offeredText fun _ => "1970-01-01T00:00:00Z")

def sampleNumerics : Numerics := ⟨(· / ·), fun _ => none⟩

theorem trades_sample : trades offeredPydantic .ok sampleConnections = [unitTrade] := by
  have hlength : (trades offeredPydantic .ok sampleConnections).length = 1 := by decide +kernel
  have hfields : ∀ m ∈ trades offeredPydantic .ok sampleConnections, m.tradeId = "1" ∧ m.price = ⟨1, 0⟩ ∧
      m.size = ⟨1, 0⟩ ∧ m.side = .buy ∧ m.time = 0 := by decide +kernel
  obtain ⟨m, hm⟩ := List.length_eq_one_iff.mp hlength
  rw [hm, List.forall_mem_singleton] at hfields
  obtain ⟨tradeId, price, size, side, time, _, _, _, _, _⟩ := m
  obtain ⟨rfl, rfl, rfl, rfl, rfl⟩ := hfields
  exact hm

theorem identified_sample : Identified (trades offeredPydantic .ok sampleConnections) := by
  rw [trades_sample]
  intro m hm m' hm' _
  rw [List.mem_singleton.mp hm, List.mem_singleton.mp hm']

theorem reads_sample : Reads offeredPostgres offeredText (fun _ => "1970-01-01T00:00:00Z")
    (trades offeredPydantic .ok sampleConnections) := by
  rw [trades_sample]
  refine ⟨?_, ?_, ?_⟩ <;> rw [List.forall_mem_singleton]
  · exact readsDecimal_one
  · exact readsDecimal_one
  · exact readsTime_zero

theorem mem_published_sample {body : Json} (h : body = sampleDump unitTrade) :
    body ∈ published offeredPydantic .ok sampleDump sampleConnections := by
  rw [mem_published, trades_sample]
  exact ⟨unitTrade, List.mem_singleton_self _, h.symm⟩

/-- The trade is delivered again after a crash ahead of its ACK. -/
def sampleDelivery : List (Delivery.Action Json) :=
  [.publish (sampleDump unitTrade), .deliver 0, .begin, .parse, .execute 5 .done, .commit .done, .crash,
    .deliver 0, .begin, .parse, .execute 9 .done, .commit .done, .finish false, .settle]

theorem tables_reflect_direct_sample : ∃ s, Runs.run (Delivery.step offeredPostgres (fun _ => true) .ok)
      (Delivery.init []) sampleDelivery = some s ∧ s.conn.committed.length = 1 ∧
    Reflects offeredPostgres sampleNumerics s.conn.committed
      (stored offeredPostgres s.conn.committed (trades offeredPydantic .ok sampleConnections)) := by
  obtain ⟨s, hrun, hbronze⟩ : ∃ s, Runs.run (Delivery.step offeredPostgres (fun _ => true) .ok)
      (Delivery.init []) sampleDelivery = some s ∧ s.conn.committed.length = 1 := ⟨_, rfl, rfl⟩
  have hqueue : ∀ body, .publish body ∈ sampleDelivery →
      body ∈ published offeredPydantic .ok sampleDump sampleConnections := by
    intro body hbody
    apply mem_published_sample
    simpa [sampleDelivery] using hbody
  exact ⟨s, hrun, hbronze,
    (tables_reflect_direct (fun _ => rfl) hrun hqueue identified_sample reads_sample fun _ _ _ => rfl).1⟩

/-- The trade is delivered twice, and one flush has both deliveries. -/
def sampleBuffered : List (ConsumerMain.Action Json) :=
  [.deliver (sampleDump unitTrade), .ack, .deliver (sampleDump unitTrade), .claim (.caller ()),
    .insertReturns (.caller ()) 5, .release (.caller ()), .resetTimer (.caller ()), .ack]

theorem tables_reflect_buffered_sample : ∃ s, Runs.run (ConsumerMain.step offeredPostgres .ok)
      (ConsumerMain.init 2 []) sampleBuffered = some s ∧ s.bronze.length = 1 ∧
    Reflects offeredPostgres sampleNumerics s.bronze
      (stored offeredPostgres s.bronze (trades offeredPydantic .ok sampleConnections)) := by
  obtain ⟨s, hrun, hbronze⟩ : ∃ s, Runs.run (ConsumerMain.step offeredPostgres .ok)
      (ConsumerMain.init 2 []) sampleBuffered = some s ∧ s.bronze.length = 1 := ⟨_, rfl, rfl⟩
  have hdelivered : ∀ body, .deliver body ∈ sampleBuffered →
      body ∈ published offeredPydantic .ok sampleDump sampleConnections := by
    intro body hbody
    apply mem_published_sample
    simpa [sampleBuffered] using hbody
  exact ⟨s, hrun, hbronze, (tables_reflect_buffered (fun _ => rfl) .first hrun hdelivered identified_sample
    reads_sample fun _ _ _ => rfl).1⟩

end Sample

end CryptoLakehouse.Pipeline
