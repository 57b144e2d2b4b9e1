import CryptoLakehouse.ConsumerMain
import CryptoLakehouse.ConsumerRepository

/-! Messages that the database never accepts, in the consumer that is wired to a `BatchBuffer` over a
`TradeRepository`. The database is up, so a statement fails only for its rows. A flush is one event, with
the deliveries that `add` takes while its `insert_batch` runs; it may be the timer's, or the one that `add`
makes when the buffer is full. A flush that finds another one running returns at once and is no event. -/

namespace CryptoLakehouse.Isolation

open Transaction (Session)

structure State where
  obj : BatchBuffer.Obj Dict
  conn : Session Bronze

inductive Event (Body : Type) where
  | deliver (body : Body)
  | flush (meanwhile : List Body) (receivedAt : Instant)

section Code

variable {Body : Type} (pg : Postgres) (storable : Dict → Bool) (loads : Body → Except Exn Json)

/-- `on_message` up to the end of the locked section of `add`; a body it cannot read is rejected with NACK. -/
def deliver (s : State) (body : Body) : State :=
  match ConsumerMain.parse loads body with
  | .error _ => s
  | .ok message => { s with obj := (s.obj.add message).1 }

def deliverAll (s : State) (bodies : List Body) : State := bodies.foldl (deliver loads) s

/-- `flush`: its claim, `insert_batch`, and the way the batch goes. -/
def flush (s : State) (meanwhile : List Body) (receivedAt : Instant) : State :=
  match s.obj.claim with
  | none => deliverAll loads s meanwhile
  | some (batch, obj) =>
      let s' := deliverAll loads { s with obj := obj } meanwhile
      match Repository.insertBatch pg storable (fun _ => .done) batch receivedAt s'.conn with
      | (.ok _, conn) => ⟨s'.obj.release, conn⟩
      | (.error _, conn) => ⟨(s'.obj.giveBack batch).release, conn⟩

def handle (s : State) : Event Body → State
  | .deliver body => deliver loads s body
  | .flush meanwhile receivedAt => flush pg storable loads s meanwhile receivedAt

def init (batchSize : Int) (bronze : Bronze) : State := ⟨⟨batchSize, [], false, false, none⟩, ⟨bronze, .idle⟩⟩

def after (s : State) (events : List (Event Body)) : State := events.foldl (handle pg storable loads) s

/-- The body decodes to an object that the database does not accept. -/
def rejected (body : Body) : Bool :=
  match ConsumerMain.parse loads body with
  | .error _ => false
  | .ok message => !storable message

/-- The deliveries of rejected bodies are removed, the flushes stay. -/
def withoutRejected (events : List (Event Body)) : List (Event Body) :=
  events.filterMap fun
    | .deliver body => if rejected storable loads body then none else some (.deliver body)
    | .flush meanwhile receivedAt =>
        some (.flush (meanwhile.filter fun body => !rejected storable loads body) receivedAt)

end Code

def storableTrades (storable : Dict → Bool) (bronze : Bronze) : List Dict :=
  (bronze.map RawTrade.payload).filter storable

section Law

variable {Body : Type} (pg : Postgres) (storable : Dict → Bool) (loads : Body → Except Exn Json)

/-- After each flush bronze holds the storable trades that it holds when the rejected deliveries are
removed. -/
def Isolates (s : State) (events : List (Event Body)) : Prop :=
  ∀ done meanwhile receivedAt, done ++ [.flush meanwhile receivedAt] <+: events →
    storableTrades storable (after pg storable loads s (done ++ [.flush meanwhile receivedAt])).conn.committed =
      storableTrades storable (after pg storable loads s
        (withoutRejected storable loads (done ++ [.flush meanwhile receivedAt]))).conn.committed

/-- The trade id of the message is in bronze. -/
def Known (bronze : Bronze) (message : Dict) : Prop :=
  pg.textAt message "trade_id" ≠ none ∧ pg.textAt message "trade_id" ∈ bronze.map (RawTrade.tradeId pg)

/-- The buffer holds a rejected message beside a storable one that is not in bronze. -/
def Mixed (s : State) : Prop :=
  (∃ message ∈ s.obj.buffer, storable message = false) ∧
    ∃ message ∈ s.obj.buffer, storable message = true ∧ ¬ Known pg s.conn.committed message

/-- No flush starts on a mixed buffer. -/
def NeverMixed (s : State) (events : List (Event Body)) : Prop :=
  ∀ done meanwhile receivedAt, done ++ [.flush meanwhile receivedAt] <+: events →
    ¬ Mixed pg storable (after pg storable loads s done)

end Law

section Flush

variable {Body : Type} {pg : Postgres} {storable : Dict → Bool} {loads : Body → Except Exn Json} {s f : State}

variable (loads) in
/-- The messages of some deliveries. -/
def messages (bodies : List Body) : List Dict :=
  bodies.filterMap fun body => (ConsumerMain.parse loads body).toOption

theorem messages_filter (bodies : List Body) :
    messages loads (bodies.filter fun body => !rejected storable loads body) =
      (messages loads bodies).filter storable := by
  induction bodies with
  | nil => rfl
  | cons body bodies ih =>
      simp only [messages, List.filter_cons, List.filterMap_cons, rejected] at ih ⊢
      cases hparse : ConsumerMain.parse loads body with
      | error e => simpa [hparse, Except.toOption] using ih
      | ok message => by_cases hmessage : storable message <;> simpa [hparse, Except.toOption, hmessage] using ih

variable (loads s) in
theorem deliverAll_spec (bodies : List Body) :
    (deliverAll loads s bodies).obj.buffer = s.obj.buffer ++ messages loads bodies ∧
      (deliverAll loads s bodies).obj.flushing = s.obj.flushing ∧
      (deliverAll loads s bodies).conn = s.conn := by
  induction bodies generalizing s with
  | nil => simp [deliverAll, messages]
  | cons body bodies ih =>
      obtain ⟨hbuffer, hflushing, hconn⟩ := ih (deliver loads s body)
      rw [deliverAll, List.foldl_cons, ← deliverAll, hbuffer, hflushing, hconn]
      cases hparse : ConsumerMain.parse loads body <;>
        simp [deliver, messages, hparse, Except.toOption, BatchBuffer.Obj.add]

/-- A flush that claims: its batch is gone when the insert returns, and goes back in front of what came
meanwhile when it raises. -/
theorem flush_claims {meanwhile : List Body} {receivedAt : Instant} {conn : Session Bronze}
    {result : Except Transaction.Error Unit} (hopen : s.obj.flushing = false) (hne : s.obj.buffer ≠ [])
    (hinsert : Repository.insertBatch pg storable (fun _ => .done) s.obj.buffer receivedAt s.conn =
      (result, conn)) :
    (flush pg storable loads s meanwhile receivedAt).obj.buffer =
        (match result with
          | .ok _ => []
          | .error _ => s.obj.buffer) ++ messages loads meanwhile ∧
      (flush pg storable loads s meanwhile receivedAt).obj.flushing = false ∧
      (flush pg storable loads s meanwhile receivedAt).conn = conn := by
  have hclaim := BatchBuffer.Obj.claim_of_open hopen hne
  obtain ⟨hbuffer, hflushing, hconn⟩ := deliverAll_spec loads
    { s with obj := { s.obj with flushing := true, buffer := [], isOverloaded := false } } meanwhile
  simp only [flush, hclaim, hconn, hinsert]
  cases result with
  | ok _ => exact ⟨hbuffer, rfl, rfl⟩
  | error e => exact ⟨congrArg (s.obj.buffer ++ ·) hbuffer, rfl, rfl⟩

variable (pg loads) in
/-- A flush of storable messages commits them. -/
theorem flush_storable (meanwhile : List Body) (receivedAt : Instant) (hopen : s.obj.flushing = false)
    (hidle : s.conn.status = .idle) (hstorable : ∀ message ∈ s.obj.buffer, storable message = true) :
    (flush pg storable loads s meanwhile receivedAt).obj.buffer = messages loads meanwhile ∧
      (flush pg storable loads s meanwhile receivedAt).obj.flushing = false ∧
      (flush pg storable loads s meanwhile receivedAt).conn =
        ⟨insertBatch pg s.conn.committed receivedAt s.obj.buffer, .idle⟩ := by
  by_cases hne : s.obj.buffer = []
  · obtain ⟨hbuffer, hflushing, hconn⟩ := deliverAll_spec loads s meanwhile
    have hclaim : s.obj.claim = none := BatchBuffer.Obj.claim_eq_none.mpr (.inr hne)
    simp only [flush, hclaim]
    rw [hbuffer, hflushing, hconn, hne, List.nil_append, ← hidle]
    exact ⟨rfl, hopen, rfl⟩
  · exact flush_claims hopen hne (Repository.insertBatch_storable hidle hstorable hne)

variable (pg loads) in
/-- A flush of a rejected message commits nothing, and everything stays in the buffer. -/
theorem flush_rejected (meanwhile : List Body) (receivedAt : Instant) (hopen : s.obj.flushing = false)
    (hstatus : s.conn.status = .idle ∨ s.conn.status = .aborted)
    (hrejected : ∃ message ∈ s.obj.buffer, storable message = false) :
    (flush pg storable loads s meanwhile receivedAt).obj.buffer = s.obj.buffer ++ messages loads meanwhile ∧
      (flush pg storable loads s meanwhile receivedAt).obj.flushing = false ∧
      (flush pg storable loads s meanwhile receivedAt).conn = ⟨s.conn.committed, .aborted⟩ := by
  obtain ⟨message, hmessage, hbad⟩ := hrejected
  obtain ⟨e, hinsert⟩ := Repository.insertBatch_rejected pg receivedAt hstatus hmessage hbad
  exact flush_claims hopen (List.ne_nil_of_mem hmessage) hinsert

variable (pg storable) in
/-- A run beside the one without its rejected deliveries. Storable messages may be kept back only when
their trades are in bronze already. -/
structure Tracks (s f : State) : Prop where
  committed : f.conn.committed = s.conn.committed
  idle : f.conn.status = .idle
  status : s.conn.status = .idle ∨
    s.conn.status = .aborted ∧ ∃ message ∈ s.obj.buffer, storable message = false
  buffer : ∃ kept, s.obj.buffer.filter storable = kept ++ f.obj.buffer ∧
    ∀ message ∈ kept, Known pg s.conn.committed message
  flushing : s.obj.flushing = false ∧ f.obj.flushing = false

theorem insertBatch_eq_self_iff {bronze : Bronze} {receivedAt : Instant} {trades : List Dict} :
    insertBatch pg bronze receivedAt trades = bronze ↔ ∀ trade ∈ trades, Known pg bronze trade := by
  rw [insertBatch, KeyedTable.insertAbsent_eq_self_iff, List.forall_mem_map]
  exact Iff.rfl

theorem Tracks.all_storable (h : Tracks pg storable s f) : ∀ message ∈ f.obj.buffer, storable message = true := by
  intro message hmessage
  obtain ⟨kept, hbuffer, -⟩ := h.buffer
  have hmem : message ∈ s.obj.buffer.filter storable := hbuffer ▸ List.mem_append_right kept hmessage
  exact (List.mem_filter.mp hmem).2

variable (loads) in
theorem Tracks.flush_filtered (h : Tracks pg storable s f) (meanwhile : List Body) (receivedAt : Instant) :
    (flush pg storable loads f meanwhile receivedAt).obj.buffer = messages loads meanwhile ∧
      (flush pg storable loads f meanwhile receivedAt).obj.flushing = false ∧
      (flush pg storable loads f meanwhile receivedAt).conn =
        ⟨insertBatch pg s.conn.committed receivedAt f.obj.buffer, .idle⟩ := by
  rw [← h.committed]
  exact flush_storable pg loads meanwhile receivedAt h.flushing.2 h.idle h.all_storable

/-- A flush on a buffer that is not mixed does the same in both runs. -/
theorem Tracks.flush (h : Tracks pg storable s f) (hmixed : ¬ Mixed pg storable s) (meanwhile : List Body)
    (receivedAt : Instant) :
    Tracks pg storable (flush pg storable loads s meanwhile receivedAt) (flush pg storable loads f
      (meanwhile.filter fun body => !rejected storable loads body) receivedAt) := by
  obtain ⟨kept, hbuffer, hknown⟩ := h.buffer
  obtain ⟨hfbuffer, hfflushing, hfconn⟩ := h.flush_filtered loads
    (meanwhile.filter fun body => !rejected storable loads body) receivedAt
  rw [messages_filter] at hfbuffer
  by_cases hrejected : ∃ message ∈ s.obj.buffer, storable message = false
  · -- the batch fails, and the other run inserts only what bronze has already
    have hall : ∀ message ∈ kept ++ f.obj.buffer, Known pg s.conn.committed message := by
      intro message hmessage
      rw [← hbuffer] at hmessage
      by_contra hnew
      exact hmixed ⟨hrejected, message, (List.mem_filter.mp hmessage).1, (List.mem_filter.mp hmessage).2, hnew⟩
    obtain ⟨hsbuffer, hsflushing, hsconn⟩ := flush_rejected pg loads meanwhile receivedAt
      h.flushing.1 (h.status.imp_right And.left) hrejected
    have hsame : insertBatch pg s.conn.committed receivedAt f.obj.buffer = s.conn.committed :=
      insertBatch_eq_self_iff.mpr fun message hmessage => hall message (List.mem_append_right kept hmessage)
    refine ⟨by rw [hfconn, hsconn, hsame], by rw [hfconn], .inr ⟨by rw [hsconn], ?_⟩, ?_, hsflushing, hfflushing⟩
    · rw [hsbuffer]
      exact hrejected.imp fun message hmessage => ⟨List.mem_append_left _ hmessage.1, hmessage.2⟩
    · refine ⟨kept ++ f.obj.buffer, by rw [hsbuffer, hfbuffer, List.filter_append, hbuffer], ?_⟩
      rw [hsconn]
      exact hall
  · have hstorable : ∀ message ∈ s.obj.buffer, storable message = true := by
      simpa using hrejected
    have hidle : s.conn.status = .idle := h.status.resolve_right fun haborted => hrejected haborted.2
    rw [List.filter_eq_self.mpr hstorable] at hbuffer
    obtain ⟨hsbuffer, hsflushing, hsconn⟩ := flush_storable pg loads meanwhile receivedAt
      h.flushing.1 hidle hstorable
    rw [hbuffer, insertBatch_append, insertBatch_eq_self_iff.mpr hknown] at hsconn
    refine ⟨by rw [hfconn, hsconn], by rw [hfconn], .inl (by rw [hsconn]), ?_, hsflushing, hfflushing⟩
    exact ⟨[], by rw [hsbuffer, hfbuffer, List.nil_append], by simp⟩

/-- A flush on a mixed buffer leaves a storable trade out of bronze. -/
theorem Tracks.flush_mixed (h : Tracks pg storable s f) (hmixed : Mixed pg storable s) (meanwhile : List Body)
    (receivedAt : Instant) :
    storableTrades storable (Isolation.flush pg storable loads s meanwhile receivedAt).conn.committed ≠
      storableTrades storable (Isolation.flush pg storable loads f
        (meanwhile.filter fun body => !rejected storable loads body) receivedAt).conn.committed := by
  obtain ⟨hrejected, message, hmessage, hstorable, hnew⟩ := hmixed
  obtain ⟨kept, hbuffer, hknown⟩ := h.buffer
  have hmem : message ∈ f.obj.buffer := by
    have hfilter : message ∈ kept ++ f.obj.buffer := hbuffer ▸ List.mem_filter.mpr ⟨hmessage, hstorable⟩
    exact (List.mem_append.mp hfilter).resolve_left fun hkept => hnew (hknown message hkept)
  rw [(h.flush_filtered loads _ receivedAt).2.2, (flush_rejected pg loads meanwhile receivedAt h.flushing.1
    (h.status.imp_right And.left) hrejected).2.2]
  obtain ⟨added, hadded, heq⟩ := KeyedTable.exists_insertAbsent_eq_append (RawTrade.tradeId pg) s.conn.committed
    (f.obj.buffer.map fun trade => ⟨trade, receivedAt⟩)
  have hne : added ≠ [] := by
    rintro rfl
    rw [List.append_nil, ← insertBatch] at heq
    exact hnew (insertBatch_eq_self_iff.mp heq message hmem)
  have hall : storableTrades storable added = added.map RawTrade.payload := by
    rw [storableTrades, List.filter_eq_self, List.forall_mem_map]
    intro row hrow
    obtain ⟨trade, htrade, rfl⟩ := List.mem_map.mp (hadded hrow)
    exact h.all_storable trade htrade
  rw [insertBatch, heq, storableTrades, storableTrades, List.map_append, List.filter_append, ← storableTrades,
    ← storableTrades, hall]
  simpa using hne

/-- A delivery is made in both runs, or is rejected and made in the first one only. -/
theorem Tracks.deliver (h : Tracks pg storable s f) (body : Body) :
    Tracks pg storable (deliver loads s body)
      (if rejected storable loads body then f else Isolation.deliver loads f body) := by
  obtain ⟨kept, hbuffer, hknown⟩ := h.buffer
  cases hparse : ConsumerMain.parse loads body with
  | error e => simpa [Isolation.deliver, rejected, hparse] using h
  | ok message =>
      have hstatus := h.status.imp_right fun ⟨haborted, other, hother, hbad⟩ =>
        (⟨haborted, other, List.mem_append_left [message] hother, hbad⟩ :
          _ ∧ ∃ other ∈ s.obj.buffer ++ [message], storable other = false)
      cases hmessage : storable message
      · simp only [Isolation.deliver, rejected, hparse, hmessage, Bool.not_false, if_true]
        refine ⟨h.committed, h.idle, hstatus, ⟨kept, ?_, hknown⟩, h.flushing⟩
        simpa [BatchBuffer.Obj.add, List.filter_append, hmessage] using hbuffer
      · simp only [Isolation.deliver, rejected, hparse, hmessage, Bool.not_true, Bool.false_eq_true, if_false]
        refine ⟨h.committed, h.idle, hstatus, ⟨kept, ?_, hknown⟩, h.flushing⟩
        simp [BatchBuffer.Obj.add, List.filter_append, hmessage, hbuffer]

theorem tracks_init (batchSize : Int) (bronze : Bronze) :
    Tracks pg storable (init batchSize bronze) (init batchSize bronze) :=
  ⟨rfl, rfl, .inl rfl, ⟨[], rfl, by simp⟩, rfl, rfl⟩

theorem after_snoc (events : List (Event Body)) (event : Event Body) :
    after pg storable loads s (events ++ [event]) =
      handle pg storable loads (after pg storable loads s events) event := by
  rw [after, List.foldl_append]
  rfl

theorem after_withoutRejected_snoc (events : List (Event Body)) (event : Event Body) :
    after pg storable loads s (withoutRejected storable loads (events ++ [event])) =
      match event with
      | .deliver body =>
          if rejected storable loads body then after pg storable loads s (withoutRejected storable loads events)
          else Isolation.deliver loads (after pg storable loads s (withoutRejected storable loads events)) body
      | .flush meanwhile receivedAt =>
          Isolation.flush pg storable loads (after pg storable loads s (withoutRejected storable loads events))
            (meanwhile.filter fun body => !rejected storable loads body) receivedAt := by
  rw [withoutRejected, List.filterMap_append, ← withoutRejected]
  cases event with
  | deliver body =>
      by_cases hbody : rejected storable loads body
      · simp [hbody]
      · simp [hbody, after_snoc, handle]
  | flush meanwhile receivedAt => simp [after_snoc, handle]

theorem NeverMixed.mono {events events' : List (Event Body)} (h : NeverMixed pg storable loads s events)
    (hstart : events' <+: events) : NeverMixed pg storable loads s events' :=
  fun done meanwhile receivedAt hdone => h done meanwhile receivedAt (hdone.trans hstart)

/-- The run lemma: while no flush starts on a mixed buffer, the two runs keep together. -/
theorem NeverMixed.tracks {batchSize : Int} {bronze : Bronze} {events : List (Event Body)}
    (h : NeverMixed pg storable loads (init batchSize bronze) events) :
    Tracks pg storable (after pg storable loads (init batchSize bronze) events)
      (after pg storable loads (init batchSize bronze) (withoutRejected storable loads events)) := by
  induction events using List.reverseRecOn with
  | nil => exact tracks_init batchSize bronze
  | append_singleton events event ih =>
      have hbefore := ih (h.mono (List.prefix_append events [event]))
      rw [after_snoc, after_withoutRejected_snoc]
      cases event with
      | deliver body => exact hbefore.deliver body
      | flush meanwhile receivedAt =>
          exact hbefore.flush (h events meanwhile receivedAt List.prefix_rfl) meanwhile receivedAt

theorem Isolates.neverMixed {batchSize : Int} {bronze : Bronze} {events : List (Event Body)}
    (h : Isolates pg storable loads (init batchSize bronze) events) {done : List (Event Body)}
    (hdone : done <+: events) : NeverMixed pg storable loads (init batchSize bronze) done := by
  induction done using List.reverseRecOn with
  | nil =>
      intro first meanwhile receivedAt hfirst
      simpa using List.prefix_nil.mp hfirst
  | append_singleton done event ih =>
      have hbefore := ih ((List.prefix_append done [event]).trans hdone)
      intro first meanwhile receivedAt hfirst hmixed
      rcases List.prefix_concat_iff.mp hfirst with heq | hearlier
      · obtain ⟨rfl, hevent⟩ := List.append_inj' heq rfl
        have hsame := h first meanwhile receivedAt (heq ▸ hdone)
        rw [after_snoc, after_withoutRejected_snoc] at hsame
        exact hbefore.tracks.flush_mixed hmixed meanwhile receivedAt hsame
      · exact hbefore first meanwhile receivedAt hearlier hmixed

end Flush

/-- **Rejected messages hold back no others exactly when no flush starts on a mixed buffer.** A rejected
message never leaves the buffer, so a storable one that joins it later is held back as well. -/
theorem isolates_iff_neverMixed {Body : Type} (pg : Postgres) (storable : Dict → Bool)
    (loads : Body → Except Exn Json) (batchSize : Int) (bronze : Bronze) (events : List (Event Body)) :
    Isolates pg storable loads (init batchSize bronze) events ↔
      NeverMixed pg storable loads (init batchSize bronze) events := by
  refine ⟨fun h => h.neverMixed List.prefix_rfl, fun h done meanwhile receivedAt hdone => ?_⟩
  rw [(h.mono hdone).tracks.committed]

/-- A poison message in the batch of a good one. -/
def poisonedBatch : List (Event Json) :=
  [.deliver (.obj [("trade_id", .str "1")]), .deliver (.obj [("price", .float "NaN")]), .flush [] 0]

theorem poison_holds_back :
    ¬ Isolates Repository.samplePostgres Repository.sampleStorable Except.ok (init 2 []) poisonedBatch := by
  intro h
  have hsame := congrArg List.length (h (poisonedBatch.take 2) [] 0 List.prefix_rfl)
  exact absurd hsame (by decide)

end CryptoLakehouse.Isolation
