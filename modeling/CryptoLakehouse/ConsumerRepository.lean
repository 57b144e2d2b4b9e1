import CryptoLakehouse.LibraryTransactions
import CryptoLakehouse.WarehouseBronze
import Mathlib.Data.List.Induction

/-! `TradeRepository` (`consumer/repository.py`) over its one connection. Neither method rolls back, so the
state of the transaction is carried from call to call. `storable` is what Postgres accepts as a payload. -/

namespace CryptoLakehouse.Repository

open Transaction (Session)

/-- The default `page_size` of `execute_values`. -/
def PAGE_SIZE : Nat := 100

/-- `_paginate` of `psycopg2.extras`; the first list is the page that is being filled. -/
def paginate {A : Type} (size : Nat) : List A → List A → List (List A)
  | [], [] => []
  | page, [] => [page]
  | page, a :: rest =>
      if (page ++ [a]).length = size then (page ++ [a]) :: paginate size [] rest
      else paginate size (page ++ [a]) rest

theorem flatten_paginate {A : Type} (size : Nat) (page rest : List A) :
    (paginate size page rest).flatten = page ++ rest := by
  induction rest generalizing page with
  | nil => cases page <;> simp [paginate]
  | cons a rest ih =>
      rw [paginate]
      split
      · rw [List.flatten_cons, ih, List.nil_append, List.append_assoc, List.singleton_append]
      · rw [ih, List.append_assoc, List.singleton_append]

section Code

variable (pg : Postgres) (storable : Dict → Bool)

/-- `INSERT ... ON CONFLICT (trade_id) DO NOTHING` of some rows: one that is rejected rejects them all. -/
def insertStatement (receivedAt : Instant) (trades : List Dict) (bronze : Bronze) : Option Bronze :=
  if trades.all storable then some (insertBatch pg bronze receivedAt trades) else none

/-- The statements of `execute_values`, one for each page. -/
def batchStatements (trades : List Dict) (receivedAt : Instant) : List (Bronze → Option Bronze) :=
  (paginate PAGE_SIZE [] trades).map (insertStatement pg storable receivedAt)

def insertOne (replies : Nat → Transaction.Reply) (trade : Dict) (receivedAt : Instant) (conn : Session Bronze) :
    Except Transaction.Error Unit × Session Bronze :=
  conn.transact replies [insertStatement pg storable receivedAt [trade]]

def insertBatch (replies : Nat → Transaction.Reply) (trades : List Dict) (receivedAt : Instant)
    (conn : Session Bronze) : Except Transaction.Error Unit × Session Bronze :=
  if trades = [] then (.ok (), conn) else conn.transact replies (batchStatements pg storable trades receivedAt)

end Code

/-- A call of one of the two methods. -/
inductive Call where
  | insertOne (trade : Dict) (receivedAt : Instant)
  | insertBatch (trades : List Dict) (receivedAt : Instant)

namespace Call

def trades : Call → List Dict
  | .insertOne trade _ => [trade]
  | .insertBatch trades _ => trades

variable (pg : Postgres) (storable : Dict → Bool)

def run (replies : Nat → Transaction.Reply) : Call → Session Bronze → Except Transaction.Error Unit × Session Bronze
  | .insertOne trade receivedAt => Repository.insertOne pg storable replies trade receivedAt
  | .insertBatch trades receivedAt => Repository.insertBatch pg storable replies trades receivedAt

/-- The pages of the `INSERT` statements of a call. -/
def pages : Call → List (List Dict)
  | .insertOne trade _ => [[trade]]
  | .insertBatch trades _ => paginate PAGE_SIZE [] trades

def stamp : Call → Instant
  | .insertOne _ receivedAt | .insertBatch _ receivedAt => receivedAt

def statements (call : Call) : List (Bronze → Option Bronze) :=
  call.pages.map (insertStatement pg storable call.stamp)

end Call

section Server

variable {pg : Postgres} {storable : Dict → Bool} {replies : Nat → Transaction.Reply}

theorem paginate_ne_nil {A : Type} {size : Nat} {rest : List A} (h : rest ≠ []) : paginate size [] rest ≠ [] := by
  intro hpages
  have hflatten := flatten_paginate size [] rest
  rw [hpages, List.flatten_nil, List.nil_append] at hflatten
  exact h hflatten.symm

theorem Call.flatten_pages (call : Call) : call.pages.flatten = call.trades := by
  cases call with
  | insertOne trade receivedAt => rfl
  | insertBatch trades receivedAt => exact flatten_paginate PAGE_SIZE [] trades

/-- Both methods are one transaction of their statements; an empty batch is none at all. -/
theorem Call.run_eq (call : Call) (conn : Session Bronze) :
    call.run pg storable replies conn =
      if call.pages = [] then (.ok (), conn) else conn.transact replies (call.statements pg storable) := by
  cases call with
  | insertOne trade receivedAt => rfl
  | insertBatch trades receivedAt =>
      rw [Call.run, Repository.insertBatch, Call.pages]
      by_cases htrades : trades = []
      · rw [if_pos htrades, htrades]
        rfl
      · rw [if_neg htrades, if_neg (paginate_ne_nil htrades)]
        rfl

theorem insertStatement_eq_some {receivedAt : Instant} {trades : List Dict} {bronze bronze' : Bronze} :
    insertStatement pg storable receivedAt trades bronze = some bronze' ↔
      (∀ trade ∈ trades, storable trade = true) ∧
        CryptoLakehouse.insertBatch pg bronze receivedAt trades = bronze' := by
  rw [insertStatement, ← List.all_eq_true]
  split_ifs with hall
  · rw [and_iff_right hall, Option.some.injEq]
  · exact iff_of_false (by simp) fun h => hall h.1

/-- Pages that are all accepted are one insert of their rows. -/
theorem effect_pages {receivedAt : Instant} {pages : List (List Dict)} {bronze bronze' : Bronze}
    (h : Session.effect (pages.map (insertStatement pg storable receivedAt)) bronze = some bronze') :
    bronze' = CryptoLakehouse.insertBatch pg bronze receivedAt pages.flatten := by
  induction pages generalizing bronze with
  | nil =>
      obtain rfl := Option.some.inj h
      rfl
  | cons page pages ih =>
      rw [List.map_cons, Session.effect, Option.bind_eq_some_iff] at h
      obtain ⟨first, hfirst, hrest⟩ := h
      rw [List.flatten_cons, insertBatch_append, (insertStatement_eq_some.mp hfirst).2]
      exact ih hrest

variable (pg storable replies) in
/-- Whatever becomes of `insert_batch`, it commits nothing or the whole batch, and the transaction that it
leaves open holds the first trades of the batch. -/
theorem insertBatch_outcome (trades : List Dict) (receivedAt : Instant) (conn : Session Bronze) :
    ((insertBatch pg storable replies trades receivedAt conn).2.committed = conn.committed ∨
        (insertBatch pg storable replies trades receivedAt conn).2.committed =
          CryptoLakehouse.insertBatch pg conn.view receivedAt trades) ∧
      ∀ work, (insertBatch pg storable replies trades receivedAt conn).2.status = .active work →
        ∃ sent, sent <+: trades ∧ work = CryptoLakehouse.insertBatch pg conn.view receivedAt sent := by
  rw [insertBatch]
  split_ifs with htrades
  · refine ⟨.inl rfl, fun work hwork => ⟨[], List.nil_prefix, ?_⟩⟩
    rw [Session.view, show conn.status = .active work from hwork]
    rfl
  · obtain ⟨hcommitted, hactive⟩ := Session.transact_outcome conn replies
      (batchStatements pg storable trades receivedAt)
    refine ⟨hcommitted.imp_right fun heffect => ?_, fun work hwork => ?_⟩
    · rw [effect_pages heffect, flatten_paginate, List.nil_append]
    · obtain ⟨done, hdone, heffect⟩ := hactive work hwork
      obtain ⟨pages, hpages, rfl⟩ := List.prefix_map_iff.mp hdone
      refine ⟨pages.flatten, ?_, effect_pages heffect⟩
      obtain ⟨more, hmore⟩ := hpages
      have hflatten := flatten_paginate PAGE_SIZE [] trades
      rw [← hmore, List.flatten_append, List.nil_append] at hflatten
      exact ⟨more.flatten, hflatten⟩

/-- An `insert_batch` that returns has committed its batch and leaves the connection idle. -/
theorem insertBatch_ok {trades : List Dict} {receivedAt : Instant} {conn conn' : Session Bronze}
    (hne : trades ≠ []) (h : insertBatch pg storable replies trades receivedAt conn = (.ok (), conn')) :
    conn' = ⟨CryptoLakehouse.insertBatch pg conn.view receivedAt trades, .idle⟩ := by
  rw [insertBatch, if_neg hne] at h
  have hstatements : batchStatements pg storable trades receivedAt ≠ [] := by
    simpa [batchStatements] using paginate_ne_nil hne
  obtain ⟨work, heffect, rfl⟩ := Session.transact_ok hstatements h
  rw [effect_pages heffect, flatten_paginate, List.nil_append]

theorem accepts_iff {k : Nat} {receivedAt : Instant} {pages : List (List Dict)} {bronze : Bronze} :
    Session.Accepts replies k (pages.map (insertStatement pg storable receivedAt)) bronze ↔
      (∀ i < pages.length, replies (k + i) = .done) ∧ ∀ trade ∈ pages.flatten, storable trade = true := by
  induction pages generalizing k bronze with
  | nil => simp [Session.Accepts]
  | cons page pages ih =>
      rw [List.map_cons, Session.Accepts, List.length_cons, List.flatten_cons, List.forall_mem_append]
      simp only [insertStatement_eq_some, ih]
      constructor
      · rintro ⟨hdone, -, ⟨hpage, -⟩, hreplies, hrest⟩
        refine ⟨fun i hi => ?_, hpage, hrest⟩
        cases i with
        | zero => exact hdone
        | succ i =>
            rw [← Nat.add_assoc, Nat.add_right_comm]
            exact hreplies i (by omega)
      · rintro ⟨hreplies, hpage, hrest⟩
        refine ⟨hreplies 0 (by omega), _, ⟨hpage, rfl⟩, fun i hi => ?_, hrest⟩
        rw [Nat.add_right_comm]
        exact hreplies (i + 1) (by omega)

end Server

/-- A call on a server that is up, and which of its commands the server rejects on any other ground than
the rows. The last command is the commit. -/
structure Attempt where
  call : Call
  rejected : Nat → Bool

namespace Attempt

def replies (attempt : Attempt) (k : Nat) : Transaction.Reply :=
  if attempt.rejected k then .rejected else .done

/-- No `INSERT` of the call is rejected. -/
def InsertsAccepted (storable : Dict → Bool) (attempt : Attempt) : Prop :=
  (∀ k < attempt.call.pages.length, attempt.rejected k = false) ∧
    ∀ trade ∈ attempt.call.trades, storable trade = true

variable (pg : Postgres) (storable : Dict → Bool)

def run (attempt : Attempt) (conn : Session Bronze) : Except Transaction.Error Unit × Session Bronze :=
  attempt.call.run pg storable attempt.replies conn

/-- The connection after some calls, from a fresh one. -/
def after (bronze : Bronze) (attempts : List Attempt) : Session Bronze :=
  attempts.foldl (fun conn attempt => (attempt.run pg storable conn).2) ⟨bronze, .idle⟩

end Attempt

section Clean

variable (pg : Postgres) (storable : Dict → Bool)

/-- A call that raises leaves bronze unchanged, and the next call with storable trades succeeds. -/
def FailsCleanly (bronze : Bronze) (attempts : List Attempt) : Prop :=
  ∀ done attempt, done ++ [attempt] <+: attempts → ∀ e conn,
    attempt.run pg storable (Attempt.after pg storable bronze done) = (.error e, conn) →
      conn.committed = (Attempt.after pg storable bronze done).committed ∧
        ∀ next : Call, (∀ trade ∈ next.trades, storable trade = true) →
          (next.run pg storable (fun _ => .done) conn).1 = .ok ()

variable {pg storable} {attempt : Attempt} {conn : Session Bronze}

variable (pg storable attempt) in
/-- What a call on an idle connection comes to. -/
theorem Attempt.run_idle (hidle : conn.status = .idle) :
    (attempt.InsertsAccepted storable ∧ ((attempt.run pg storable conn).1 = .ok () ∧
          (attempt.run pg storable conn).2.status = .idle ∨
        attempt.rejected attempt.call.pages.length = true ∧
          ∃ e, attempt.run pg storable conn = (.error e, conn))) ∨
      (¬ attempt.InsertsAccepted storable ∧
        ∃ e, attempt.run pg storable conn = (.error e, { conn with status := .aborted })) := by
  have hanswered : Session.Answered attempt.replies := by
    intro k
    rw [Attempt.replies]
    split <;> simp
  have haccepts : Session.Accepts attempt.replies 0 (attempt.call.statements pg storable) conn.view ↔
      attempt.InsertsAccepted storable := by
    rw [Call.statements, accepts_iff, Call.flatten_pages]
    simp [Attempt.InsertsAccepted, Attempt.replies]
  rw [Attempt.run, Call.run_eq]
  split_ifs with hpages
  · have htrades := attempt.call.flatten_pages
    rw [hpages, List.flatten_nil] at htrades
    refine .inl ⟨⟨by simp [hpages], by simp [← htrades]⟩, .inl ⟨rfl, hidle⟩⟩
  · have hne : attempt.call.statements pg storable ≠ [] := by simpa [Call.statements] using hpages
    rw [← haccepts]
    rcases Session.transact_answered hidle hanswered hne with
      ⟨h, -, work, hrun⟩ | ⟨h, hcommit, hrun⟩ | ⟨h, hrun⟩ <;> rw [hrun]
    · exact .inl ⟨h, .inl ⟨rfl, rfl⟩⟩
    · rw [Attempt.replies, Call.statements, List.length_map] at hcommit
      exact .inl ⟨h, .inr ⟨by simpa using hcommit, _, rfl⟩⟩
    · exact .inr ⟨h, _, rfl⟩

theorem Attempt.after_snoc (bronze : Bronze) (done : List Attempt) (attempt : Attempt) :
    Attempt.after pg storable bronze (done ++ [attempt]) =
      (attempt.run pg storable (Attempt.after pg storable bronze done)).2 := by
  rw [Attempt.after, List.foldl_append]
  rfl

variable (pg) in
/-- Calls whose inserts are accepted leave the connection idle, even when a commit is rejected. -/
theorem Attempt.after_idle (bronze : Bronze) {done : List Attempt}
    (h : ∀ attempt ∈ done, attempt.InsertsAccepted storable) :
    (Attempt.after pg storable bronze done).status = .idle := by
  induction done using List.reverseRecOn with
  | nil => rfl
  | append_singleton done attempt ih =>
      rw [List.forall_mem_append] at h
      rw [Attempt.after_snoc]
      rcases Attempt.run_idle pg storable attempt (ih h.1) with ⟨-, ⟨-, hrun⟩ | ⟨-, e, hrun⟩⟩ | ⟨hnot, -⟩
      · exact hrun
      · rw [hrun]
        exact ih h.1
      · exact absurd (h.2 attempt (List.mem_singleton_self _)) hnot

/-- In an aborted transaction no call with a trade succeeds. -/
theorem Call.run_aborted {call : Call} {replies : Nat → Transaction.Reply} (haborted : conn.status = .aborted)
    (hne : call.pages ≠ []) : (call.run pg storable replies conn).1 ≠ .ok () := by
  rw [Call.run_eq, if_neg hne]
  cases hrun : conn.transact replies (call.statements pg storable) with
  | mk result t =>
      rintro rfl
      have hne' : call.statements pg storable ≠ [] := by simpa [Call.statements] using hne
      obtain ⟨f, fs, hfs⟩ := List.exists_cons_of_ne_nil hne'
      obtain ⟨e, he⟩ := Session.execute_aborted (replies 0) f haborted
      rw [hfs, Session.transact, Session.executeAll] at hrun
      cases hfirst : conn.execute (replies 0) f with
      | mk result u =>
          rw [hfirst] at he hrun
          obtain rfl : result = .error e := he
          cases hrun

/-- With the server up, a batch without a rejected trade is committed. -/
theorem insertBatch_storable {trades : List Dict} {receivedAt : Instant} (hidle : conn.status = .idle)
    (hstorable : ∀ trade ∈ trades, storable trade = true) (hne : trades ≠ []) :
    insertBatch pg storable (fun _ => .done) trades receivedAt conn =
      (.ok (), ⟨CryptoLakehouse.insertBatch pg conn.committed receivedAt trades, .idle⟩) := by
  have haccepted : Attempt.InsertsAccepted storable ⟨.insertBatch trades receivedAt, fun _ => false⟩ :=
    ⟨fun _ _ => rfl, hstorable⟩
  have hview : conn.view = conn.committed := by rw [Session.view, hidle]
  rcases Attempt.run_idle pg storable ⟨.insertBatch trades receivedAt, fun _ => false⟩ hidle with
    ⟨-, ⟨hok, -⟩ | ⟨hcommit, -⟩⟩ | ⟨hrejected, -⟩
  · rw [← hview]
    exact Prod.ext hok (insertBatch_ok hne (Prod.ext hok rfl))
  · cases hcommit
  · exact absurd haccepted hrejected

variable (pg) in
/-- With the server up, a rejected trade leaves the transaction aborted, and an aborted transaction
commits nothing more. -/
theorem insertBatch_rejected {trades : List Dict} (receivedAt : Instant) {trade : Dict}
    (hstatus : conn.status = .idle ∨ conn.status = .aborted) (htrade : trade ∈ trades)
    (hrejected : storable trade = false) :
    ∃ e, insertBatch pg storable (fun _ => .done) trades receivedAt conn =
      (.error e, ⟨conn.committed, .aborted⟩) := by
  have hne : trades ≠ [] := List.ne_nil_of_mem htrade
  rcases hstatus with hidle | haborted
  · rcases Attempt.run_idle pg storable ⟨.insertBatch trades receivedAt, fun _ => false⟩ hidle with
      ⟨haccepted, -⟩ | ⟨-, e, hrun⟩
    · have hstorable := haccepted.2 trade htrade
      rw [hrejected] at hstorable
      cases hstorable
    · exact ⟨e, hrun⟩
  · obtain ⟨committed, status⟩ := conn
    obtain rfl : status = .aborted := haborted
    have hstatements : batchStatements pg storable trades receivedAt ≠ [] := by
      simpa [batchStatements] using paginate_ne_nil hne
    obtain ⟨f, fs, hfs⟩ := List.exists_cons_of_ne_nil hstatements
    rw [insertBatch, if_neg hne, hfs]
    exact ⟨_, rfl⟩

theorem insertsAccepted_of_failsCleanly {bronze : Bronze} {attempts : List Attempt}
    (hstorable : ∃ trade, storable trade = true) (h : FailsCleanly pg storable bronze attempts)
    {done : List Attempt} (hdone : done <+: attempts) :
    ∀ attempt ∈ done, attempt.InsertsAccepted storable := by
  induction done using List.reverseRecOn with
  | nil => simp
  | append_singleton done attempt ih =>
      have hbefore := ih ((List.prefix_append done [attempt]).trans hdone)
      rw [List.forall_mem_append]
      refine ⟨hbefore, fun last hlast => ?_⟩
      obtain rfl := List.mem_singleton.mp hlast
      by_contra hrejected
      rcases Attempt.run_idle pg storable last (Attempt.after_idle pg bronze hbefore) with
        ⟨haccepted, -⟩ | ⟨-, e, hrun⟩
      · exact hrejected haccepted
      · -- the transaction is aborted, so the next call raises, whatever its trade
        obtain ⟨trade, htrade⟩ := hstorable
        have hnext := (h done last hdone e _ hrun).2 (.insertOne trade 0) (by simpa [Call.trades] using htrade)
        exact Call.run_aborted rfl (by simp [Call.pages]) hnext

theorem failsCleanly_of_insertsAccepted {bronze : Bronze} {attempts : List Attempt}
    (h : ∀ attempt ∈ attempts, attempt.InsertsAccepted storable) : FailsCleanly pg storable bronze attempts := by
  intro done attempt hdone e conn hrun
  have hidle := Attempt.after_idle pg bronze fun a ha =>
    h a (hdone.subset (List.mem_append_left _ ha))
  rcases Attempt.run_idle pg storable attempt hidle with
    ⟨-, ⟨hok, -⟩ | ⟨-, e', hraised⟩⟩ | ⟨hrejected, -⟩
  · rw [hrun] at hok
    cases hok
  · rw [hrun] at hraised
    obtain rfl := congrArg Prod.snd hraised
    refine ⟨rfl, fun next hnext => ?_⟩
    have haccepted : Attempt.InsertsAccepted storable ⟨next, fun _ => false⟩ := ⟨fun _ _ => rfl, hnext⟩
    rcases Attempt.run_idle pg storable ⟨next, fun _ => false⟩ hidle with
      ⟨-, ⟨hok, -⟩ | ⟨hcommit, -⟩⟩ | ⟨hrejected, -⟩
    · exact hok
    · cases hcommit
    · exact absurd haccepted hrejected
  · exact absurd (h attempt (hdone.subset (by simp))) hrejected

end Clean

/-- **A failed call leaves the repository as it was exactly when no `INSERT` is rejected.** A rejected
commit is a rollback; a rejected `INSERT` leaves the transaction aborted, as nothing rolls it back. -/
theorem failsCleanly_iff_insertsAccepted (pg : Postgres) {storable : Dict → Bool}
    (hstorable : ∃ trade, storable trade = true) (bronze : Bronze) (attempts : List Attempt) :
    FailsCleanly pg storable bronze attempts ↔ ∀ attempt ∈ attempts, attempt.InsertsAccepted storable :=
  ⟨fun h => insertsAccepted_of_failsCleanly hstorable h List.prefix_rfl, failsCleanly_of_insertsAccepted⟩

def samplePostgres : Postgres := ⟨fun _ => "", fun _ => none, fun _ => none⟩

/-- `jsonb` has no `NaN`, which `json.loads` reads and `json.dumps` writes. -/
def sampleStorable (trade : Dict) : Bool :=
  trade.all fun field => match field.2 with
    | .float text => text ≠ "NaN"
    | _ => true

/-- A trade whose commit is rejected, and the same trade again. -/
def rejectedCommit : List Attempt :=
  [⟨.insertOne [("trade_id", .str "1")] 0, fun k => k = 1⟩,
    ⟨.insertOne [("trade_id", .str "1")] 1, fun _ => false⟩]

theorem failsCleanly_iff_insertsAccepted_commit :
    FailsCleanly samplePostgres sampleStorable [] rejectedCommit ↔
      ∀ attempt ∈ rejectedCommit, attempt.InsertsAccepted sampleStorable :=
  failsCleanly_iff_insertsAccepted samplePostgres ⟨[], rfl⟩ [] rejectedCommit

/-- One rejected row, and the next storable trade is not inserted although the server is up. -/
theorem rejected_row_blocks_next :
    ∃ conn, Call.run samplePostgres sampleStorable (fun _ => .done) (.insertBatch [[("price", .float "NaN")]] 0)
        ⟨[], .idle⟩ = (.error .rejected, conn) ∧
      (Call.run samplePostgres sampleStorable (fun _ => .done) (.insertOne [("trade_id", .str "1")] 1) conn).1 =
        .error .inFailedTransaction ∧
      ¬ FailsCleanly samplePostgres sampleStorable []
        [⟨.insertBatch [[("price", .float "NaN")]] 0, fun _ => false⟩] := by
  have hrun : Call.run samplePostgres sampleStorable (fun _ => .done)
      (.insertBatch [[("price", .float "NaN")]] 0) ⟨[], .idle⟩ = (.error .rejected, ⟨[], .aborted⟩) := rfl
  refine ⟨_, hrun, rfl, fun h => ?_⟩
  have hnext := (h [] _ List.prefix_rfl _ _ hrun).2 (.insertOne [("trade_id", .str "1")] 1)
    (by simp [Call.trades, sampleStorable])
  exact Call.run_aborted rfl (by simp [Call.pages]) hnext

end CryptoLakehouse.Repository
