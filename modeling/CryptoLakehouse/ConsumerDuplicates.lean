import CryptoLakehouse.ConsumerRepository
import CryptoLakehouse.LibraryRuns

/-! What `TradeRepository` adds to `duplicates_skipped_total`. A single insert reads `cur.rowcount`; a batch
compares the trades attempted with the rows that `RETURNING` gave for its pages. However a list of trades is
cut into calls, bronze and the counter end the same. -/

namespace CryptoLakehouse.Repository

open Transaction (Session)

/-- The counter beside the connection. -/
structure Counted where
  conn : Session Bronze
  duplicatesSkippedTotal : Int

section Code

variable (pg : Postgres) (storable : Dict → Bool)

/-- The rows that an `INSERT ... ON CONFLICT (trade_id) DO NOTHING` inserts: `rowcount` counts them and
`RETURNING` returns one row for each. -/
def insertedRows (bronze : Bronze) (receivedAt : Instant) (trades : List Dict) : List RawTrade :=
  KeyedTable.inserted (RawTrade.tradeId pg) bronze (trades.map fun trade => ⟨trade, receivedAt⟩)

/-- The result of `execute_values` with `fetch=True`: what each page returned, one after the other. -/
def fetched (receivedAt : Instant) : List (List Dict) → Bronze → List (Option String)
  | [], _ => []
  | page :: pages, bronze =>
      (insertedRows pg bronze receivedAt page).map (RawTrade.tradeId pg) ++
        fetched receivedAt pages (CryptoLakehouse.insertBatch pg bronze receivedAt page)

/-- What a call that returns adds to the counter. -/
def Call.skipped (bronze : Bronze) : Call → Int
  | .insertOne trade receivedAt =>
      let rowcount := (insertedRows pg bronze receivedAt [trade]).length
      if rowcount = 0 then 1 else 0
  | .insertBatch trades receivedAt =>
      if trades = [] then 0
      else
        let attempted : Int := trades.length
        let inserted : Int := (fetched pg receivedAt (paginate PAGE_SIZE [] trades) bronze).length
        let skipped := attempted - inserted
        if skipped > 0 then skipped else 0

/-- A call that returns; the label also says what becomes of its commands. -/
def Counted.step (s : Counted) (label : Call × (Nat → Transaction.Reply)) : Option Counted :=
  match label.1.run pg storable label.2 s.conn with
  | (.ok _, conn) => some ⟨conn, s.duplicatesSkippedTotal + label.1.skipped pg s.conn.view⟩
  | (.error _, _) => none

/-- The trades of some calls, in order. -/
def attempted (calls : List (Call × (Nat → Transaction.Reply))) : List Dict :=
  calls.flatMap fun label => label.1.trades

/-- The map from trade id to payload. -/
def payloadAt (bronze : Bronze) (id : String) : Option Dict :=
  (bronze.find? fun row => row.tradeId pg = some id).map RawTrade.payload

def withoutId (bronze : Bronze) : Bronze := bronze.filter fun row => row.tradeId pg = none

end Code

section Count

variable (pg : Postgres)

theorem insertBatch_eq_append (bronze : Bronze) (receivedAt : Instant) (trades : List Dict) :
    CryptoLakehouse.insertBatch pg bronze receivedAt trades =
      bronze ++ insertedRows pg bronze receivedAt trades :=
  KeyedTable.insertAbsent_eq_append_inserted _ _ _

/-- Over any pages, the rows fetched are as many as the rows added. -/
theorem length_fetched (receivedAt : Instant) (pages : List (List Dict)) (bronze : Bronze) :
    bronze.length + (fetched pg receivedAt pages bronze).length =
      (CryptoLakehouse.insertBatch pg bronze receivedAt pages.flatten).length := by
  induction pages generalizing bronze with
  | nil => rfl
  | cons page pages ih =>
      rw [fetched, List.flatten_cons, insertBatch_append, ← ih, List.length_append, List.length_map,
        insertBatch_eq_append, List.length_append]
      omega

theorem length_insertBatch_le (bronze : Bronze) (receivedAt : Instant) (trades : List Dict) :
    (CryptoLakehouse.insertBatch pg bronze receivedAt trades).length ≤ bronze.length + trades.length := by
  have hlength := KeyedTable.length_inserted_le (RawTrade.tradeId pg) bronze
    (trades.map fun trade => ⟨trade, receivedAt⟩)
  rw [List.length_map] at hlength
  rw [insertBatch_eq_append, List.length_append]
  exact Nat.add_le_add_left hlength _

/-- Rows stored and duplicates counted add up to the trades of the call. -/
theorem stored_add_skipped (call : Call) (bronze : Bronze) :
    ((CryptoLakehouse.insertBatch pg bronze call.stamp call.trades).length : Int) + call.skipped pg bronze =
      bronze.length + call.trades.length := by
  have hle := length_insertBatch_le pg bronze call.stamp call.trades
  cases call with
  | insertOne trade receivedAt =>
      have heq := congrArg List.length (insertBatch_eq_append pg bronze receivedAt [trade])
      rw [List.length_append] at heq
      simp only [Call.skipped, Call.stamp, Call.trades, List.length_singleton] at hle ⊢
      split <;> omega
  | insertBatch trades receivedAt =>
      have heq := length_fetched pg receivedAt (paginate PAGE_SIZE [] trades) bronze
      rw [flatten_paginate, List.nil_append] at heq
      simp only [Call.skipped, Call.stamp, Call.trades] at hle ⊢
      split_ifs with hnil hpos
      · rw [hnil]
        rfl
      · omega
      · omega

end Count

section Run

variable {pg : Postgres} {storable : Dict → Bool}

/-- A call that returns on an idle connection commits its trades and counts its duplicates. -/
theorem Counted.step_eq_some {s t : Counted} {label : Call × (Nat → Transaction.Reply)}
    (hidle : s.conn.status = .idle) (h : s.step pg storable label = some t) :
    t = ⟨⟨CryptoLakehouse.insertBatch pg s.conn.committed label.1.stamp label.1.trades, .idle⟩,
      s.duplicatesSkippedTotal + label.1.skipped pg s.conn.committed⟩ := by
  have hview : s.conn.view = s.conn.committed := by rw [Session.view, hidle]
  unfold Counted.step at h
  split at h
  · rename_i conn hcall
    obtain rfl := Option.some.inj h
    rw [hview]
    rw [Call.run_eq] at hcall
    split_ifs at hcall with hpages
    · -- an empty batch returns before it touches the connection
      have htrades := label.1.flatten_pages
      rw [hpages, List.flatten_nil] at htrades
      obtain rfl : s.conn = conn := congrArg Prod.snd hcall
      rw [← htrades, ← hidle]
      rfl
    · have hne : label.1.statements pg storable ≠ [] := by simpa [Call.statements] using hpages
      obtain ⟨work, heffect, rfl⟩ := Session.transact_ok hne hcall
      rw [Call.statements] at heffect
      rw [effect_pages heffect, hview, label.1.flatten_pages]
  · cases h

/-- The payloads in bronze after some calls are those of inserting the trades one after the other. -/
def payloads (pg : Postgres) (bronze : Bronze) (trades : List Dict) : List Dict :=
  KeyedTable.insertAbsent (pg.textAt · "trade_id") (bronze.map RawTrade.payload) trades

theorem map_payload_insertBatch (bronze : Bronze) (receivedAt : Instant) (trades : List Dict) :
    (CryptoLakehouse.insertBatch pg bronze receivedAt trades).map RawTrade.payload =
      payloads pg bronze trades := by
  have hmap := KeyedTable.map_insertAbsent (pg.textAt · "trade_id") RawTrade.payload bronze
    (trades.map fun trade => ⟨trade, receivedAt⟩)
  rw [List.map_map] at hmap
  calc (CryptoLakehouse.insertBatch pg bronze receivedAt trades).map RawTrade.payload
      = KeyedTable.insertAbsent (pg.textAt · "trade_id") (bronze.map RawTrade.payload) (trades.map id) := hmap
    _ = payloads pg bronze trades := by rw [List.map_id, payloads]

/-- The run lemma: bronze and the counter are decided by the trades, however they are cut into calls. -/
theorem Counted.run_eq_some {s t : Counted} {calls : List (Call × (Nat → Transaction.Reply))}
    (hidle : s.conn.status = .idle) (h : Runs.run (Counted.step pg storable) s calls = some t) :
    t.conn.status = .idle ∧ s.conn.committed <+: t.conn.committed ∧
      t.conn.committed.map RawTrade.payload = payloads pg s.conn.committed (attempted calls) ∧
      (t.conn.committed.length : Int) + t.duplicatesSkippedTotal =
        s.conn.committed.length + s.duplicatesSkippedTotal + (attempted calls).length := by
  induction calls generalizing s with
  | nil =>
      obtain rfl := Option.some.inj h
      refine ⟨hidle, List.prefix_rfl, rfl, ?_⟩
      show (_ : Int) = _ + ((0 : Nat) : Int)
      omega
  | cons label calls ih =>
      obtain ⟨u, hstep, hrest⟩ := Runs.run_cons.mp h
      obtain rfl := Counted.step_eq_some hidle hstep
      obtain ⟨hend, hgrows, hpayloads, hcount⟩ := ih rfl hrest
      have hfirst := stored_add_skipped pg label.1 s.conn.committed
      refine ⟨hend, ?_, ?_, ?_⟩
      · refine List.IsPrefix.trans ?_ hgrows
        exact KeyedTable.table_isPrefix_insertAbsent _ _ _
      · rw [hpayloads, payloads, map_payload_insertBatch, payloads, ← KeyedTable.insertAbsent_append]
        rfl
      · rw [attempted, List.flatMap_cons, List.length_append, Int.natCast_add]
        simp only [attempted] at hcount
        omega

theorem payloadAt_of_map {bronze bronze' : Bronze} {trades : List Dict}
    (h : bronze'.map RawTrade.payload = payloads pg bronze trades) (id : String) :
    payloadAt pg bronze' id =
      (payloadAt pg bronze id).or (trades.find? fun trade => pg.textAt trade "trade_id" = some id) := by
  have hfind : ∀ rows : Bronze, payloadAt pg rows id =
      (rows.map RawTrade.payload).find? fun trade => pg.textAt trade "trade_id" = some id := by
    intro rows
    rw [payloadAt, List.find?_map]
    rfl
  rw [hfind, hfind, h, payloads, KeyedTable.find?_insertAbsent]

theorem withoutId_of_map {bronze bronze' : Bronze} {trades : List Dict}
    (h : bronze'.map RawTrade.payload = payloads pg bronze trades) :
    (withoutId pg bronze').map RawTrade.payload = (withoutId pg bronze).map RawTrade.payload ++
      trades.filter fun trade => pg.textAt trade "trade_id" = none := by
  have hfilter : ∀ rows : Bronze, (withoutId pg rows).map RawTrade.payload =
      (rows.map RawTrade.payload).filter fun trade => pg.textAt trade "trade_id" = none := by
    intro rows
    rw [withoutId, List.filter_map]
    rfl
  rw [hfilter, hfilter, h, payloads, KeyedTable.filter_insertAbsent]

/-- What inserting some trades makes of bronze and the counter: the first trade of each id wins, trades
without an id are all kept, and what is not a new row is counted. -/
structure Inserted (pg : Postgres) (s t : Counted) (trades : List Dict) : Prop where
  keeps : s.conn.committed <+: t.conn.committed
  firstWins : ∀ id, payloadAt pg t.conn.committed id = (payloadAt pg s.conn.committed id).or
    (trades.find? fun trade => pg.textAt trade "trade_id" = some id)
  nullsKept : (withoutId pg t.conn.committed).map RawTrade.payload =
    (withoutId pg s.conn.committed).map RawTrade.payload ++
      trades.filter fun trade => pg.textAt trade "trade_id" = none
  accounted : ((t.conn.committed.length : Int) - s.conn.committed.length) +
    (t.duplicatesSkippedTotal - s.duplicatesSkippedTotal) = trades.length

/-- However a list of trades is cut into calls that return, one by one or in batches of any length, the map
from trade id to payload, the rows without a trade id and the duplicates counted come out the same. -/
theorem cuts_agree {s t t' : Counted} {calls calls' : List (Call × (Nat → Transaction.Reply))}
    (hidle : s.conn.status = .idle) (htrades : attempted calls = attempted calls')
    (hrun : Runs.run (Counted.step pg storable) s calls = some t)
    (hrun' : Runs.run (Counted.step pg storable) s calls' = some t') :
    payloadAt pg t.conn.committed = payloadAt pg t'.conn.committed ∧
      (withoutId pg t.conn.committed).length = (withoutId pg t'.conn.committed).length ∧
      t.duplicatesSkippedTotal = t'.duplicatesSkippedTotal ∧ Inserted pg s t (attempted calls) := by
  obtain ⟨-, hkeeps, hpayloads, hcount⟩ := Counted.run_eq_some hidle hrun
  obtain ⟨-, -, hpayloads', hcount'⟩ := Counted.run_eq_some hidle hrun'
  rw [← htrades] at hpayloads' hcount'
  have hnulls := withoutId_of_map hpayloads
  refine ⟨?_, ?_, ?_, hkeeps, payloadAt_of_map hpayloads, hnulls, by omega⟩
  · funext id
    rw [payloadAt_of_map hpayloads, payloadAt_of_map hpayloads']
  · have hlength := congrArg List.length (hnulls.trans (withoutId_of_map hpayloads').symm)
    rwa [List.length_map, List.length_map] at hlength
  · have hlength := congrArg List.length (hpayloads.trans hpayloads'.symm)
    rw [List.length_map, List.length_map] at hlength
    omega

end Run

/-- The same trade twice, one without an id and one whose id is null. -/
def repeatedTrades : List Dict :=
  [[("trade_id", .str "1")], [("trade_id", .str "1"), ("side", .str "buy")], [], [("trade_id", .null)]]

def repeatedOneByOne : List (Call × (Nat → Transaction.Reply)) :=
  repeatedTrades.map fun trade => (.insertOne trade 0, fun _ => .done)

def repeatedCut : List (Call × (Nat → Transaction.Reply)) :=
  [(.insertBatch (repeatedTrades.take 3) 5, fun _ => .done), (.insertOne [("trade_id", .null)] 6, fun _ => .done)]

/-- One by one, and as a batch of three ahead of a single insert. -/
theorem cuts_agree_repeated : ∃ t t' : Counted,
    Runs.run (Counted.step samplePostgres sampleStorable) ⟨⟨[], .idle⟩, 0⟩ repeatedOneByOne = some t ∧
      Runs.run (Counted.step samplePostgres sampleStorable) ⟨⟨[], .idle⟩, 0⟩ repeatedCut = some t' ∧
      t.duplicatesSkippedTotal = 1 ∧ t'.duplicatesSkippedTotal = 1 ∧
      payloadAt samplePostgres t.conn.committed = payloadAt samplePostgres t'.conn.committed ∧
      Inserted samplePostgres ⟨⟨[], .idle⟩, 0⟩ t repeatedTrades := by
  obtain ⟨t, hone, hcount⟩ : ∃ t,
      Runs.run (Counted.step samplePostgres sampleStorable) ⟨⟨[], .idle⟩, 0⟩ repeatedOneByOne = some t ∧
        t.duplicatesSkippedTotal = 1 := ⟨_, rfl, rfl⟩
  obtain ⟨t', hcut, hcount'⟩ : ∃ t,
      Runs.run (Counted.step samplePostgres sampleStorable) ⟨⟨[], .idle⟩, 0⟩ repeatedCut = some t ∧
        t.duplicatesSkippedTotal = 1 := ⟨_, rfl, rfl⟩
  have htrades : attempted repeatedOneByOne = attempted repeatedCut := rfl
  obtain ⟨hmap, -, -, hinserted⟩ := cuts_agree rfl htrades hone hcut
  exact ⟨t, t', hone, hcut, hcount, hcount', hmap, hinserted⟩

end CryptoLakehouse.Repository
