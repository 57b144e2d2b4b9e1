import CryptoLakehouse.LibraryKeyedTable
import CryptoLakehouse.PythonJson
import Mathlib.Data.Rat.Defs

/-! `bronze.raw_trades` (`migrations/001`, `002`) and the inserts of `consumer/repository.py`. The
column `trade_id` is generated from the payload and carries a full unique index, under which NULLs
never conflict. What Postgres does with text it parses is a parameter. -/

namespace CryptoLakehouse

/-- Microseconds since the Unix epoch, UTC: the resolution of `timestamptz`. -/
abbrev Instant := Int

/-- The parts of Postgres that read or write text. -/
structure Postgres where
  /-- `->>` on a value that is neither a string nor JSON `null` -/
  jsonbText : Json → String
  /-- text to `numeric`; `none` raises -/
  numericIn : String → Option ℚ
  /-- text to `timestamptz`; `none` raises -/
  timestamptzIn : String → Option Instant

/-- `payload ->> key`; `none` is NULL. -/
def Postgres.textAt (pg : Postgres) (payload : Dict) (key : String) : Option String :=
  match payload.get? key with
  | none | some .null => none
  | some (.str s) => some s
  | some value => some (pg.jsonbText value)

structure RawTrade where
  payload : Dict
  receivedAt : Instant

abbrev Bronze := List RawTrade

section

variable (pg : Postgres)

/-- The generated column. -/
def RawTrade.tradeId (row : RawTrade) : Option String := pg.textAt row.payload "trade_id"

/-- The committed effect of `INSERT ... ON CONFLICT (trade_id) DO NOTHING` on a batch with one stamp. -/
def insertBatch (bronze : Bronze) (receivedAt : Instant) (trades : List Dict) : Bronze :=
  KeyedTable.insertAbsent (RawTrade.tradeId pg) bronze (trades.map fun trade => ⟨trade, receivedAt⟩)

/-- The trade is committed: its own row, or a row that holds its trade id. -/
def Stored (bronze : Bronze) (trade : Dict) : Prop :=
  ∃ row ∈ bronze, row.payload = trade ∨
    pg.textAt trade "trade_id" ≠ none ∧ row.tradeId pg = pg.textAt trade "trade_id"

theorem Stored.tradeId_eq {bronze : Bronze} {trade : Dict} (h : Stored pg bronze trade) :
    ∃ row ∈ bronze, row.tradeId pg = pg.textAt trade "trade_id" := by
  obtain ⟨row, hrow, rfl | ⟨-, hid⟩⟩ := h
  · exact ⟨row, hrow, rfl⟩
  · exact ⟨row, hrow, hid⟩

theorem Stored.insertBatch {bronze : Bronze} {trade : Dict} (h : Stored pg bronze trade)
    (receivedAt : Instant) (trades : List Dict) :
    Stored pg (CryptoLakehouse.insertBatch pg bronze receivedAt trades) trade := by
  obtain ⟨row, hrow, hid⟩ := h
  exact ⟨row, (KeyedTable.table_isPrefix_insertAbsent _ _ _).subset hrow, hid⟩

/-- A committed batch stores each of its trades, as a new row or under an older one. -/
theorem stored_insertBatch (bronze : Bronze) (receivedAt : Instant) {trades : List Dict} {trade : Dict}
    (h : trade ∈ trades) : Stored pg (insertBatch pg bronze receivedAt trades) trade := by
  have hrow : (⟨trade, receivedAt⟩ : RawTrade) ∈ trades.map fun trade => ⟨trade, receivedAt⟩ :=
    List.mem_map_of_mem h
  rcases KeyedTable.represented_insertAbsent (RawTrade.tradeId pg) bronze _ hrow with hmem | ⟨hnull, hmem⟩
  · exact ⟨_, hmem, .inl rfl⟩
  · obtain ⟨row, hmem, hid⟩ := List.mem_map.mp hmem
    exact ⟨row, hmem, .inr ⟨hnull, hid⟩⟩

theorem insertBatch_append (bronze : Bronze) (receivedAt : Instant) (trades trades' : List Dict) :
    insertBatch pg bronze receivedAt (trades ++ trades') =
      insertBatch pg (insertBatch pg bronze receivedAt trades) receivedAt trades' := by
  rw [insertBatch, List.map_append, KeyedTable.insertAbsent_append]
  rfl

/-- The rows after a committed batch were there before or carry its trades. -/
theorem mem_insertBatch {bronze : Bronze} {receivedAt : Instant} {trades : List Dict}
    {row : RawTrade} (h : row ∈ insertBatch pg bronze receivedAt trades) :
    row ∈ bronze ∨ ∃ trade ∈ trades, row.payload = trade := by
  rcases KeyedTable.mem_insertAbsent _ h with hold | hnew
  · exact .inl hold
  · obtain ⟨trade, htrade, rfl⟩ := List.mem_map.mp hnew
    exact .inr ⟨trade, htrade, rfl⟩

end

end CryptoLakehouse
