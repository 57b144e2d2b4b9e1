import CryptoLakehouse.InfraMigrate
import CryptoLakehouse.LibraryDdl
import CryptoLakehouse.WarehouseBronze

/-! The statements of `migrations/001_bronze_schema.sql` and `002_bronze_trade_id_index.sql`, as the runners of
`infra/migrate.py` commit them, beside the inserts of `consumer/repository.py`. Whoever likes may also run the
statements by hand, in any order and any number of times. -/

namespace CryptoLakehouse.Schema

open Ddl (Statement Index Database exec execAll insertOnConflict)

/-- `bronze.raw_trades` -/
def RAW_TRADES : String × String := ("bronze", "raw_trades")

def payloadIndex : Index := ⟨"bronze", "idx_raw_trades_payload", "raw_trades", false, "payload", none⟩

/-- Partial: it holds no row without a trade id. -/
def partialIndex : Index :=
  ⟨"bronze", "idx_raw_trades_trade_id", "raw_trades", true, "trade_id", some "trade_id IS NOT NULL"⟩

def receivedAtIndex : Index := ⟨"bronze", "idx_raw_trades_received_at", "raw_trades", false, "received_at", none⟩

def unprocessedIndex : Index :=
  ⟨"bronze", "idx_raw_trades_unprocessed", "raw_trades", false, "received_at", some "processed = FALSE"⟩

def fullIndex : Index := ⟨"bronze", "idx_bronze_trade_id", "raw_trades", true, "trade_id", none⟩

def BRONZE_SCHEMA : String := "001_bronze_schema.sql"

def TRADE_ID_INDEX : String := "002_bronze_trade_id_index.sql"

/-- `migrations/` -/
def MIGRATIONS : List String := [BRONZE_SCHEMA, TRADE_ID_INDEX]

def bronzeSchema : List Statement :=
  [.createSchema "bronze", .createSchema "silver", .createSchema "gold"] ++ [.createTable "bronze" "raw_trades"] ++
  [.createIndex payloadIndex, .createIndex partialIndex, .createIndex receivedAtIndex, .createIndex unprocessedIndex]

def tradeIdIndex : List Statement :=
  [.dropIndex "bronze" "idx_raw_trades_trade_id", .createIndex fullIndex]

/-- `path.read_text()` -/
def readText (version : String) : List Statement :=
  if version = BRONZE_SCHEMA then bronzeSchema
  else if version = TRADE_ID_INDEX then tradeIdIndex
  else []

/-- Of the columns only `trade_id` is under a unique index; `processed` is false in every row. -/
def columns (pg : Postgres) : Ddl.Columns RawTrade String where
  value column row := if column = "trade_id" then row.tradeId pg else none
  holds predicate row := if predicate = "trade_id IS NOT NULL" then (row.tradeId pg).isSome else true

/-- The insert of `repository.py`. -/
def insert (pg : Postgres) (db : Database RawTrade) (receivedAt : Instant) (trades : List Dict) :
    Except Ddl.Error (Database RawTrade) :=
  insertOnConflict (columns pg) db RAW_TRADES "trade_id" (trades.map fun trade => ⟨trade, receivedAt⟩)

structure State (T : Type) where
  migrate : Migrate.State T
  db : Database RawTrade

inductive Action (T : Type) where
  | migrate (a : Migrate.Action T)
  | psql (statements : List Statement)
  | insert (receivedAt : Instant) (trades : List Dict)

def init {T : Type} : State T := ⟨Migrate.init, Ddl.empty⟩

section Code

variable {T : Type} [DecidableEq T] (pg : Postgres) (digit : Char → Option Nat)

/-- The SQL that a step of a runner has committed. -/
def committed (m m' : Migrate.State T) : List Statement :=
  (m'.db.executed.drop m.db.executed.length).flatMap readText

/-- A transaction with a statement that raises is not committed; one of 002 locks the table until its commit. -/
def step (s : State T) : Action T → Option (State T)
  | .migrate a => (Migrate.step digit MIGRATIONS s.migrate a).bind fun m =>
      (execAll (columns pg) s.db (committed s.migrate m)).toOption.map fun db => ⟨m, db⟩
  | .psql statements =>
      if statements ⊆ bronzeSchema ++ tradeIdIndex then
        some { s with db := (execAll (columns pg) s.db statements).toOption.getD s.db }
      else none
  | .insert receivedAt trades => some { s with db := (insert pg s.db receivedAt trades).toOption.getD s.db }

end Code

/-- The table with what 001 and 002 may have made of it, and the trades in it. -/
structure Sound (pg : Postgres) (db : Database RawTrade) : Prop where
  tables : ∀ table ∈ db.tables, table = RAW_TRADES
  indexes : ∀ index ∈ db.indexes, RAW_TRADES ∈ db.tables ∧
    index ∈ [payloadIndex, partialIndex, receivedAtIndex, unprocessedIndex, fullIndex]
  unique : KeyedTable.KeyUnique (RawTrade.tradeId pg) (db.rows RAW_TRADES)
  guarded : fullIndex ∉ db.indexes → db.rows RAW_TRADES = []

/-- A statement of the two files. -/
def Known : Statement → Prop
  | .createSchema _ => True
  | .createTable schema name => (schema, name) = RAW_TRADES
  | .createIndex index => index ∈ [payloadIndex, partialIndex, receivedAtIndex, unprocessedIndex, fullIndex]
  | .dropIndex schema name => schema = "bronze" ∧ name = "idx_raw_trades_trade_id"

/-- What a statement finds missing before 001. -/
def Needs (db : Database RawTrade) : Statement → Prop
  | .createTable _ _ => "bronze" ∈ db.schemas
  | .createIndex _ => RAW_TRADES ∈ db.tables
  | .createSchema _ | .dropIndex _ _ => True

section Statements

variable {pg : Postgres} {db db' : Database RawTrade} {statement : Statement}

theorem known_of_mem : ∀ statement ∈ bronzeSchema ++ tradeIdIndex, Known statement := by
  simp [bronzeSchema, tradeIdIndex, Known, RAW_TRADES]

theorem sound_empty (pg : Postgres) : Sound pg Ddl.empty where
  tables _ htable := absurd htable List.not_mem_nil
  indexes _ hindex := absurd hindex List.not_mem_nil
  unique := List.nodup_nil
  guarded _ := rfl

/-- Every index that the files make has a place in the table. -/
theorem Sound.admits (h : Sound pg db) {index : Index}
    (hknown : index ∈ [payloadIndex, partialIndex, receivedAtIndex, unprocessedIndex, fullIndex]) :
    (columns pg).Admits index (db.rows RAW_TRADES) := by
  have hcolumn : index.unique = true → index.column = "trade_id" := by
    revert index
    decide
  intro hunique
  apply Ddl.admits_of_keyUnique _ hunique
  rw [hcolumn hunique]
  exact h.unique

theorem Sound.relation_iff (h : Sound pg db) {index : Index}
    (hknown : index ∈ [payloadIndex, partialIndex, receivedAtIndex, unprocessedIndex, fullIndex]) :
    db.Relation index.schema index.name ↔ index ∈ db.indexes := by
  have hnames : ∀ index ∈ [payloadIndex, partialIndex, receivedAtIndex, unprocessedIndex, fullIndex],
      ∀ other ∈ [payloadIndex, partialIndex, receivedAtIndex, unprocessedIndex, fullIndex],
        other.name = index.name → other = index := by decide
  have htable : ∀ index ∈ [payloadIndex, partialIndex, receivedAtIndex, unprocessedIndex, fullIndex],
      (index.schema, index.name) ≠ RAW_TRADES := by decide
  constructor
  · rintro (htables | ⟨other, hother, -, hname⟩)
    · exact absurd (h.tables _ htables) (htable index hknown)
    · rwa [← hnames index hknown other (h.indexes other hother).2 hname]
  · exact fun hmem => Or.inr ⟨index, hmem, rfl, rfl⟩

/-- What is kept of a database: nothing is taken back but the partial index. -/
structure Grows (db db' : Database RawTrade) : Prop where
  schemas : db.schemas ⊆ db'.schemas
  tables : db.tables ⊆ db'.tables
  full : fullIndex ∈ db.indexes → fullIndex ∈ db'.indexes
  rows : db'.rows RAW_TRADES = db.rows RAW_TRADES

theorem Grows.rfl : Grows db db := ⟨List.Subset.refl _, List.Subset.refl _, id, Eq.refl _⟩

theorem Grows.trans {db'' : Database RawTrade} (h : Grows db db') (h' : Grows db' db'') : Grows db db'' :=
  ⟨fun _ hmem => h'.schemas (h.schemas hmem), fun _ hmem => h'.tables (h.tables hmem),
    fun hmem => h'.full (h.full hmem), h'.rows.trans h.rows⟩

theorem Needs.mono (hgrows : Grows db db') (h : Needs db statement) : Needs db' statement := by
  cases statement with
  | createSchema name | dropIndex schema name => trivial
  | createTable schema name => exact hgrows.schemas h
  | createIndex index => exact hgrows.tables h

/-- A table that is not there has no rows. -/
theorem Sound.rows_eq_nil (h : Sound pg db) (hmissing : RAW_TRADES ∉ db.tables) : db.rows RAW_TRADES = [] :=
  h.guarded fun hfull => hmissing (h.indexes _ hfull).1

theorem table_of_known {index : Index}
    (hknown : index ∈ [payloadIndex, partialIndex, receivedAtIndex, unprocessedIndex, fullIndex]) :
    (index.schema, index.table) = RAW_TRADES := by
  revert index
  decide

theorem sound_exec (h : Sound pg db) (hknown : Known statement)
    (hexec : exec (columns pg) db statement = .ok db') : Sound pg db' ∧ Grows db db' := by
  cases statement with
  | createSchema name =>
      obtain rfl := Except.ok.inj hexec
      split_ifs
      · exact ⟨h, Grows.rfl⟩
      · exact ⟨⟨h.tables, h.indexes, h.unique, h.guarded⟩, List.subset_append_left .., List.Subset.refl _, id, rfl⟩
  | createTable schema name =>
      obtain ⟨rfl, rfl⟩ := Prod.mk.inj hknown
      simp only [exec] at hexec
      split_ifs at hexec with hschema hthere
      · obtain rfl := Except.ok.inj hexec
        exact ⟨h, Grows.rfl⟩
      · obtain rfl := Except.ok.inj hexec
        have hempty : Function.update db.rows RAW_TRADES [] RAW_TRADES = [] := Function.update_self ..
        have hmissing : RAW_TRADES ∉ db.tables := fun hmem => hthere (Or.inl hmem)
        refine ⟨⟨fun table htable => ?_, fun index hindex => ?_, ?_, fun _ => hempty⟩, List.Subset.refl _,
          List.subset_append_left .., id, ?_⟩
        · rcases List.mem_append.mp htable with hold | hnew
          · exact h.tables table hold
          · exact List.mem_singleton.mp hnew
        · exact ⟨List.mem_append_left _ (h.indexes index hindex).1, (h.indexes index hindex).2⟩
        · show KeyedTable.KeyUnique _ (Function.update db.rows RAW_TRADES [] RAW_TRADES)
          rw [hempty]
          exact List.nodup_nil
        · show Function.update db.rows RAW_TRADES [] RAW_TRADES = _
          rw [hempty, h.rows_eq_nil hmissing]
  | createIndex index =>
      simp only [exec, table_of_known hknown] at hexec
      split_ifs at hexec with htable hthere hadmits
      · obtain rfl := Except.ok.inj hexec
        exact ⟨h, Grows.rfl⟩
      · obtain rfl := Except.ok.inj hexec
        refine ⟨⟨h.tables, fun other hother => ?_, h.unique, fun hnot => h.guarded fun hfull => ?_⟩,
          List.Subset.refl _, List.Subset.refl _, fun hfull => List.mem_append_left _ hfull, rfl⟩
        · rcases List.mem_append.mp hother with hold | hnew
          · exact h.indexes other hold
          · rw [List.mem_singleton.mp hnew]
            exact ⟨htable, hknown⟩
        · exact hnot (List.mem_append_left _ hfull)
  | dropIndex schema name =>
      obtain ⟨rfl, rfl⟩ := hknown
      simp only [exec] at hexec
      split_ifs at hexec
      obtain rfl := Except.ok.inj hexec
      have hfull : fullIndex ∈ db.indexes → fullIndex ∈ db.indexes.filter fun index =>
          ¬ (index.schema = "bronze" ∧ index.name = "idx_raw_trades_trade_id") :=
        fun hmem => List.mem_filter.mpr ⟨hmem, by decide⟩
      exact ⟨⟨h.tables, fun index hindex => h.indexes index (List.mem_of_mem_filter hindex), h.unique,
        fun hnot => h.guarded fun hmem => hnot (hfull hmem)⟩, List.Subset.refl _, List.Subset.refl _, hfull, rfl⟩

/-- The data refuses no statement; what one can lack is the schema or the table. -/
theorem exec_ne_error (h : Sound pg db) (hknown : Known statement) :
    exec (columns pg) db statement ≠ .error .uniqueViolation ∧
      (Needs db statement → ∃ db', exec (columns pg) db statement = .ok db') := by
  cases statement with
  | createSchema name => exact ⟨by simp [exec], fun _ => ⟨_, rfl⟩⟩
  | createTable schema name =>
      obtain ⟨rfl, rfl⟩ := Prod.mk.inj hknown
      constructor
      · simp only [exec]
        split_ifs <;> simp
      · intro hneeds
        have hschema : "bronze" ∈ db.schemas := hneeds
        simp only [exec, if_neg (not_not.mpr hschema)]
        split_ifs <;> exact ⟨_, rfl⟩
  | createIndex index =>
      simp only [exec, table_of_known hknown, if_pos (h.admits hknown)]
      constructor
      · split_ifs <;> simp
      · intro hneeds
        have htable : RAW_TRADES ∈ db.tables := hneeds
        rw [if_neg (not_not.mpr htable)]
        split_ifs <;> exact ⟨_, rfl⟩
  | dropIndex schema name =>
      obtain ⟨rfl, rfl⟩ := hknown
      have hindex : (("bronze", "idx_raw_trades_trade_id") : String × String) ∉ db.tables :=
        fun hmem => absurd (h.tables _ hmem) (by decide)
      simp only [exec, if_neg hindex]
      exact ⟨by simp, fun _ => ⟨_, rfl⟩⟩

theorem sound_execAll {statements : List Statement} (h : Sound pg db)
    (hknown : ∀ statement ∈ statements, Known statement)
    (hexec : execAll (columns pg) db statements = .ok db') : Sound pg db' ∧ Grows db db' :=
  Ddl.execAll_invariant (I := fun now => Sound pg now ∧ Grows db now)
    (fun _ hmem _ _ hnow hstep =>
      have hnext := sound_exec hnow.1 (hknown _ hmem) hstep
      ⟨hnext.1, hnow.2.trans hnext.2⟩) ⟨h, Grows.rfl⟩ hexec

theorem execAll_ok {statements : List Statement} (h : Sound pg db)
    (hknown : ∀ statement ∈ statements, Known statement) (hneeds : ∀ statement ∈ statements, Needs db statement) :
    ∃ db', execAll (columns pg) db statements = .ok db' := by
  induction statements generalizing db with
  | nil => exact ⟨db, rfl⟩
  | cons statement statements ih =>
      obtain ⟨next, hnext⟩ := (exec_ne_error h (hknown _ List.mem_cons_self)).2 (hneeds _ List.mem_cons_self)
      obtain ⟨hsound, hgrows⟩ := sound_exec h (hknown _ List.mem_cons_self) hnext
      rw [execAll, hnext]
      exact ih hsound (fun st hst => hknown st (List.mem_cons_of_mem _ hst))
        fun st hst => (hneeds st (List.mem_cons_of_mem _ hst)).mono hgrows

theorem mem_schemas_of_exec {name : String} (hexec : exec (columns pg) db (.createSchema name) = .ok db') :
    name ∈ db'.schemas := by
  obtain rfl := Except.ok.inj hexec
  split_ifs with hmem
  · exact hmem
  · exact List.mem_append_right _ (List.mem_singleton_self name)

theorem mem_tables_of_exec (h : Sound pg db)
    (hexec : exec (columns pg) db (.createTable "bronze" "raw_trades") = .ok db') : RAW_TRADES ∈ db'.tables := by
  simp only [exec] at hexec
  split_ifs at hexec with hschema hthere
  · obtain rfl := Except.ok.inj hexec
    rcases hthere with hmem | ⟨index, hindex, -, hname⟩
    · exact hmem
    · exact (h.indexes index hindex).1
  · obtain rfl := Except.ok.inj hexec
    exact List.mem_append_right _ (List.mem_singleton_self _)

theorem mem_indexes_of_exec (h : Sound pg db) {index : Index}
    (hknown : index ∈ [payloadIndex, partialIndex, receivedAtIndex, unprocessedIndex, fullIndex])
    (hexec : exec (columns pg) db (.createIndex index) = .ok db') : index ∈ db'.indexes := by
  simp only [exec] at hexec
  split_ifs at hexec with htable hthere hadmits
  · obtain rfl := Except.ok.inj hexec
    exact (h.relation_iff hknown).mp hthere
  · obtain rfl := Except.ok.inj hexec
    exact List.mem_append_right _ (List.mem_singleton_self index)

/-- The first file can always be run, and leaves the table. -/
theorem bronzeSchema_ok (h : Sound pg db) : ∃ db', execAll (columns pg) db bronzeSchema = .ok db' ∧
    RAW_TRADES ∈ db'.tables := by
  have hschemaKnown : Known (.createSchema "bronze") := trivial
  have htableKnown : Known (.createTable "bronze" "raw_trades") := rfl
  have hothers : ∀ statement ∈ [Statement.createSchema "silver", .createSchema "gold"],
      Known statement ∧ ∀ db, Needs db statement := by simp [Known, Needs]
  have hindexKnown : ∀ statement ∈ [Statement.createIndex payloadIndex, .createIndex partialIndex,
      .createIndex receivedAtIndex, .createIndex unprocessedIndex], Known statement := by simp [Known]
  obtain ⟨db₁, hschema⟩ := (exec_ne_error h hschemaKnown).2 trivial
  obtain ⟨h₁, -⟩ := sound_exec h hschemaKnown hschema
  have hbronze := mem_schemas_of_exec hschema
  obtain ⟨db₂, hschemas⟩ := execAll_ok h₁ (fun st hst => (hothers st hst).1) fun st hst => (hothers st hst).2 db₁
  obtain ⟨h₂, hgrows⟩ := sound_execAll h₁ (fun st hst => (hothers st hst).1) hschemas
  obtain ⟨db₃, htable⟩ := (exec_ne_error h₂ htableKnown).2 (hgrows.schemas hbronze)
  obtain ⟨h₃, -⟩ := sound_exec h₂ htableKnown htable
  have hraw := mem_tables_of_exec h₂ htable
  obtain ⟨db₄, hindexes⟩ := execAll_ok h₃ hindexKnown (by simpa [Needs] using hraw)
  obtain ⟨-, hgrows'⟩ := sound_execAll h₃ hindexKnown hindexes
  refine ⟨db₄, ?_, hgrows'.tables hraw⟩
  have hsplit : bronzeSchema = .createSchema "bronze" :: ([.createSchema "silver", .createSchema "gold"] ++
      .createTable "bronze" "raw_trades" :: [.createIndex payloadIndex, .createIndex partialIndex,
        .createIndex receivedAtIndex, .createIndex unprocessedIndex]) := rfl
  rw [hsplit, execAll, hschema]
  show execAll _ db₁ _ = _
  rw [Ddl.execAll_append, hschemas]
  show execAll _ db₂ _ = _
  rw [execAll, htable]
  exact hindexes

/-- The second one can be run behind the first, and leaves the full index. -/
theorem tradeIdIndex_ok (h : Sound pg db) (htable : RAW_TRADES ∈ db.tables) :
    ∃ db', execAll (columns pg) db tradeIdIndex = .ok db' ∧ fullIndex ∈ db'.indexes := by
  have hdropKnown : Known (.dropIndex "bronze" "idx_raw_trades_trade_id") := ⟨rfl, rfl⟩
  have hfullKnown : Known (.createIndex fullIndex) := by simp [Known]
  obtain ⟨db₁, hdrop⟩ := (exec_ne_error h hdropKnown).2 trivial
  obtain ⟨h₁, hgrows⟩ := sound_exec h hdropKnown hdrop
  obtain ⟨db₂, hcreate⟩ := (exec_ne_error h₁ hfullKnown).2 (hgrows.tables htable)
  refine ⟨db₂, ?_, mem_indexes_of_exec h₁ hfullKnown hcreate⟩
  rw [tradeIdIndex, execAll, hdrop]
  show execAll _ db₁ _ = _
  rw [execAll, hcreate]
  rfl

/-- An insert is accepted exactly with the full index in place. -/
theorem insert_ok (h : Sound pg db) (hfull : fullIndex ∈ db.indexes) (receivedAt : Instant) (trades : List Dict) :
    insert pg db receivedAt trades = .ok { db with
      rows := Function.update db.rows RAW_TRADES (insertBatch pg (db.rows RAW_TRADES) receivedAt trades) } := by
  have hcolumn : ∀ index ∈ [payloadIndex, partialIndex, receivedAtIndex, unprocessedIndex, fullIndex],
      index.unique = true → index.column = "trade_id" := by decide
  exact Ddl.insertOnConflict_eq (h.indexes _ hfull).1 ⟨fullIndex, hfull, by decide⟩
    (fun index hindex _ => hcolumn index (h.indexes index hindex).2) h.unique

theorem insert_error (h : Sound pg db) (hfull : fullIndex ∉ db.indexes) (receivedAt : Instant) (trades : List Dict) :
    insert pg db receivedAt trades = .error .undefinedTable ∨
      insert pg db receivedAt trades = .error .invalidColumnReference := by
  have hinfers : ∀ index ∈ [payloadIndex, partialIndex, receivedAtIndex, unprocessedIndex, fullIndex],
      index.Infers RAW_TRADES "trade_id" → index = fullIndex := by decide
  have hnone : ¬ ∃ index ∈ db.indexes, index.Infers RAW_TRADES "trade_id" := by
    rintro ⟨index, hindex, hindexInfers⟩
    exact hfull (hinfers index (h.indexes index hindex).2 hindexInfers ▸ hindex)
  rw [insert, insertOnConflict, if_neg hnone]
  split_ifs
  · exact Or.inr rfl
  · exact Or.inl rfl

theorem sound_insert (h : Sound pg db) {receivedAt : Instant} {trades : List Dict}
    (hinsert : insert pg db receivedAt trades = .ok db') : Sound pg db' ∧ fullIndex ∈ db.indexes := by
  by_cases hfull : fullIndex ∈ db.indexes
  · rw [insert_ok h hfull] at hinsert
    obtain rfl := Except.ok.inj hinsert
    refine ⟨⟨h.tables, h.indexes, ?_, fun hnot => absurd hfull hnot⟩, hfull⟩
    show KeyedTable.KeyUnique _ (Function.update db.rows RAW_TRADES _ RAW_TRADES)
    rw [Function.update_self]
    exact KeyedTable.keyUnique_insertAbsent _ _ h.unique
  · rcases insert_error h hfull receivedAt trades with herror | herror <;> cases hinsert.symm.trans herror

theorem psql_kept (h : Sound pg db) {statements : List Statement}
    (hsub : statements ⊆ bronzeSchema ++ tradeIdIndex) :
    Sound pg ((execAll (columns pg) db statements).toOption.getD db) ∧
      Grows db ((execAll (columns pg) db statements).toOption.getD db) := by
  cases hexec : execAll (columns pg) db statements with
  | error e => exact ⟨h, Grows.rfl⟩
  | ok db' => exact sound_execAll h (fun statement hmem => known_of_mem statement (hsub hmem)) hexec

theorem insert_kept (h : Sound pg db) (receivedAt : Instant) (trades : List Dict) :
    Sound pg ((insert pg db receivedAt trades).toOption.getD db) ∧
      ((insert pg db receivedAt trades).toOption.getD db).tables = db.tables ∧
      ((insert pg db receivedAt trades).toOption.getD db).indexes = db.indexes := by
  cases hinsert : insert pg db receivedAt trades with
  | error e => exact ⟨h, rfl, rfl⟩
  | ok db' =>
      obtain ⟨hsound, hfull⟩ := sound_insert h hinsert
      rw [insert_ok h hfull] at hinsert
      obtain rfl := Except.ok.inj hinsert
      exact ⟨hsound, rfl, rfl⟩

end Statements

section Runs

variable {T : Type} [DecidableEq T] {pg : Postgres} {digit : Char → Option Nat} {s t : State T} {a : Action T}

/-- `\d` and `int` on the characters in front of the names of the files. -/
structure ReadsNumbers (digit : Char → Option Nat) : Prop where
  zero : digit '0' = some 0
  one : digit '1' = some 1
  two : digit '2' = some 2
  underscore : digit '_' = none

structure Inv (pg : Postgres) (s : State T) : Prop where
  migrate : Migrate.Inv MIGRATIONS s.migrate
  sound : Sound pg s.db
  first : BRONZE_SCHEMA ∈ s.migrate.db.executed → RAW_TRADES ∈ s.db.tables
  second : TRADE_ID_INDEX ∈ s.migrate.db.executed → fullIndex ∈ s.db.indexes

theorem getMigrationFiles_eq (h : ReadsNumbers digit) : Migrate.getMigrationFiles digit MIGRATIONS = MIGRATIONS ∧
    ((Migrate.getMigrationFiles digit MIGRATIONS).map (Migrate.numericPrefix digit)).Nodup := by
  have hfirst : Migrate.leadingDigits digit BRONZE_SCHEMA.toList = [0, 0, 1] := by
    simp [BRONZE_SCHEMA, Migrate.leadingDigits, h.zero, h.one, h.underscore]
  have hsecond : Migrate.leadingDigits digit TRADE_ID_INDEX.toList = [0, 0, 2] := by
    simp [TRADE_ID_INDEX, Migrate.leadingDigits, h.zero, h.two, h.underscore]
  have hone : Migrate.numericPrefix digit BRONZE_SCHEMA = 1 := by
    rw [Migrate.numericPrefix, hfirst]
    rfl
  have htwo : Migrate.numericPrefix digit TRADE_ID_INDEX = 2 := by
    rw [Migrate.numericPrefix, hsecond]
    rfl
  have hfiles : Migrate.getMigrationFiles digit MIGRATIONS = MIGRATIONS := by
    have hkept : MIGRATIONS.filter (fun name => ".sql".toList.isSuffixOf name.toList &&
        !(Migrate.leadingDigits digit name.toList).isEmpty) = MIGRATIONS := by
      rw [List.filter_eq_self]
      simp only [MIGRATIONS, List.forall_mem_cons, hfirst, hsecond]
      exact ⟨by decide, by decide, fun _ hmem => absurd hmem List.not_mem_nil⟩
    rw [Migrate.getMigrationFiles, hkept]
    simp [MIGRATIONS, List.insertionSort, hone, htwo]
  refine ⟨hfiles, ?_⟩
  rw [hfiles, MIGRATIONS, List.map_cons, List.map_cons, List.map_nil, hone, htwo]
  decide

/-- A step of a runner commits one file or none. -/
theorem executed_step {directory files : List String} {m m' : Migrate.State T} {b : Migrate.Action T}
    (hm : Migrate.Inv files m) (h : Migrate.step digit directory m b = some m') :
    m'.db.executed = m.db.executed ∨ ∃ version, m'.db.executed = m.db.executed ++ [version] := by
  cases Migrate.transition_iff.mpr h with
  | commit r applied version rest db hpc hdb | commitUnseen r applied version rest db hpc hdb =>
      rw [hm.opened, hpc] at hdb
      exact Or.inr ⟨version, (Migrate.commit_pair hdb).2.2⟩
  | _ => exact Or.inl rfl

/-- What a step commits: nothing, or the next of the two files. -/
theorem committed_cases {m m' : Migrate.State T} {b : Migrate.Action T} (hm : Migrate.Inv MIGRATIONS m)
    (hm' : Migrate.Inv MIGRATIONS m') (h : Migrate.step digit MIGRATIONS m b = some m') :
    committed m m' = [] ∧ m'.db.executed = m.db.executed ∨
      committed m m' = bronzeSchema ∧ m'.db.executed = [BRONZE_SCHEMA] ∨
      committed m m' = tradeIdIndex ∧ m.db.executed = [BRONZE_SCHEMA] := by
  have hprefix : m'.db.executed <+: MIGRATIONS := hm'.committed ▸ hm'.inOrder
  rcases executed_step hm h with hsame | ⟨version, hnew⟩
  · refine Or.inl ⟨?_, hsame⟩
    rw [committed, hsame, List.drop_length]
    rfl
  · rw [hnew] at hprefix
    have hread : committed m m' = readText version := by
      rw [committed, hnew, List.drop_left, List.flatMap_singleton]
    match hexecuted : m.db.executed with
    | [] =>
        rw [hexecuted, List.nil_append, MIGRATIONS, List.cons_prefix_cons] at hprefix
        refine Or.inr (Or.inl ⟨?_, ?_⟩)
        · rw [hread, hprefix.1]
          rfl
        · rw [hnew, hexecuted, hprefix.1]
          rfl
    | [first] =>
        rw [hexecuted, List.singleton_append, MIGRATIONS, List.cons_prefix_cons, List.cons_prefix_cons] at hprefix
        obtain ⟨rfl, rfl, -⟩ := hprefix
        exact Or.inr (Or.inr ⟨hread, rfl⟩)
    | first :: second :: rest =>
        have hlength := hprefix.length_le
        rw [hexecuted] at hlength
        simp [MIGRATIONS] at hlength

omit [DecidableEq T] in
theorem inv_init : Inv pg (init : State T) where
  migrate := Migrate.inv_init MIGRATIONS
  sound := sound_empty pg
  first h := absurd h List.not_mem_nil
  second h := absurd h List.not_mem_nil

theorem migrate_inv_step (hdigit : ReadsNumbers digit) {m m' : Migrate.State T} {b : Migrate.Action T}
    (hm : Migrate.Inv MIGRATIONS m) (h : Migrate.step digit MIGRATIONS m b = some m') :
    Migrate.Inv MIGRATIONS m' := by
  obtain ⟨hfiles, hdistinct⟩ := getMigrationFiles_eq hdigit
  exact Migrate.inv_step hm (by decide) (fun listing hperm =>
    (Migrate.getMigrationFiles_perm hperm hdistinct).trans hfiles) h

/-- The SQL of a file goes through when its turn has come. -/
theorem committed_ok (hs : Inv pg s) {m : Migrate.State T} {b : Migrate.Action T} (hm : Migrate.Inv MIGRATIONS m)
    (h : Migrate.step digit MIGRATIONS s.migrate b = some m) :
    ∃ db, execAll (columns pg) s.db (committed s.migrate m) = .ok db ∧ Inv pg ⟨m, db⟩ := by
  have hknown : ∀ {statements}, statements ⊆ bronzeSchema ++ tradeIdIndex →
      ∀ statement ∈ statements, Known statement := fun hsub statement hmem => known_of_mem statement (hsub hmem)
  rcases committed_cases hs.migrate hm h with ⟨hnone, hsame⟩ | ⟨hfirst, hexecuted⟩ | ⟨hsecond, hexecuted⟩
  · rw [hnone]
    exact ⟨s.db, rfl, hm, hs.sound, fun hmem => hs.first (hsame ▸ hmem), fun hmem => hs.second (hsame ▸ hmem)⟩
  · rw [hfirst]
    obtain ⟨db, hdb, htable⟩ := bronzeSchema_ok hs.sound
    obtain ⟨hsound, -⟩ := sound_execAll hs.sound (hknown (List.subset_append_left ..)) hdb
    refine ⟨db, hdb, hm, hsound, fun _ => htable, fun hmem => ?_⟩
    have hother : TRADE_ID_INDEX ∉ [BRONZE_SCHEMA] := by decide
    exact absurd (hexecuted ▸ hmem) hother
  · rw [hsecond]
    have htable : RAW_TRADES ∈ s.db.tables := hs.first (by rw [hexecuted]; exact List.mem_singleton_self _)
    obtain ⟨db, hdb, hfull⟩ := tradeIdIndex_ok hs.sound htable
    obtain ⟨hsound, hgrows⟩ := sound_execAll hs.sound (hknown (List.subset_append_right ..)) hdb
    exact ⟨db, hdb, hm, hsound, fun _ => hgrows.tables htable, fun _ => hfull⟩

theorem inv_step (hdigit : ReadsNumbers digit) (hs : Inv pg s) (h : step pg digit s a = some t) :
    Inv pg t ∧ (fullIndex ∈ s.db.indexes → fullIndex ∈ t.db.indexes) := by
  cases a with
  | migrate b =>
      obtain ⟨m, hm, hdb⟩ := Option.bind_eq_some_iff.mp h
      have hinv := migrate_inv_step hdigit hs.migrate hm
      obtain ⟨db, hok, hnext⟩ := committed_ok hs hinv hm
      rw [hok] at hdb
      obtain rfl := Option.some.inj hdb
      refine ⟨hnext, fun hfull => ?_⟩
      have hknown : ∀ statement ∈ committed s.migrate m, Known statement := by
        rcases committed_cases hs.migrate hinv hm with ⟨hnone, -⟩ | ⟨hfirst, -⟩ | ⟨hsecond, -⟩
        · rw [hnone]
          exact fun _ hmem => absurd hmem List.not_mem_nil
        · rw [hfirst]
          exact fun statement hmem => known_of_mem statement (List.mem_append_left _ hmem)
        · rw [hsecond]
          exact fun statement hmem => known_of_mem statement (List.mem_append_right _ hmem)
      exact (sound_execAll hs.sound hknown hok).2.full hfull
  | psql statements =>
      simp only [step] at h
      split_ifs at h with hsub
      obtain rfl := Option.some.inj h
      obtain ⟨hsound, hgrows⟩ := psql_kept hs.sound hsub
      exact ⟨⟨hs.migrate, hsound, fun hmem => hgrows.tables (hs.first hmem), fun hmem => hgrows.full (hs.second hmem)⟩,
        hgrows.full⟩
  | insert receivedAt trades =>
      obtain rfl := Option.some.inj h
      obtain ⟨hsound, htables, hindexes⟩ := insert_kept hs.sound receivedAt trades
      refine ⟨⟨hs.migrate, hsound, fun hmem => ?_, fun hmem => ?_⟩, fun hfull => ?_⟩
      · exact htables ▸ hs.first hmem
      · exact hindexes ▸ hs.second hmem
      · exact hindexes ▸ hfull

theorem inv_run (hdigit : ReadsNumbers digit) {as : List (Action T)}
    (h : Runs.run (step pg digit) init as = some s) : Inv pg s :=
  Runs.invariant (fun _ _ _ hs hstep => (inv_step hdigit hs hstep).1) inv_init h

/-- **The insert and its index.** An insert is refused until the full index is there; from then on it is
accepted in every state to come, and is what the consumers take it for. The index is there once a runner has
committed the second file; the trades never stand in the way of a statement, nor the database in that of a
runner. -/
theorem inserts_behind_migrations (hdigit : ReadsNumbers digit) {as : List (Action T)}
    (h : Runs.run (step pg digit) init as = some s) :
    KeyedTable.KeyUnique (RawTrade.tradeId pg) (s.db.rows RAW_TRADES) ∧
      (fullIndex ∉ s.db.indexes → s.db.rows RAW_TRADES = [] ∧ ∀ receivedAt trades,
        insert pg s.db receivedAt trades = .error .undefinedTable ∨
          insert pg s.db receivedAt trades = .error .invalidColumnReference) ∧
      (fullIndex ∈ s.db.indexes → ∀ (bs : List (Action T)) (t : State T), Runs.run (step pg digit) s bs = some t →
        ∀ receivedAt trades, insert pg t.db receivedAt trades = .ok { t.db with
          rows := Function.update t.db.rows RAW_TRADES
            (insertBatch pg (t.db.rows RAW_TRADES) receivedAt trades) }) ∧
      (TRADE_ID_INDEX ∈ s.migrate.db.executed → fullIndex ∈ s.db.indexes) ∧
      (∀ statement ∈ bronzeSchema ++ tradeIdIndex, exec (columns pg) s.db statement ≠ .error .uniqueViolation) ∧
      ∀ b m, Migrate.step digit MIGRATIONS s.migrate b = some m →
        ∃ t, step pg digit s (.migrate b) = some t ∧ t.migrate = m := by
  have hs := inv_run hdigit h
  refine ⟨hs.sound.unique, fun hfull => ⟨hs.sound.guarded hfull, insert_error hs.sound hfull⟩, ?_, hs.second,
    fun statement hmem => (exec_ne_error hs.sound (known_of_mem statement hmem)).1, fun b m hm => ?_⟩
  · intro hfull bs t hrun
    have ht := Runs.invariant (I := fun t : State T => Inv pg t ∧ fullIndex ∈ t.db.indexes)
      (fun _ _ _ hu hstep => ⟨(inv_step hdigit hu.1 hstep).1, (inv_step hdigit hu.1 hstep).2 hu.2⟩) ⟨hs, hfull⟩ hrun
    exact insert_ok ht.1.sound ht.2
  · obtain ⟨db, hok, -⟩ := committed_ok hs (migrate_inv_step hdigit hs.migrate hm) hm
    refine ⟨⟨m, db⟩, ?_, rfl⟩
    simp only [step, hm, Option.bind_some, hok]
    rfl

/-- One runner goes through both files; a trade is offered before them, between them and twice behind them. -/
def migrateThenInsert (trade : Dict) : List (Action Unit) :=
  [.insert 1 [trade], .migrate (.launch ()), .migrate (.ensureTable ()), .migrate (.readApplied () MIGRATIONS),
    .migrate (.execute ()), .migrate (.record ()), .migrate (.commit ()), .insert 2 [trade], .psql bronzeSchema,
    .migrate (.execute ()), .migrate (.record ()), .migrate (.commit ()), .insert 3 [trade], .insert 4 [trade],
    .psql bronzeSchema]

theorem inserts_behind_migrations_sample : ∃ s,
    Runs.run (step ⟨fun _ => "", fun _ => none, fun _ => none⟩ Migrate.asciiDigit) init
      (migrateThenInsert [("trade_id", .str "1")]) = some s ∧
    (s.db.rows RAW_TRADES).map RawTrade.receivedAt = [3] ∧
    KeyedTable.KeyUnique (RawTrade.tradeId ⟨fun _ => "", fun _ => none, fun _ => none⟩) (s.db.rows RAW_TRADES) := by
  have hdigit : ReadsNumbers Migrate.asciiDigit := ⟨by decide, by decide, by decide, by decide⟩
  have hrun : (Runs.run (step ⟨fun _ => "", fun _ => none, fun _ => none⟩ Migrate.asciiDigit) init
      (migrateThenInsert [("trade_id", .str "1")])).any
        (fun s => (s.db.rows RAW_TRADES).map RawTrade.receivedAt = [3]) = true := by decide +kernel
  obtain ⟨s, hs, hrows⟩ := (Option.any_eq_true _ _).mp hrun
  exact ⟨s, hs, of_decide_eq_true hrows, (inserts_behind_migrations hdigit hs).1⟩

end Runs

end CryptoLakehouse.Schema
