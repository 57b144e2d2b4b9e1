import CryptoLakehouse.LibraryKeyedTable
import Mathlib.Data.List.Basic
import Mathlib.Logic.Function.Basic

/-! Data definition with `IF [NOT] EXISTS`, as Postgres has it: schemas, tables and indexes, of which some are
unique and some partial. A unique index is made only over rows that it admits, and `ON CONFLICT (column)` finds
its index among those that are unique and not partial. -/

namespace Ddl

/-- An index over a column; `predicate` is the text of its `WHERE`. -/
structure Index where
  schema : String
  name : String
  table : String
  unique : Bool
  column : String
  predicate : Option String
  deriving DecidableEq

/-- Every `CREATE` is `IF NOT EXISTS`, every `DROP` is `IF EXISTS`. -/
inductive Statement where
  | createSchema (name : String)
  | createTable (schema name : String)
  | createIndex (index : Index)
  | dropIndex (schema name : String)
  deriving DecidableEq

inductive Error where
  | undefinedSchema
  | undefinedTable
  | wrongObjectType
  | uniqueViolation
  | invalidColumnReference
  deriving DecidableEq

/-- Tables are named by schema and name. -/
structure Database (R : Type*) where
  schemas : List String
  tables : List (String × String)
  indexes : List Index
  rows : String × String → List R

def empty {R : Type*} : Database R := ⟨[], [], [], fun _ => []⟩

variable {R K : Type*} [DecidableEq K]

section Code

/-- The column in a row, and whether a row meets a predicate. -/
structure Columns (R K : Type*) where
  value : String → R → Option K
  holds : String → R → Bool

variable (columns : Columns R K)

/-- What a row has in an index. -/
def Columns.key (index : Index) (row : R) : Option K :=
  match index.predicate with
  | none => columns.value index.column row
  | some predicate => if columns.holds predicate row then columns.value index.column row else none

def Columns.Admits (index : Index) (rows : List R) : Prop :=
  index.unique = true → KeyedTable.KeyUnique (columns.key index) rows

instance (index : Index) (rows : List R) : Decidable (columns.Admits index rows) :=
  inferInstanceAs (Decidable (_ → List.Nodup _))

/-- Tables and indexes share their names. -/
def Database.Relation (db : Database R) (schema name : String) : Prop :=
  (schema, name) ∈ db.tables ∨ ∃ index ∈ db.indexes, index.schema = schema ∧ index.name = name

instance (db : Database R) (schema name : String) : Decidable (db.Relation schema name) :=
  inferInstanceAs (Decidable (_ ∨ _))

def exec (db : Database R) : Statement → Except Error (Database R)
  | .createSchema name => .ok (if name ∈ db.schemas then db else { db with schemas := db.schemas ++ [name] })
  | .createTable schema name =>
      if schema ∉ db.schemas then .error .undefinedSchema
      else if db.Relation schema name then .ok db
      else .ok { db with
        tables := db.tables ++ [(schema, name)]
        rows := Function.update db.rows (schema, name) [] }
  | .createIndex index =>
      if (index.schema, index.table) ∉ db.tables then .error .undefinedTable
      else if db.Relation index.schema index.name then .ok db
      else if columns.Admits index (db.rows (index.schema, index.table)) then
        .ok { db with indexes := db.indexes ++ [index] }
      else .error .uniqueViolation
  | .dropIndex schema name =>
      if (schema, name) ∈ db.tables then .error .wrongObjectType
      else .ok { db with indexes := db.indexes.filter fun index => ¬ (index.schema = schema ∧ index.name = name) }

/-- Statements in one transaction: an error leaves nothing of them. -/
def execAll : Database R → List Statement → Except Error (Database R)
  | db, [] => .ok db
  | db, statement :: statements =>
      match exec columns db statement with
      | .ok db => execAll db statements
      | .error e => .error e

/-- The index that `ON CONFLICT (column)` without a predicate infers. -/
def Index.Infers (index : Index) (table : String × String) (column : String) : Prop :=
  (index.schema, index.table) = table ∧ index.unique = true ∧ index.column = column ∧ index.predicate = none

instance (index : Index) (table : String × String) (column : String) : Decidable (index.Infers table column) :=
  inferInstanceAs (Decidable (_ ∧ _))

/-- `INSERT ... ON CONFLICT (column) DO NOTHING` -/
def insertOnConflict (db : Database R) (table : String × String) (column : String) (rows : List R) :
    Except Error (Database R) :=
  if table ∉ db.tables then .error .undefinedTable
  else if ∃ index ∈ db.indexes, index.Infers table column then
    let inserted := KeyedTable.insertAbsent (columns.value column) (db.rows table) rows
    if ∀ index ∈ db.indexes, (index.schema, index.table) = table → columns.Admits index inserted then
      .ok { db with rows := Function.update db.rows table inserted }
    else .error .uniqueViolation
  else .error .invalidColumnReference

end Code

section Admission

variable {R K : Type*} {columns : Columns R K}

/-- What an index over the whole column admits, one over a part of it admits. -/
theorem admits_of_keyUnique {index : Index} {rows : List R}
    (h : KeyedTable.KeyUnique (columns.value index.column) rows) : columns.Admits index rows := by
  intro _
  cases hpredicate : index.predicate with
  | none =>
      have hkey : columns.key index = columns.value index.column := by
        funext row
        rw [Columns.key, hpredicate]
      rw [hkey]
      exact h
  | some predicate =>
      have hkey : rows.filterMap (columns.key index) =
          (rows.filter (columns.holds predicate)).filterMap (columns.value index.column) := by
        rw [List.filterMap_filter]
        refine List.filterMap_congr fun row _ => ?_
        rw [Columns.key, hpredicate]
      rw [KeyedTable.KeyUnique, hkey]
      exact h.sublist (List.filter_sublist.filterMap _)

end Admission

variable {columns : Columns R K} {db db' : Database R}

theorem execAll_append (statements statements' : List Statement) :
    execAll columns db (statements ++ statements') =
      (execAll columns db statements).bind fun db => execAll columns db statements' := by
  induction statements generalizing db with
  | nil => rfl
  | cons statement statements ih =>
      rw [List.cons_append, execAll, execAll]
      cases exec columns db statement with
      | error e => rfl
      | ok next => exact ih

/-- What each statement keeps, a transaction keeps. -/
theorem execAll_invariant {I : Database R → Prop} {statements : List Statement}
    (hkeep : ∀ statement ∈ statements, ∀ db db', I db → exec columns db statement = .ok db' → I db')
    (hdb : I db) (h : execAll columns db statements = .ok db') : I db' := by
  induction statements generalizing db with
  | nil =>
      cases h
      exact hdb
  | cons statement statements ih =>
      rw [execAll] at h
      cases hexec : exec columns db statement with
      | error e =>
          rw [hexec] at h
          cases h
      | ok next =>
          rw [hexec] at h
          exact ih (fun st hst => hkeep st (List.mem_cons_of_mem _ hst))
            (hkeep statement List.mem_cons_self db next hdb hexec) h

/-- Where the unique indexes of a table are all over the column, an insert that finds an index succeeds. -/
theorem insertOnConflict_eq {table : String × String} {column : String} {rows : List R}
    (htable : table ∈ db.tables) (hinfers : ∃ index ∈ db.indexes, index.Infers table column)
    (hcolumn : ∀ index ∈ db.indexes, (index.schema, index.table) = table → index.unique = true →
      index.column = column)
    (hunique : KeyedTable.KeyUnique (columns.value column) (db.rows table)) :
    insertOnConflict columns db table column rows = .ok { db with
      rows := Function.update db.rows table
        (KeyedTable.insertAbsent (columns.value column) (db.rows table) rows) } := by
  rw [insertOnConflict, if_neg (not_not.mpr htable), if_pos hinfers]
  apply if_pos
  intro index hindex hat hindexUnique
  apply admits_of_keyUnique _ hindexUnique
  rw [hcolumn index hindex hat hindexUnique]
  exact KeyedTable.keyUnique_insertAbsent _ _ hunique

end Ddl
