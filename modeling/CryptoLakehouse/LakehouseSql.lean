import CryptoLakehouse.LakehouseCatalog
import CryptoLakehouse.LakehouseFullExport
import CryptoLakehouse.LibrarySql
import CryptoLakehouse.ProducerSchemas

/-! The SQL of `full_export` and `incremental_export` (`lakehouse/exporter.py`). Three values are put between
quotes without an escape: the connection string, the name of the table and the high-water mark. Only the name
is looked at first. -/

namespace CryptoLakehouse.ExportSql

open Sql

section Isoformat

/-- The last `width` decimal digits. -/
def digits : Nat → Nat → List Char
  | 0, _ => []
  | width + 1, n => digits width (n / 10) ++ [Nat.digitChar (n % 10)]

def microseconds (us : Nat) : List Char := if us = 0 then [] else '.' :: digits 6 us

def hoursMinutes (us : Nat) : List Char :=
  digits 2 (us / 3600000000) ++ ':' :: digits 2 (us / 60000000 % 60)

def seconds (us : Nat) : List Char := ':' :: digits 2 (us / 1000000 % 60) ++ microseconds (us % 1000000)

def offsetText (offset : Int) : List Char :=
  (if offset < 0 then '-' else '+') :: hoursMinutes offset.natAbs ++
    if offset.natAbs % 60000000 = 0 then [] else seconds offset.natAbs

/-- `datetime.isoformat` -/
def isoformat (t : Datetime) : String :=
  let (year, month, day) := Catalog.civilFromDays (t.wall / 86400000000)
  let us := (t.wall % 86400000000).toNat
  String.ofList (digits 4 year.toNat ++ '-' :: digits 2 month.toNat ++ '-' :: digits 2 day.toNat ++
    'T' :: hoursMinutes us ++ seconds us ++ (t.utcoffset.map offsetText).getD [])

example : isoformat ⟨1776956400000000, some 0⟩ = "2026-04-23T15:00:00+00:00" := by decide +kernel

end Isoformat

structure ValueError where
  message : String

/-- What reaches the file system and DuckDB. -/
inductive Call where
  | rmtree (path : List String)
  | execute (sql : String)

/-- The calls of one export up to the query, in order; a call that raises is the last one. -/
structure Exported where
  calls : List Call
  raised : Option ValueError

structure GoldExporter where
  pgConnStr : String
  outputPath : List String

def validateTableName (table : String) : Option ValueError :=
  if Export.safeTableName table then none
  else some ⟨"Invalid table name: '" ++ table ++
    "'. Only alphanumeric characters and underscores are allowed."⟩

/-- `_export` up to `fetchdf` -/
def exportCalls (sql : String) : List Call :=
  [.execute "INSTALL postgres_scanner;", .execute "LOAD postgres_scanner;", .execute sql]

def fullSql (pgConnStr table : String) : String :=
  "SELECT * FROM postgres_scan('" ++ pgConnStr ++ "', 'gold', '" ++ table ++ "')"

def incrementalSql (pgConnStr table hwmStr : String) : String :=
  "\n            SELECT *\n            FROM postgres_scan('" ++ pgConnStr ++ "', 'gold', '" ++ table ++
    "')\n            WHERE window_start > '" ++ hwmStr ++ "'::timestamptz\n        "

namespace GoldExporter

variable (self : GoldExporter) (table : String)

/-- `tableExists` is what `table_path.exists()` says. -/
def fullExport (tableExists : Bool) : Exported :=
  match validateTableName table with
  | some error => ⟨[], some error⟩
  | none =>
      ⟨(if tableExists then [.rmtree (self.outputPath ++ ["gold", table])] else []) ++
        exportCalls (fullSql self.pgConnStr table), none⟩

def incrementalExport (highWaterMark : Datetime) : Exported :=
  match validateTableName table with
  | some error => ⟨[], some error⟩
  | none => ⟨exportCalls (incrementalSql self.pgConnStr table (isoformat highWaterMark)), none⟩

end GoldExporter

/-- `[A-Za-z_][A-Za-z0-9_]*` over the whole length. -/
def WholeName (table : String) : Prop :=
  ∃ first rest, table.toList = first :: rest ∧ (first.isAlpha ∨ first = '_') ∧
    ∀ c ∈ rest, c.isAlphanum ∨ c = '_'

/-- `SELECT * FROM postgres_scan('…', 'gold', '…')` with these two values. -/
def scanTokens (pgConnStr table : String) : List Token :=
  [.word "SELECT".toList, .symbol '*', .word "FROM".toList, .word "postgres_scan".toList, .symbol '(',
    .literal pgConnStr.toList, .symbol ',', .literal "gold".toList, .symbol ',', .literal table.toList,
    .symbol ')']

/-- A text of one statement with one `SELECT`, whose scan reads the values back. -/
def ScansValues (pgConnStr table sql : String) : Prop :=
  ∃ rest, tokens sql.toList = some (scanTokens pgConnStr table ++ rest) ∧ .symbol ';' ∉ rest ∧
    ∀ text, .word text ∈ rest → text.map Char.toUpper ≠ "SELECT".toList

def Call.sql? : Call → Option String
  | .rmtree _ => none
  | .execute sql => some sql

/-- The export stops before it does anything, or the table is a name and the query is the scan of it. -/
def InjectionFree (pgConnStr table : String) (e : Exported) : Prop :=
  (e.calls = [] ∧ e.raised.isSome) ∨
    WholeName table ∧ ∃ sql, e.calls.filterMap Call.sql? =
      ["INSTALL postgres_scanner;", "LOAD postgres_scanner;", sql] ∧ ScansValues pgConnStr table sql

section Quotes

theorem not_mem_digits (width n : Nat) : '\'' ∉ digits width n := by
  induction width generalizing n with
  | zero => exact List.not_mem_nil
  | succ width ih =>
      have hdigit : '\'' ≠ Nat.digitChar (n % 10) := by
        have hlt : n % 10 < 10 := Nat.mod_lt _ (by decide)
        generalize n % 10 = d at hlt
        have hall : ∀ d < 10, '\'' ≠ Nat.digitChar d := by decide
        exact hall d hlt
      rw [digits, List.mem_append, List.mem_singleton]
      exact not_or.mpr ⟨ih _, hdigit⟩

theorem not_mem_seconds (us : Nat) : '\'' ∉ seconds us := by
  rw [seconds, microseconds]
  split_ifs <;> simp [not_mem_digits]

theorem not_mem_offsetText (offset : Int) : '\'' ∉ offsetText offset := by
  rw [offsetText, hoursMinutes]
  split_ifs <;> simp [not_mem_digits, not_mem_seconds]

theorem not_mem_isoformat (t : Datetime) : '\'' ∉ (isoformat t).toList := by
  have hoffset : '\'' ∉ (t.utcoffset.map offsetText).getD [] := by
    cases t.utcoffset with
    | none => exact List.not_mem_nil
    | some offset => exact not_mem_offsetText offset
  simp [isoformat, hoursMinutes, not_mem_digits, not_mem_seconds, hoffset]

end Quotes

section Table

variable {table : String}

theorem WholeName.not_mem (h : WholeName table) {c : Char} (hc : ¬ (c.isAlphanum ∨ c = '_')) :
    c ∉ table.toList := by
  obtain ⟨first, rest, hchars, hfirst, hrest⟩ := h
  rw [hchars, List.mem_cons]
  rintro (rfl | hmem)
  · obtain halpha | hunderscore := hfirst
    · exact hc (.inl (by rw [Char.isAlphanum, halpha, Bool.true_or]))
    · exact hc (.inr hunderscore)
  · exact hc (hrest c hmem)

/-- The dollar sign of the pattern lets a line break at the end through. -/
theorem wholeName_iff : WholeName table ↔
    Export.safeTableName table = true ∧ table.toList.getLast? ≠ some '\n' := by
  constructor
  · intro h
    have hlast : table.toList.getLast? ≠ some '\n' := fun hlast =>
      h.not_mem (by decide) (List.mem_of_getLast? hlast)
    obtain ⟨first, rest, hchars, hfirst, hrest⟩ := h
    refine ⟨?_, hlast⟩
    rw [Export.safeTableName, if_neg hlast, hchars]
    simpa using ⟨hfirst, hrest⟩
  · intro ⟨hsafe, hlast⟩
    rw [Export.safeTableName, if_neg hlast] at hsafe
    cases hchars : table.toList with
    | nil => simp [hchars] at hsafe
    | cons first rest =>
        refine ⟨first, rest, hchars, ?_⟩
        simpa [hchars] using hsafe

end Table

section Scan

variable {pgConnStr table sql : String}

/-- What is read in front of the connection string. -/
def scanHead : List Token :=
  [.word "SELECT".toList, .symbol '*', .word "FROM".toList, .word "postgres_scan".toList, .symbol '(']

theorem feed_fullHead : feed .blank "SELECT * FROM postgres_scan('".toList = (scanHead, .literal []) := by
  decide +kernel

theorem feed_incrementalHead :
    feed .blank "\n            SELECT *\n            FROM postgres_scan('".toList = (scanHead, .literal []) := by
  decide +kernel

variable {before : List Char}

/-- Without a quote in the connection string and the name both are read back. -/
theorem feed_scan (hbefore : feed .blank before = (scanHead, .literal [])) (hconn : '\'' ∉ pgConnStr.toList)
    (htable : '\'' ∉ table.toList) (after : List Char) :
    feed .blank (before ++ pgConnStr.toList ++ "', 'gold', '".toList ++ table.toList ++ '\'' :: ')' :: after) =
      (scanTokens pgConnStr table ++ (feed .blank after).1, (feed .blank after).2) := by
  have hbetween : ∀ value, feed (.literal value) "', 'gold', '".toList =
      ([.literal value, .symbol ',', .literal "gold".toList, .symbol ','], .literal []) := fun value => rfl
  have hends : ∀ value, feed (.literal value) ('\'' :: ')' :: after) =
      (.literal value :: .symbol ')' :: (feed .blank after).1, (feed .blank after).2) := fun value => rfl
  rw [List.append_assoc, List.append_assoc, List.append_assoc, feed_append_of hbefore,
    feed_append_of (feed_of_not_mem [] hconn), feed_append_of (hbetween _),
    feed_append_of (feed_of_not_mem [] htable), hends]
  rfl

/-- With a quote in the connection string another one is read. -/
theorem not_scan (hbefore : feed .blank before = (scanHead, .literal [])) (hconn : '\'' ∈ pgConnStr.toList)
    (after : List Char) (rest : List Token) :
    tokens (before ++ pgConnStr.toList ++ "', 'gold', '".toList ++ after) ≠
      some (scanTokens pgConnStr table ++ rest) := by
  intro htokens
  obtain ⟨read, hne, hhead⟩ := head_feed_ne (c := 'g') hconn (by decide) (by decide) ("old', '".toList ++ after)
  obtain ⟨out, hout⟩ := List.head?_eq_some_iff.mp hhead
  have htext : before ++ pgConnStr.toList ++ "', 'gold', '".toList ++ after = before ++ (pgConnStr.toList ++
      '\'' :: ',' :: ' ' :: '\'' :: 'g' :: ("old', '".toList ++ after)) := by
    rw [List.append_assoc, List.append_assoc]
    rfl
  rw [htext, tokens, feed_append_of hbefore, hout] at htokens
  obtain ⟨last, -, hlist⟩ := Option.map_eq_some_iff.mp htokens
  have hsplit : scanTokens pgConnStr table ++ rest = scanHead ++ (.literal pgConnStr.toList :: .symbol ',' ::
      .literal "gold".toList :: .symbol ',' :: .literal table.toList :: .symbol ')' :: rest) := rfl
  rw [hsplit, List.append_assoc] at hlist
  obtain ⟨hliteral, -⟩ := List.cons.inj (List.append_cancel_left hlist)
  exact hne (Token.literal.inj hliteral)

theorem toList_scanEnd : "')".toList = ['\'', ')'] := rfl

theorem toList_fullSql : (fullSql pgConnStr table).toList = "SELECT * FROM postgres_scan('".toList ++
    pgConnStr.toList ++ "', 'gold', '".toList ++ table.toList ++ ['\'', ')'] := by
  unfold fullSql
  rw [String.toList_append, String.toList_append, String.toList_append, String.toList_append,
    toList_scanEnd]

theorem scansValues_full_iff (htable : '\'' ∉ table.toList) :
    ScansValues pgConnStr table (fullSql pgConnStr table) ↔ '\'' ∉ pgConnStr.toList := by
  rw [ScansValues, toList_fullSql]
  constructor
  · intro ⟨rest, htokens, _⟩ hquote
    rw [List.append_assoc _ table.toList] at htokens
    exact not_scan feed_fullHead hquote _ rest htokens
  · intro hconn
    refine ⟨[], ?_, List.not_mem_nil, fun text hmem => absurd hmem List.not_mem_nil⟩
    rw [tokens, feed_scan feed_fullHead hconn htable]
    rfl

def whereText : List Char := "\n            WHERE window_start > '".toList

theorem toList_incrementalEnd : "')\n            WHERE window_start > '".toList = '\'' :: ')' :: whereText := by
  decide +kernel

theorem toList_incrementalSql {hwmStr : String} : (incrementalSql pgConnStr table hwmStr).toList =
    "\n            SELECT *\n            FROM postgres_scan('".toList ++ pgConnStr.toList ++
      "', 'gold', '".toList ++ table.toList ++
        '\'' :: ')' :: (whereText ++ (hwmStr.toList ++ "'::timestamptz\n        ".toList)) := by
  unfold incrementalSql
  rw [String.toList_append, String.toList_append, String.toList_append, String.toList_append,
    String.toList_append, String.toList_append, toList_incrementalEnd, List.append_assoc, List.append_assoc]
  rfl

theorem scansValues_incremental_iff (htable : '\'' ∉ table.toList) {hwmStr : String}
    (hhwm : '\'' ∉ hwmStr.toList) :
    ScansValues pgConnStr table (incrementalSql pgConnStr table hwmStr) ↔ '\'' ∉ pgConnStr.toList := by
  rw [ScansValues, toList_incrementalSql]
  constructor
  · intro ⟨rest, htokens, _⟩ hquote
    rw [List.append_assoc _ table.toList] at htokens
    exact not_scan feed_incrementalHead hquote _ rest htokens
  · intro hconn
    have hwhere : feed .blank whereText =
        ([.word "WHERE".toList, .word "window_start".toList, .symbol '>'], .literal []) := by
      decide +kernel
    have hcast : ∀ value, feed (.literal value) "'::timestamptz\n        ".toList =
        ([.literal value, .symbol ':', .symbol ':', .word "timestamptz".toList], .blank) := fun value => rfl
    refine ⟨[.word "WHERE".toList, .word "window_start".toList, .symbol '>', .literal hwmStr.toList,
      .symbol ':', .symbol ':', .word "timestamptz".toList], ?_, ?_, ?_⟩
    · rw [tokens, feed_scan feed_incrementalHead hconn htable, feed_append_of hwhere,
        feed_append_of (feed_of_not_mem [] hhwm), hcast]
      rfl
    · simp
    · intro text hmem
      simp only [List.mem_cons, Token.word.injEq, List.not_mem_nil, or_false, reduceCtorEq, false_or] at hmem
      obtain rfl | rfl | rfl := hmem <;> decide

end Scan

/-- The table is rejected, or nothing that is put between quotes has a quote and nothing follows the name. -/
def Harmless (pgConnStr table : String) : Prop :=
  Export.safeTableName table = false ∨
    (table.toList.getLast? ≠ some '\n' ∧ '\'' ∉ pgConnStr.toList)

section Export

variable {pgConnStr table sql : String} {e : Exported}

theorem injectionFree_of_rejected (hrejected : Export.safeTableName table = false) (hcalls : e.calls = [])
    (hraised : e.raised.isSome) : InjectionFree pgConnStr table e ↔ Harmless pgConnStr table :=
  ⟨fun _ => .inl hrejected, fun _ => .inl ⟨hcalls, hraised⟩⟩

theorem injectionFree_of_query (hsafe : Export.safeTableName table = true) (hraised : e.raised = none)
    (hcalls : e.calls.filterMap Call.sql? = ["INSTALL postgres_scanner;", "LOAD postgres_scanner;", sql])
    (hscan : '\'' ∉ table.toList → (ScansValues pgConnStr table sql ↔ '\'' ∉ pgConnStr.toList)) :
    InjectionFree pgConnStr table e ↔ Harmless pgConnStr table := by
  have hquiet : ∀ h : WholeName table, '\'' ∉ table.toList := fun h => h.not_mem (by decide)
  constructor
  · rintro (⟨-, hsome⟩ | ⟨hname, sql', hcalls', hvalues⟩)
    · rw [hraised] at hsome
      exact absurd hsome (by decide)
    · obtain rfl : sql = sql' := by
        rw [hcalls] at hcalls'
        simpa using hcalls'
      exact .inr ⟨(wholeName_iff.mp hname).2, (hscan (hquiet hname)).mp hvalues⟩
  · rintro (hrejected | ⟨hlast, hconn⟩)
    · rw [hsafe] at hrejected
      exact absurd hrejected (by decide)
    · have hname : WholeName table := wholeName_iff.mpr ⟨hsafe, hlast⟩
      exact .inr ⟨hname, sql, hcalls, (hscan (hquiet hname)).mpr hconn⟩

variable (self : GoldExporter) (table)

theorem injectionFree_fullExport (tableExists : Bool) :
    InjectionFree self.pgConnStr table (self.fullExport table tableExists) ↔ Harmless self.pgConnStr table := by
  rw [GoldExporter.fullExport, validateTableName]
  cases hsafe : Export.safeTableName table with
  | false => exact injectionFree_of_rejected hsafe rfl rfl
  | true =>
      have hcalls : ((if tableExists then [Call.rmtree (self.outputPath ++ ["gold", table])] else []) ++
          exportCalls (fullSql self.pgConnStr table)).filterMap Call.sql? =
            ["INSTALL postgres_scanner;", "LOAD postgres_scanner;", fullSql self.pgConnStr table] := by
        cases tableExists <;> rfl
      exact injectionFree_of_query hsafe rfl hcalls scansValues_full_iff

theorem injectionFree_incrementalExport (highWaterMark : Datetime) :
    InjectionFree self.pgConnStr table (self.incrementalExport table highWaterMark) ↔
      Harmless self.pgConnStr table := by
  rw [GoldExporter.incrementalExport, validateTableName]
  cases hsafe : Export.safeTableName table with
  | false => exact injectionFree_of_rejected hsafe rfl rfl
  | true =>
      exact injectionFree_of_query hsafe rfl rfl fun htable =>
        scansValues_incremental_iff htable (not_mem_isoformat highWaterMark)

end Export

/-- The exports are free of injections exactly for the harmless values, whatever the high-water mark and
whether the directory of the table exists. -/
theorem injectionFree_iff (self : GoldExporter) (table : String) (tableExists : Bool)
    (highWaterMark : Datetime) :
    (InjectionFree self.pgConnStr table (self.fullExport table tableExists) ↔ Harmless self.pgConnStr table) ∧
      (InjectionFree self.pgConnStr table (self.incrementalExport table highWaterMark) ↔
        Harmless self.pgConnStr table) :=
  ⟨injectionFree_fullExport table self tableExists, injectionFree_incrementalExport table self highWaterMark⟩

/-- A connection string with a quoted password, as `psycopg2.connect` takes it. -/
def quotedPassword : GoldExporter := ⟨"host=db dbname=lakehouse user=app password='two words'", ["data"]⟩

def plainPassword : GoldExporter := ⟨"postgresql://app:secret@db/lakehouse", ["data"]⟩

theorem quote_or_newline_breaks_scan :
    ¬ InjectionFree quotedPassword.pgConnStr "gold_vwap_1min"
        (quotedPassword.fullExport "gold_vwap_1min" false) ∧
      ¬ InjectionFree plainPassword.pgConnStr "gold_vwap_1min\n"
        (plainPassword.fullExport "gold_vwap_1min\n" false) := by
  rw [injectionFree_fullExport, injectionFree_fullExport, Harmless, Harmless]
  decide +kernel

end CryptoLakehouse.ExportSql
