import CryptoLakehouse.LakehouseExport
import Mathlib.Data.List.Induction

/-! Which files the writer writes and the readers read. Each function builds its directory from a base
path of its own: `GoldExporter._export` and `_count_exported_rows` below `gold/`, `_upload_new_files` and
`init_catalog` not. A path is its list of directories and a file name. -/

namespace CryptoLakehouse.Catalog

open Export (PartFile)

variable {R : Type}

structure File (R : Type) where
  dir : List String
  name : String
  rows : List R

def GOLD_TABLES : List String := ["gold_vwap_1min", "gold_trade_stats_1min"]

def PARQUET_BASE : List String := ["data"]

/-- Year, month and day of a number of days since 1970-01-01, in the proleptic Gregorian calendar. -/
def civilFromDays (day : Int) : Int × Int × Int :=
  let z := day + 719468
  let era := z / 146097
  let doe := z % 146097
  let yoe := (doe - doe / 1460 + doe / 36524 - doe / 146096) / 365
  let doy := doe - (365 * yoe + yoe / 4 - yoe / 100)
  let mp := (5 * doy + 2) / 153
  let month := if mp < 10 then mp + 3 else mp - 9
  let year := yoe + era * 400 + if month ≤ 2 then 1 else 0
  (year, month, doy - (153 * mp + 2) / 5 + 1)

/-- `strftime` with `%m` or `%d` -/
def twoDigits (n : Int) : String := if n < 10 then "0" ++ toString n else toString n

def partitionDir (day : Int) : List String :=
  let (year, month, dayOfMonth) := civilFromDays day
  ["year=" ++ toString year, "month=" ++ twoDigits month, "day=" ++ twoDigits dayOfMonth]

example : partitionDir 20566 = ["year=2026", "month=04", "day=23"] := by decide

def PLACEHOLDER : String := ".placeholder.parquet"

/-- A part file where `GoldExporter(output_path)._export(table, ...)` writes it. -/
def partFile (outputPath : List String) (table : String) (part : PartFile R) : File R :=
  ⟨outputPath ++ ["gold", table] ++ partitionDir part.day, "part-" ++ toString part.uuid ++ ".parquet",
    part.rows⟩

/-- The files that match `{dir}/**/*.parquet`, or `Path(dir).rglob("*.parquet")`. -/
def glob (dir : List String) (files : List (File R)) : List (File R) :=
  files.filter fun file => dir <+: file.dir ∧ ".parquet".toList <:+ file.name.toList

/-- The rows that `_count_exported_rows` counts. -/
def countedFiles (parquetBase : List String) (table : String) (files : List (File R)) : List (File R) :=
  glob (parquetBase ++ ["gold", table]) files

def countExportedRows (parquetBase : List String) (table : String) (files : List (File R)) : Nat :=
  ((countedFiles parquetBase table files).map fun file => file.rows.length).sum

/-- The files that `_upload_new_files` hands to the uploader. -/
def uploadedFiles (parquetBase : List String) (table : String) (files : List (File R)) : List (File R) :=
  (glob (parquetBase ++ [table]) files).filter fun file => file.name ≠ PLACEHOLDER

/-- The files behind the view that `init_catalog` creates for the table. -/
def viewFiles (parquetBase : List String) (table : String) (files : List (File R)) : List (File R) :=
  glob (parquetBase ++ [table]) files

/-- `_write_placeholder` -/
def writePlaceholder (dir : List String) (files : List (File R)) : List (File R) :=
  if files.any fun file => file.dir = dir ∧ file.name = PLACEHOLDER then files
  else files ++ [⟨dir, PLACEHOLDER, []⟩]

/-- What `init_catalog` does to the files. -/
def initCatalog (parquetBase : List String) (files : List (File R)) : List (File R) :=
  GOLD_TABLES.foldl (fun files table => writePlaceholder (parquetBase ++ [table]) files) files

/-- What one call of `export_table` does to the files of its table: a full export deletes the directory
first; then the part files are written. -/
structure TableExport (R : Type) where
  full : Bool
  parts : List (PartFile R)

def exportTable (outputPath : List String) (table : String) (e : TableExport R)
    (files : List (File R)) : List (File R) :=
  (if e.full then files.filter fun file => ¬ outputPath ++ ["gold", table] <+: file.dir else files) ++
    e.parts.map (partFile outputPath table)

/-- What `run_export` does to the files. -/
def runExport (exports : String → TableExport R) (files : List (File R)) : List (File R) :=
  initCatalog PARQUET_BASE
    (GOLD_TABLES.foldl (fun files table => exportTable PARQUET_BASE table (exports table) files) files)

/-- The files after a number of calls of `run_export`, from an empty disk. -/
def lakehouse (runs : List (String → TableExport R)) : List (File R) :=
  runs.foldl (fun files exports => runExport exports files) []

/-- The part files of a table that the exporter wrote and did not delete again. -/
def writtenParts (runs : List (String → TableExport R)) (table : String) : List (PartFile R) :=
  runs.foldl (fun parts exports => (if (exports table).full then [] else parts) ++ (exports table).parts) []

theorem lakehouse_snoc (runs : List (String → TableExport R)) (exports : String → TableExport R) :
    lakehouse (runs ++ [exports]) = runExport exports (lakehouse runs) := by
  rw [lakehouse, List.foldl_append]
  rfl

theorem writtenParts_snoc (runs : List (String → TableExport R)) (exports : String → TableExport R)
    (table : String) : writtenParts (runs ++ [exports]) table =
      (if (exports table).full then [] else writtenParts runs table) ++ (exports table).parts := by
  rw [writtenParts, List.foldl_append]
  rfl

/-- Each of the three readers sees the files written for the table, the placeholder aside. -/
structure ReadersAgree (table : String) (parts : List (PartFile R)) (files : List (File R)) : Prop where
  view : (viewFiles PARQUET_BASE table files).filter (fun file => file.name ≠ PLACEHOLDER) =
    parts.map (partFile PARQUET_BASE table)
  counted : countedFiles PARQUET_BASE table files = parts.map (partFile PARQUET_BASE table)
  uploaded : uploadedFiles PARQUET_BASE table files = parts.map (partFile PARQUET_BASE table)

section Readers

variable {base : List String} {table table' : String} {files : List (File R)}

theorem partFile_name_suffix (part : PartFile R) :
    ".parquet".toList <:+ (partFile base table part).name.toList := by
  rw [partFile, String.toList_append]
  exact List.suffix_append _ _

theorem gold_prefix_iff {rest : List String} :
    base ++ ["gold", table] <+: base ++ ["gold", table'] ++ rest ↔ table = table' := by
  rw [List.append_assoc, List.prefix_append_right_inj]
  simp

theorem glob_append (dir : List String) (files files' : List (File R)) :
    glob dir (files ++ files') = glob dir files ++ glob dir files' := List.filter_append _ _

theorem countedFiles_parts (parts : List (PartFile R)) :
    countedFiles base table (parts.map (partFile base table')) =
      if table = table' then parts.map (partFile base table') else [] := by
  split_ifs with htable
  · refine List.filter_eq_self.mpr fun file hfile => ?_
    obtain ⟨part, -, rfl⟩ := List.mem_map.mp hfile
    exact decide_eq_true ⟨gold_prefix_iff.mpr htable, partFile_name_suffix part⟩
  · refine List.filter_eq_nil_iff.mpr fun file hfile => ?_
    obtain ⟨part, -, rfl⟩ := List.mem_map.mp hfile
    rw [decide_eq_true_eq]
    exact fun h => htable (gold_prefix_iff.mp h.1)

theorem not_both_prefix (htable : table ≠ table') {dir : List String}
    (h : base ++ ["gold", table] <+: dir) : ¬ base ++ ["gold", table'] <+: dir := by
  intro h'
  have heq := (List.prefix_of_prefix_length_le h h' (by simp)).eq_of_length (by simp)
  simp [htable] at heq

/-- An export touches the files of its own table only. -/
theorem countedFiles_exportTable (e : TableExport R) :
    countedFiles base table (exportTable base table' e files) =
      if table = table' then
        (if e.full then [] else countedFiles base table files) ++ e.parts.map (partFile base table')
      else countedFiles base table files := by
  rw [exportTable, countedFiles, glob_append, ← countedFiles, ← countedFiles, countedFiles_parts]
  have hdelete : countedFiles base table
      (files.filter fun file => ¬ base ++ ["gold", table'] <+: file.dir) =
        if table = table' then [] else countedFiles base table files := by
    rw [countedFiles, glob, List.filter_filter]
    split_ifs with htable
    · refine List.filter_eq_nil_iff.mpr fun file _ => ?_
      subst htable
      simp only [Bool.and_eq_true, decide_eq_true_eq]
      exact fun h => h.2 h.1.1
    · refine List.filter_congr fun file _ => ?_
      rw [← Bool.decide_and, decide_eq_decide]
      exact and_iff_left_of_imp fun h => not_both_prefix htable h.1
  split_ifs with hfull htable htable
  · rw [hdelete, if_pos htable]
  · rw [hdelete, if_neg htable, List.append_nil]
  · rfl
  · rw [List.append_nil]

theorem countedFiles_writePlaceholder {dir : List String} (h : ¬ base ++ ["gold", table] <+: dir) :
    countedFiles base table (writePlaceholder dir files) = countedFiles base table files := by
  rw [writePlaceholder]
  split_ifs
  · rfl
  · rw [countedFiles, glob_append, ← countedFiles]
    have hnone : glob (base ++ ["gold", table]) [⟨dir, PLACEHOLDER, ([] : List R)⟩] = [] := by
      refine List.filter_eq_nil_iff.mpr fun file hfile => ?_
      rw [List.mem_singleton.mp hfile, decide_eq_true_eq]
      exact fun hread => h hread.1
    rw [hnone, List.append_nil]

theorem countedFiles_runExport (exports : String → TableExport R) (htable : table ∈ GOLD_TABLES) :
    countedFiles PARQUET_BASE table (runExport exports files) =
      (if (exports table).full then [] else countedFiles PARQUET_BASE table files) ++
        (exports table).parts.map (partFile PARQUET_BASE table) := by
  have hdir : ∀ t ∈ GOLD_TABLES, ¬ PARQUET_BASE ++ ["gold", table] <+: PARQUET_BASE ++ [t] := by
    intro t _ h
    have hlength := h.length_le
    simp at hlength
  simp only [runExport, initCatalog, GOLD_TABLES, List.foldl_cons, List.foldl_nil]
  rw [countedFiles_writePlaceholder (hdir _ (by decide)), countedFiles_writePlaceholder (hdir _ (by decide)),
    countedFiles_exportTable, countedFiles_exportTable]
  rw [GOLD_TABLES, List.mem_cons, List.mem_singleton] at htable
  rcases htable with rfl | rfl <;> simp

/-- The exporter's files are read by the row count. -/
theorem countedFiles_lakehouse (runs : List (String → TableExport R)) (htable : table ∈ GOLD_TABLES) :
    countedFiles PARQUET_BASE table (lakehouse runs) =
      (writtenParts runs table).map (partFile PARQUET_BASE table) := by
  induction runs using List.reverseRecOn with
  | nil => rfl
  | append_singleton runs exports ih =>
      rw [lakehouse_snoc, countedFiles_runExport exports htable, writtenParts_snoc, List.map_append, ih]
      split_ifs <;> simp

/-- What is not an empty placeholder lies below `gold/`. -/
def GoldOnly (files : List (File R)) : Prop :=
  ∀ file ∈ files, (file.name = PLACEHOLDER ∧ file.rows = []) ∨ PARQUET_BASE ++ ["gold"] <+: file.dir

theorem GoldOnly.exportTable (h : GoldOnly files) (e : TableExport R) :
    GoldOnly (exportTable PARQUET_BASE table e files) := by
  intro file hfile
  rcases List.mem_append.mp hfile with hold | hnew
  · split_ifs at hold
    · exact h file (List.mem_of_mem_filter hold)
    · exact h file hold
  · obtain ⟨part, -, rfl⟩ := List.mem_map.mp hnew
    rw [partFile, List.append_assoc, List.prefix_append_right_inj]
    simp

theorem GoldOnly.writePlaceholder (h : GoldOnly files) (dir : List String) :
    GoldOnly (writePlaceholder dir files) := by
  rw [Catalog.writePlaceholder]
  split_ifs
  · exact h
  · intro file hfile
    rcases List.mem_append.mp hfile with hold | hnew
    · exact h file hold
    · rw [List.mem_singleton.mp hnew]
      exact .inl ⟨rfl, rfl⟩

theorem goldOnly_lakehouse (runs : List (String → TableExport R)) : GoldOnly (lakehouse runs) := by
  induction runs using List.reverseRecOn with
  | nil => exact fun file hfile => absurd hfile List.not_mem_nil
  | append_singleton runs exports ih =>
      rw [lakehouse_snoc]
      simp only [runExport, initCatalog, GOLD_TABLES, List.foldl_cons, List.foldl_nil]
      exact (((ih.exportTable _).exportTable _).writePlaceholder _).writePlaceholder _

/-- Outside `gold/` there are placeholders only. -/
theorem placeholder_of_mem_glob (runs : List (String → TableExport R)) (htable : table ∈ GOLD_TABLES)
    {file : File R} (hfile : file ∈ glob (PARQUET_BASE ++ [table]) (lakehouse runs)) :
    file.name = PLACEHOLDER ∧ file.rows = [] := by
  obtain ⟨hmem, hread⟩ := List.mem_filter.mp hfile
  rcases goldOnly_lakehouse runs file hmem with hplaceholder | hgold
  · exact hplaceholder
  · have hdir := (decide_eq_true_eq.mp hread).1
    have heq := (List.prefix_of_prefix_length_le hdir hgold (by simp)).eq_of_length (by simp)
    rw [List.append_cancel_left_eq, List.cons_eq_cons] at heq
    rw [heq.1] at htable
    exact absurd htable (by decide)

theorem uploadedFiles_lakehouse (runs : List (String → TableExport R)) (htable : table ∈ GOLD_TABLES) :
    uploadedFiles PARQUET_BASE table (lakehouse runs) = [] := by
  refine List.filter_eq_nil_iff.mpr fun file hfile => ?_
  rw [decide_eq_true_eq]
  exact fun hname => hname (placeholder_of_mem_glob runs htable hfile).1

theorem viewRows_lakehouse (runs : List (String → TableExport R)) (htable : table ∈ GOLD_TABLES) :
    (viewFiles PARQUET_BASE table (lakehouse runs)).flatMap File.rows = [] :=
  List.flatMap_eq_nil_iff.mpr fun _ hfile => (placeholder_of_mem_glob runs htable hfile).2

end Readers

/-- **The readers agree exactly when there is nothing to read.** After any calls of `run_export` the row
count reads what was written; the uploader visits no file, and the view shows no row. -/
theorem readersAgree_iff_empty (runs : List (String → TableExport R)) (table : String)
    (htable : table ∈ GOLD_TABLES) :
    (ReadersAgree table (writtenParts runs table) (lakehouse runs) ↔ writtenParts runs table = []) ∧
      countedFiles PARQUET_BASE table (lakehouse runs) =
        (writtenParts runs table).map (partFile PARQUET_BASE table) ∧
      uploadedFiles PARQUET_BASE table (lakehouse runs) = [] ∧
      (viewFiles PARQUET_BASE table (lakehouse runs)).flatMap File.rows = [] := by
  have hcounted := countedFiles_lakehouse runs htable
  have huploaded := uploadedFiles_lakehouse runs htable
  refine ⟨⟨fun h => ?_, fun h => ?_⟩, hcounted, huploaded, viewRows_lakehouse runs htable⟩
  · rw [← List.map_eq_nil_iff (f := partFile PARQUET_BASE table), ← h.uploaded]
    exact huploaded
  · rw [h, List.map_nil] at hcounted
    exact ⟨by rw [h]; exact huploaded, by rw [h]; exact hcounted, by rw [h]; exact huploaded⟩

/-- A first run of `run_export` that writes one window of 2026-04-23. -/
def sampleRun (table : String) : TableExport Nat :=
  if table = "gold_vwap_1min" then ⟨true, [⟨0, 20566, [1]⟩]⟩ else ⟨true, []⟩

/-- It writes nothing for the other table, and there the readers agree. -/
theorem readersAgree_iff_empty_sample :
    writtenParts [sampleRun] "gold_trade_stats_1min" = [] ∧
      ReadersAgree "gold_trade_stats_1min" (writtenParts [sampleRun] "gold_trade_stats_1min")
        (lakehouse [sampleRun]) ∧
      countedFiles PARQUET_BASE "gold_trade_stats_1min" (lakehouse [sampleRun]) = [] ∧
      uploadedFiles PARQUET_BASE "gold_trade_stats_1min" (lakehouse [sampleRun]) = [] ∧
      (viewFiles PARQUET_BASE "gold_trade_stats_1min" (lakehouse [sampleRun])).flatMap File.rows = [] := by
  obtain ⟨hiff, hcounted, huploaded, hview⟩ :=
    readersAgree_iff_empty [sampleRun] "gold_trade_stats_1min" (by decide)
  have hnone : writtenParts [sampleRun] "gold_trade_stats_1min" = [] := rfl
  exact ⟨hnone, hiff.mpr hnone, hcounted, huploaded, hview⟩

/-- The written file is counted; it is not uploaded and the view does not show it. -/
theorem written_file_invisible :
    (writtenParts [sampleRun] "gold_vwap_1min").map PartFile.rows = [[1]] ∧
      countExportedRows PARQUET_BASE "gold_vwap_1min" (lakehouse [sampleRun]) = 1 ∧
      uploadedFiles PARQUET_BASE "gold_vwap_1min" (lakehouse [sampleRun]) = [] ∧
      (viewFiles PARQUET_BASE "gold_vwap_1min" (lakehouse [sampleRun])).flatMap File.rows = [] ∧
      ¬ ReadersAgree "gold_vwap_1min" (writtenParts [sampleRun] "gold_vwap_1min") (lakehouse [sampleRun]) := by
  have huploaded : uploadedFiles PARQUET_BASE "gold_vwap_1min" (lakehouse [sampleRun]) = [] :=
    uploadedFiles_lakehouse [sampleRun] (by decide)
  refine ⟨rfl, ?_, huploaded, viewRows_lakehouse [sampleRun] (by decide), fun h => ?_⟩
  · rw [countExportedRows, countedFiles_lakehouse [sampleRun] (by decide)]
    rfl
  · have hparts := h.uploaded
    rw [huploaded] at hparts
    exact absurd hparts (by simp [writtenParts, sampleRun])

end CryptoLakehouse.Catalog
