import CryptoLakehouse.LakehouseDates
import CryptoLakehouse.LakehouseFullExport
import CryptoLakehouse.ProducerSchemas

/-! A completed `_export` (`lakehouse/exporter.py`) on the disk: the timestamps are brought to UTC, the rows
are grouped by their dates, and each group is written to a file of its own. -/

namespace CryptoLakehouse.Partitions

open Catalog (File IsDateDir append_injective isDateDir_partitionDir natText_injective partFile partitionDir
  partitionDir_injective)
open Export (PartFile partFiles partFiles_cons partitions utcDay)

variable {R C : Type}

/-- A row of the query's result; its other columns are carried along. -/
structure Row (C : Type) where
  windowStart : Option Datetime
  columns : C

/-- A row of a part file. -/
structure UtcRow (C : Type) where
  windowStart : Option Instant
  columns : C

/-- `to_datetime(..., utc=True)` takes a naive timestamp for UTC. -/
def instant (t : Datetime) : Instant := t.wall - t.utcoffset.getD 0

def toDatetime (row : Row C) : UtcRow C := ⟨row.windowStart.map instant, row.columns⟩

/-- `to_parquet` replaces a file of the same path. -/
def toParquet (disk : List (File R)) (file : File R) : List (File R) :=
  (disk.filter fun old => ¬ (old.dir = file.dir ∧ old.name = file.name)) ++ [file]

section Code

variable (outputPath : List String) (table : String) (uuid : Nat → Nat)

/-- The files of a data frame whose timestamps are in UTC. -/
def newFiles (df : List (UtcRow C)) : List (File (UtcRow C)) :=
  (partFiles uuid 0 (partitions UtcRow.windowStart df)).map (partFile outputPath table)

/-- `_export` of the data frame that the query returned -/
def exportFrame (df : List (Row C)) (disk : List (File (UtcRow C))) : List (File (UtcRow C)) :=
  if df.isEmpty then disk
  else (newFiles outputPath table uuid (df.map toDatetime)).foldl toParquet disk

end Code

section PartFiles

variable (uuid : Nat → Nat) (i : Nat) (parts : List (Int × List R))

theorem flatMap_partFiles : (partFiles uuid i parts).flatMap PartFile.rows = parts.flatMap Prod.snd := by
  induction parts generalizing i with
  | nil => rfl
  | cons part parts ih => rw [partFiles_cons, List.flatMap_cons, List.flatMap_cons, ih]

theorem map_day_partFiles : (partFiles uuid i parts).map PartFile.day = parts.map Prod.fst := by
  induction parts generalizing i with
  | nil => rfl
  | cons part parts ih => rw [partFiles_cons, List.map_cons, List.map_cons, ih]

theorem map_uuid_partFiles : (partFiles uuid i parts).map PartFile.uuid =
    (List.range' i parts.length).map uuid := by
  induction parts generalizing i with
  | nil => rfl
  | cons part parts ih => rw [partFiles_cons, List.map_cons, ih, List.length_cons, List.range'_succ, List.map_cons]

variable {uuid i parts}

theorem mem_of_mem_partFiles {file : PartFile R} (h : file ∈ partFiles uuid i parts) :
    (file.day, file.rows) ∈ parts := by
  induction parts generalizing i with
  | nil => exact absurd h List.not_mem_nil
  | cons part parts ih =>
      rw [partFiles_cons] at h
      obtain rfl | hmem := List.mem_cons.mp h
      · exact List.mem_cons_self
      · exact List.mem_cons_of_mem _ (ih hmem)

/-- The loop of `_export` in the step machine writes these files. -/
theorem writePartitions_none {dir : Export.Directory R} :
    (Export.writePartitions none uuid i parts dir).2.getD [] = dir.getD [] ++ partFiles uuid i parts := by
  induction parts generalizing i dir with
  | nil => exact (List.append_nil _).symm
  | cons part parts ih =>
      rw [Export.writePartitions]
      show (Export.writePartitions none uuid (i + 1) parts
        (some (dir.getD [] ++ [⟨uuid i, part.1, part.2⟩]))).2.getD [] = _
      rw [ih, partFiles_cons, Option.getD_some, List.append_assoc, List.singleton_append]

end PartFiles

section Groups

variable {windowStart : R → Option Instant} {rows : List R}

/-- A row is in the group of its own date. -/
theorem day_of_mem {p : Int × List R} {row : R} {x : Instant} (hp : p ∈ partitions windowStart rows)
    (hrow : row ∈ p.2) (hx : windowStart row = some x) : p.1 = utcDay x := by
  rw [(Export.mem_partitions.mp hp).2, List.mem_filter, decide_eq_true_eq, hx] at hrow
  exact (Option.some.inj hrow.2).symm

end Groups

section Disk

variable {disk new : List (File R)}

/-- Files of new names are put beside those that are there. -/
theorem foldl_toParquet (hnames : (new.map File.name).Nodup)
    (hfresh : ∀ file ∈ new, ∀ old ∈ disk, old.name ≠ file.name) : new.foldl toParquet disk = disk ++ new := by
  induction new generalizing disk with
  | nil => exact (List.append_nil disk).symm
  | cons file new ih =>
      obtain ⟨hfile, hnew⟩ := List.nodup_cons.mp hnames
      have hwrite : toParquet disk file = disk ++ [file] := by
        rw [toParquet, List.filter_eq_self.mpr fun old hold => ?_]
        simpa using Or.inr (hfresh file List.mem_cons_self old hold)
      rw [List.foldl_cons, hwrite, ih hnew, List.append_assoc, List.singleton_append]
      intro file' hmem old hold
      obtain hold' | hold' := List.mem_append.mp hold
      · exact hfresh file' (List.mem_cons_of_mem _ hmem) old hold'
      · rw [List.mem_singleton.mp hold']
        exact fun heq => hfile (heq ▸ List.mem_map_of_mem hmem)

end Disk

/-- No two uuids are the same, and none is that of a part file which is there. -/
def FreshUuids (uuid : Nat → Nat) (disk : List (File R)) : Prop :=
  uuid.Injective ∧ ∀ i, ∀ old ∈ disk, old.name ≠ "part-" ++ toString (uuid i) ++ ".parquet"

theorem partName_injective : Function.Injective fun uuid : Nat => "part-" ++ toString uuid ++ ".parquet" := by
  intro uuid uuid' h
  have hlists := congrArg String.toList h
  simp only [String.toList_append, List.append_cancel_right_eq, List.append_cancel_left_eq] at hlists
  exact natText_injective (String.toList_inj.mp hlists)

section NewFiles

variable {outputPath : List String} {table : String} {uuid : Nat → Nat} {df : List (UtcRow C)}

variable (outputPath table uuid) in
theorem flatMap_newFiles_perm (hdated : ∀ row ∈ df, row.windowStart.isSome) :
    ((newFiles outputPath table uuid df).flatMap File.rows).Perm df := by
  have hrows : (newFiles outputPath table uuid df).flatMap File.rows =
      (partitions UtcRow.windowStart df).flatMap Prod.snd := by
    rw [newFiles, List.flatMap_map, ← flatMap_partFiles uuid 0]
    rfl
  have hperm := Export.flatMap_partitions_perm UtcRow.windowStart df
  rw [List.filter_eq_self.mpr hdated] at hperm
  rw [hrows]
  exact hperm

theorem map_name_newFiles : (newFiles outputPath table uuid df).map File.name =
    ((List.range' 0 (partitions UtcRow.windowStart df).length).map uuid).map fun uuid =>
      "part-" ++ toString uuid ++ ".parquet" := by
  rw [newFiles, ← map_uuid_partFiles, List.map_map, List.map_map]
  rfl

theorem nodup_names (huuid : uuid.Injective) : ((newFiles outputPath table uuid df).map File.name).Nodup := by
  rw [map_name_newFiles]
  exact ((List.nodup_range' 1).map huuid).map partName_injective

/-- Where a row is written. -/
theorem dir_of_mem {file : File (UtcRow C)} {row : UtcRow C} {x : Instant}
    (hfile : file ∈ newFiles outputPath table uuid df) (hrow : row ∈ file.rows) (hx : row.windowStart = some x) :
    file.dir = outputPath ++ ["gold", table] ++ partitionDir (utcDay x) := by
  obtain ⟨part, hpart, rfl⟩ := List.mem_map.mp hfile
  rw [← day_of_mem (mem_of_mem_partFiles hpart) hrow hx]
  rfl

/-- No two of the files lie in one directory. -/
theorem nodup_dirs : ((newFiles outputPath table uuid df).map File.dir).Nodup := by
  have hdirs : (newFiles outputPath table uuid df).map File.dir = ((partFiles uuid 0
      (partitions UtcRow.windowStart df)).map PartFile.day).map fun day =>
        outputPath ++ ["gold", table] ++ partitionDir day := by
    rw [newFiles, List.map_map, List.map_map]
    rfl
  rw [hdirs, map_day_partFiles]
  exact (Export.nodup_days UtcRow.windowStart df).map fun day day' h =>
    partitionDir_injective (List.append_cancel_left h)

/-- There is one file for a day. -/
theorem eq_of_mem {file file' : File (UtcRow C)} {row : UtcRow C} {x : Instant}
    (hfile : file ∈ newFiles outputPath table uuid df) (hfile' : file' ∈ newFiles outputPath table uuid df)
    (hrow : row ∈ file.rows) (hrow' : row ∈ file'.rows) (hx : row.windowStart = some x) : file = file' := by
  have hdir : file.dir = file'.dir := (dir_of_mem hfile hrow hx).trans (dir_of_mem hfile' hrow' hx).symm
  exact List.inj_on_of_nodup_map nodup_dirs hfile hfile' hdir

end NewFiles

section Export

variable {uuid : Nat → Nat} {df : List (Row C)} {disk : List (File (UtcRow C))}

theorem name_ne_of_fresh {outputPath : List String} {table : String} {rows : List (UtcRow C)}
    (hfresh : FreshUuids uuid disk) {file old : File (UtcRow C)}
    (hfile : file ∈ newFiles outputPath table uuid rows) (hold : old ∈ disk) : old.name ≠ file.name := by
  have hname := List.mem_map_of_mem (f := File.name) hfile
  rw [map_name_newFiles, List.map_map] at hname
  obtain ⟨i, -, hi⟩ := List.mem_map.mp hname
  exact hi ▸ hfresh.2 i old hold

theorem exportFrame_eq (outputPath : List String) (table : String) (hfresh : FreshUuids uuid disk) :
    exportFrame outputPath table uuid df disk = disk ++ newFiles outputPath table uuid (df.map toDatetime) := by
  rw [exportFrame]
  split_ifs with hempty
  · obtain rfl := List.isEmpty_iff.mp hempty
    exact (List.append_nil disk).symm
  · exact foldl_toParquet (nodup_names hfresh.1) fun file hfile old hold => name_ne_of_fresh hfresh hfile hold

/-- The steps of `export_table` write the same files. -/
theorem newFiles_eq_exportAll (outputPath : List String) (table : String) (rows : List (UtcRow C)) :
    newFiles outputPath table uuid rows =
      ((Export.exportAll UtcRow.windowStart none uuid rows none).2.getD []).map (partFile outputPath table) := by
  show newFiles outputPath table uuid rows = ((if rows.isEmpty then (false, none)
    else Export.writePartitions none uuid 0 (partitions UtcRow.windowStart rows) none).2.getD []).map _
  rw [newFiles]
  split_ifs with hempty
  · rw [List.isEmpty_iff.mp hempty]
    rfl
  · rw [writePartitions_none]
    rfl

/-- Every row is in one new file, which lies in the directory of its UTC date; the files that were there stay
as they were. -/
theorem export_loses_and_moves_nothing (outputPath : List String) (table : String)
    (hdated : ∀ row ∈ df, row.windowStart.isSome) (hfresh : FreshUuids uuid disk) :
    ∃ new, exportFrame outputPath table uuid df disk = disk ++ new ∧
      (new.flatMap File.rows).Perm (df.map toDatetime) ∧
      (∀ row ∈ df, ∃! file, file ∈ new ∧ toDatetime row ∈ file.rows) ∧
      (∀ row ∈ df, ∀ t ∈ row.windowStart, ∀ file ∈ new, toDatetime row ∈ file.rows →
        ∃ dir, IsDateDir (utcDay (instant t)) dir ∧ file.dir = outputPath ++ ["gold", table] ++ dir) ∧
      (new.map File.dir).Nodup ∧ ∀ file ∈ new, ∀ old ∈ disk, old.name ≠ file.name := by
  have hdated' : ∀ row ∈ df.map toDatetime, row.windowStart.isSome := by
    intro row hrow
    obtain ⟨row', hrow', rfl⟩ := List.mem_map.mp hrow
    simpa [toDatetime] using hdated row' hrow'
  have hperm := flatMap_newFiles_perm outputPath table uuid hdated'
  refine ⟨newFiles outputPath table uuid (df.map toDatetime), exportFrame_eq outputPath table hfresh, hperm, ?_, ?_,
    nodup_dirs, fun file hfile old hold => name_ne_of_fresh hfresh hfile hold⟩
  · intro row hrow
    obtain ⟨t, ht⟩ := Option.isSome_iff_exists.mp (hdated row hrow)
    have hstart : (toDatetime row).windowStart = some (instant t) := congrArg (Option.map instant) ht
    obtain ⟨file, hfile, hmem⟩ := List.mem_flatMap.mp (hperm.mem_iff.mpr (List.mem_map_of_mem hrow))
    exact ⟨file, ⟨hfile, hmem⟩, fun file' ⟨hfile', hmem'⟩ => eq_of_mem hfile' hfile hmem' hmem hstart⟩
  · intro row hrow t ht file hfile hmem
    exact ⟨_, isDateDir_partitionDir _, dir_of_mem hfile hmem (congrArg (Option.map instant) ht)⟩

/-- Two timestamps of one local date, on both sides of midnight in UTC, and one without an offset. -/
def midnightRows : List (Row Nat) :=
  [⟨some ⟨1776992400000000, some 7200000000⟩, 0⟩, ⟨some ⟨1777068000000000, some (-18000000000)⟩, 1⟩,
    ⟨some ⟨1776956400000000, none⟩, 2⟩]

def placeholderDisk : List (File (UtcRow Nat)) := [⟨["data", "gold_vwap_1min"], ".placeholder.parquet", []⟩]

theorem export_loses_and_moves_nothing_midnight :
    ∃ new, exportFrame ["data"] "gold_vwap_1min" id midnightRows placeholderDisk = placeholderDisk ++ new ∧
      (new.flatMap File.rows).Perm (midnightRows.map toDatetime) := by
  have hdated : ∀ row ∈ midnightRows, row.windowStart.isSome := by
    simp [midnightRows]
  have hfresh : FreshUuids id placeholderDisk := by
    refine ⟨Function.injective_id, fun i old hold h => ?_⟩
    obtain rfl := List.mem_singleton.mp hold
    have hfirst := congrArg (fun name => name.toList.head?) h
    simp at hfirst
  obtain ⟨new, hdisk, hperm, -⟩ := export_loses_and_moves_nothing ["data"] "gold_vwap_1min" hdated hfresh
  exact ⟨new, hdisk, hperm⟩

example : (newFiles ["data"] "gold_vwap_1min" id (midnightRows.map toDatetime)).map
    (fun file => (file.dir.getLast?, file.rows.map UtcRow.columns)) =
      [(some "day=23", [0, 2]), (some "day=25", [1])] := by
  decide +kernel

end Export

end CryptoLakehouse.Partitions
