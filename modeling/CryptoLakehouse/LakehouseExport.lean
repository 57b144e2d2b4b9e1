import CryptoLakehouse.LibraryGrouping
import CryptoLakehouse.LibraryRuns
import CryptoLakehouse.WarehouseBronze
import Mathlib.Algebra.GroupWithZero.Nat
import Mathlib.Data.List.Dedup
import Mathlib.Data.List.Sort

/-! `export_table` for one Gold table (`lakehouse/export.py`, `exporter.py`, `schema.py`), step by step,
while dbt refreshes the table. Any step may raise, and the process may be killed before any step. The
rows are generic: of a row only its `window_start` is used. -/

namespace CryptoLakehouse.Export

variable {R : Type} (windowStart : R → Option Instant)

/-- `.dt.date` of a UTC timestamp, as days since the epoch. -/
def utcDay (x : Instant) : Int := x / 86400000000

/-- A file written by `_export`; its directory is the day's. -/
structure PartFile (R : Type) where
  uuid : Nat
  day : Int
  rows : List R

/-- The row of `ducklake.export_state`. -/
structure Bookmark where
  lastExportedAt : Instant
  rowsExported : Nat

/-- Where `export_table` stands. -/
inductive Pc (R : Type) where
  | idle
  | deleting
  | reading (since : Option Instant)
  | writing (pending : List (Int × List R))
  | upserting (newHwm : Instant)
  | uploading

/-- `read` is what gold held at the last read, `exported` the rows of gold at the reads of the exports that
moved the bookmark; the process keeps no record of either. -/
structure State (R : Type) where
  gold : List R
  files : List (PartFile R)
  bookmark : Option Bookmark
  pc : Pc R
  returned : Option Bool
  read : List R
  exported : List R

inductive Action (R : Type) where
  | refresh (gold : List R)
  | begin
  | unlink (kept : PartFile R → Bool)
  | rmtree
  | read
  | writePart (uuid : Nat)
  | now (clock : Instant)
  | upsert (counted : Bool)
  | upload
  | raise
  | kill

def init : State R := ⟨[], [], none, .idle, none, [], []⟩

/-- The rows the query selects: all, or those with `window_start` after the bookmark. -/
def select (since : Option Instant) (gold : List R) : List R :=
  match since with
  | none => gold
  | some hwm => gold.filter fun row => ∃ x ∈ windowStart row, hwm < x

/-- `df.groupby(df["window_start"].dt.date)`: the dates in order; a row without a date is in no group. -/
def partitions (rows : List R) : List (Int × List R) :=
  let days := (rows.filterMap windowStart).map utcDay
  (days.dedup.insertionSort (· ≤ ·)).map fun day =>
    (day, rows.filter fun row => (windowStart row).map utcDay = some day)

/-- `SELECT COUNT(*) FROM read_parquet(...)` over the directory of the files. -/
def rowCount (files : List (PartFile R)) : Nat := (files.map fun file => file.rows.length).sum

def step (s : State R) : Action R → Option (State R)
  | .refresh gold => some { s with gold := gold }
  | .begin =>
      match s.pc, s.bookmark with
      | .idle, none => some { s with pc := .deleting, returned := none }
      | .idle, some b => some { s with pc := .reading (some b.lastExportedAt), returned := none }
      | _, _ => none
  -- `shutil.rmtree` removes one entry after the other
  | .unlink kept =>
      match s.pc with
      | .deleting => some { s with files := s.files.filter kept }
      | _ => none
  | .rmtree =>
      match s.pc with
      | .deleting => some { s with files := [], pc := .reading none }
      | _ => none
  | .read =>
      match s.pc with
      | .reading since =>
          some { s with pc := .writing (partitions windowStart (select windowStart since s.gold)), read := s.gold }
      | _ => none
  | .writePart uuid =>
      match s.pc with
      | .writing ((day, rows) :: pending) =>
          some { s with files := s.files ++ [⟨uuid, day, rows⟩], pc := .writing pending }
      | _ => none
  | .now clock =>
      match s.pc with
      | .writing [] => some { s with pc := .upserting clock }
      | _ => none
  -- `_count_exported_rows` turns every exception into 0
  | .upsert counted =>
      match s.pc with
      | .upserting newHwm =>
          some { s with
            bookmark := some ⟨newHwm, if counted then rowCount s.files else 0⟩
            pc := .uploading
            exported := s.exported ++ s.read }
      | _ => none
  | .upload =>
      match s.pc with
      | .uploading => some { s with pc := .idle, returned := some true }
      | _ => none
  | .raise =>
      match s.pc with
      | .idle => none
      | _ => some { s with pc := .idle, returned := some false }
  | .kill => some { s with pc := .idle, returned := none }

/-- The steps with the place each is made from. -/
inductive Transition (s : State R) : Action R → State R → Prop where
  | refresh (gold : List R) : Transition s (.refresh gold) { s with gold := gold }
  | beginFull (hpc : s.pc = .idle) (hbookmark : s.bookmark = none) :
      Transition s .begin { s with pc := .deleting, returned := none }
  | beginIncremental (b : Bookmark) (hpc : s.pc = .idle) (hbookmark : s.bookmark = some b) :
      Transition s .begin { s with pc := .reading (some b.lastExportedAt), returned := none }
  | unlink (kept : PartFile R → Bool) (hpc : s.pc = .deleting) :
      Transition s (.unlink kept) { s with files := s.files.filter kept }
  | rmtree (hpc : s.pc = .deleting) : Transition s .rmtree { s with files := [], pc := .reading none }
  | read (since : Option Instant) (hpc : s.pc = .reading since) :
      Transition s .read { s with
        pc := .writing (partitions windowStart (select windowStart since s.gold)), read := s.gold }
  | writePart (uuid : Nat) (day : Int) (rows : List R) (pending : List (Int × List R))
      (hpc : s.pc = .writing ((day, rows) :: pending)) :
      Transition s (.writePart uuid) { s with files := s.files ++ [⟨uuid, day, rows⟩], pc := .writing pending }
  | now (clock : Instant) (hpc : s.pc = .writing []) :
      Transition s (.now clock) { s with pc := .upserting clock }
  | upsert (newHwm : Instant) (counted : Bool) (hpc : s.pc = .upserting newHwm) :
      Transition s (.upsert counted) { s with
        bookmark := some ⟨newHwm, if counted then rowCount s.files else 0⟩
        pc := .uploading
        exported := s.exported ++ s.read }
  | upload (hpc : s.pc = .uploading) : Transition s .upload { s with pc := .idle, returned := some true }
  | raise (hpc : s.pc ≠ .idle) : Transition s .raise { s with pc := .idle, returned := some false }
  | kill : Transition s .kill { s with pc := .idle, returned := none }

theorem transition_of_step {s t : State R} {a : Action R} (h : step windowStart s a = some t) :
    Transition windowStart s a t := by
  cases a <;> simp only [step] at h
  case refresh => cases h; constructor
  case kill => cases h; constructor
  all_goals
    split at h
    all_goals first
      | (cases h; done)
      | (cases h; constructor <;> assumption)

section Selection

variable {windowStart}

theorem mem_select {since : Option Instant} {gold : List R} {row : R} {x : Instant}
    (hrow : row ∈ gold) (hx : windowStart row = some x) (hsince : ∀ hwm ∈ since, hwm < x) :
    row ∈ select windowStart since gold := by
  cases since with
  | none => exact hrow
  | some hwm =>
      rw [select, List.mem_filter, decide_eq_true_eq]
      exact ⟨hrow, x, hx, hsince hwm rfl⟩

theorem lt_of_mem_select {since : Option Instant} {gold : List R} {row : R} {x : Instant}
    (hrow : row ∈ select windowStart since gold) (hx : windowStart row = some x) :
    row ∈ gold ∧ ∀ hwm ∈ since, hwm < x := by
  cases since with
  | none => exact ⟨hrow, fun hwm hnone => by cases hnone⟩
  | some hwm =>
      rw [select, List.mem_filter, decide_eq_true_eq] at hrow
      obtain ⟨hmem, y, hy, hlt⟩ := hrow
      obtain rfl := Option.some.inj (hx.symm.trans hy)
      exact ⟨hmem, fun hwm' hsome => Option.some.inj hsome ▸ hlt⟩

theorem mem_partitions {rows : List R} {p : Int × List R} :
    p ∈ partitions windowStart rows ↔ (∃ row ∈ rows, (windowStart row).map utcDay = some p.1) ∧
      p.2 = rows.filter fun row => (windowStart row).map utcDay = some p.1 := by
  have hdays : ∀ day, day ∈ ((rows.filterMap windowStart).map utcDay).dedup.insertionSort (· ≤ ·) ↔
      ∃ row ∈ rows, (windowStart row).map utcDay = some day := by
    intro day
    rw [List.mem_insertionSort, List.mem_dedup, List.mem_map]
    constructor
    · rintro ⟨x, hx, rfl⟩
      obtain ⟨row, hrow, hrowx⟩ := List.mem_filterMap.mp hx
      exact ⟨row, hrow, by rw [hrowx, Option.map_some]⟩
    · rintro ⟨row, hrow, hday⟩
      obtain ⟨x, hx, rfl⟩ := Option.map_eq_some_iff.mp hday
      exact ⟨x, List.mem_filterMap.mpr ⟨row, hrow, hx⟩, rfl⟩
  rw [partitions, List.mem_map]
  constructor
  · rintro ⟨day, hday, rfl⟩
    exact ⟨(hdays day).mp hday, rfl⟩
  · rintro ⟨hday, hrows⟩
    exact ⟨p.1, (hdays p.1).mpr hday, by rw [← hrows]⟩

/-- Every row with a date is written. -/
theorem exists_mem_partitions {rows : List R} {row : R} {x : Instant} (hrow : row ∈ rows)
    (hx : windowStart row = some x) : ∃ p ∈ partitions windowStart rows, row ∈ p.2 := by
  have hday : (windowStart row).map utcDay = some (utcDay x) := by rw [hx, Option.map_some]
  refine ⟨(utcDay x, rows.filter fun r => (windowStart r).map utcDay = some (utcDay x)), ?_, ?_⟩
  · exact mem_partitions.mpr ⟨⟨row, hrow, hday⟩, rfl⟩
  · rw [List.mem_filter, decide_eq_true_eq]
    exact ⟨hrow, hday⟩

theorem mem_of_mem_partitions {rows : List R} {p : Int × List R} {row : R}
    (hp : p ∈ partitions windowStart rows) (hrow : row ∈ p.2) :
    row ∈ rows ∧ ∃ x, windowStart row = some x := by
  rw [(mem_partitions.mp hp).2, List.mem_filter, decide_eq_true_eq] at hrow
  obtain ⟨x, hx, -⟩ := Option.map_eq_some_iff.mp hrow.2
  exact ⟨hrow.1, x, hx⟩

end Selection

section Groups

/-- The dates of the groups, in order. -/
theorem map_fst_partitions (rows : List R) : (partitions windowStart rows).map Prod.fst =
    ((rows.filterMap windowStart).map utcDay).dedup.insertionSort (· ≤ ·) := by
  rw [partitions, List.map_map]
  exact List.map_id _

theorem nodup_days (rows : List R) : ((partitions windowStart rows).map Prod.fst).Nodup := by
  rw [map_fst_partitions, (List.perm_insertionSort _ _).nodup_iff]
  exact List.nodup_dedup _

/-- The groups are a partition of the rows with a date. -/
theorem flatMap_partitions_perm (rows : List R) : ((partitions windowStart rows).flatMap Prod.snd).Perm
    (rows.filter fun row => (windowStart row).isSome) := by
  have hgroups : (partitions windowStart rows).flatMap Prod.snd =
      (((partitions windowStart rows).map Prod.fst).map some).flatMap
        (Grouping.group (fun row => (windowStart row).map utcDay) rows) := by
    rw [map_fst_partitions, partitions, List.flatMap_map, List.flatMap_map]
    rfl
  have hkept : (partitions windowStart rows).flatMap Prod.snd =
      (((partitions windowStart rows).map Prod.fst).map some).flatMap (Grouping.group
        (fun row => (windowStart row).map utcDay) (rows.filter fun row => (windowStart row).isSome)) := by
    rw [hgroups]
    refine List.flatMap_congr fun day hday => (Grouping.group_filter_eq fun row hrow => ?_).symm
    obtain ⟨day', -, rfl⟩ := List.mem_map.mp hday
    obtain ⟨x, hx, -⟩ := Option.map_eq_some_iff.mp (Grouping.mem_group.mp hrow).2
    exact Option.isSome_iff_exists.mpr ⟨x, hx⟩
  rw [hkept]
  apply Grouping.flatMap_group_perm ((nodup_days windowStart rows).map (Option.some_injective _))
  intro row hrow
  obtain ⟨hmem, hdated⟩ := List.mem_filter.mp hrow
  obtain ⟨x, hx⟩ := Option.isSome_iff_exists.mp hdated
  obtain ⟨p, hp, hrow'⟩ := exists_mem_partitions hmem hx
  rw [(mem_partitions.mp hp).2, List.mem_filter, decide_eq_true_eq] at hrow'
  rw [hrow'.2]
  exact List.mem_map_of_mem (List.mem_map_of_mem hp)

end Groups

end CryptoLakehouse.Export
