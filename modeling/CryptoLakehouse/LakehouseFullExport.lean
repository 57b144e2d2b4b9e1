import CryptoLakehouse.LakehouseExport
import Mathlib.Data.Set.Basic

/-! `GoldExporter.full_export` (`lakehouse/exporter.py`) on the directory of its table, with one step that
raises. The directory is deleted before anything is read, and the partitions are written one by one. -/

namespace CryptoLakehouse.Export

variable {R : Type}

/-- `^[a-zA-Z_][a-zA-Z0-9_]*$`; a dollar sign also matches before a newline at the end. -/
def safeTableName (table : String) : Bool :=
  let chars := table.toList
  let name := if chars.getLast? = some '\n' then chars.dropLast else chars
  match name with
  | [] => false
  | first :: rest => (first.isAlpha || first = '_') && rest.all fun c => c.isAlphanum || c = '_'

/-- The step that raises. `rmtree` has removed some files by then, `mkdir` and `toParquet` are those of one
partition; a `to_parquet` that raises leaves no file. -/
inductive Fault (R : Type) where
  | rmtree (kept : PartFile R → Bool)
  | connect
  | installScanner
  | loadScanner
  | query
  | toDatetime
  | mkdir (partition : Nat)
  | toParquet (partition : Nat)

namespace Fault

def isMkdir (i : Nat) : Fault R → Bool
  | .mkdir partition => partition = i
  | _ => false

def isToParquet (i : Nat) : Fault R → Bool
  | .toParquet partition => partition = i
  | _ => false

/-- The partition in whose turn the step is. -/
def partition? : Fault R → Option Nat
  | .mkdir partition | .toParquet partition => some partition
  | _ => none

end Fault

/-- The directory of a table; `none` does not exist. -/
abbrev Directory (R : Type) := Option (List (PartFile R))

/-- The rows that a reader finds in the directory. -/
def readable (dir : Directory R) : Set R := {row | ∃ file ∈ dir.getD [], row ∈ file.rows}

section Code

variable (windowStart : R → Option Instant) (fault : Option (Fault R)) (uuid : Nat → Nat)

/-- The loop of `_export`; the result says whether it raised. -/
def writePartitions : Nat → List (Int × List R) → Directory R → Bool × Directory R
  | _, [], dir => (false, dir)
  | i, (day, rows) :: pending, dir =>
      if fault.any (Fault.isMkdir i) then (true, dir)
      else if fault.any (Fault.isToParquet i) then (true, some (dir.getD []))
      else writePartitions (i + 1) pending (some (dir.getD [] ++ [⟨uuid i, day, rows⟩]))

/-- `_export` of the whole table. -/
def exportAll (gold : List R) (dir : Directory R) : Bool × Directory R :=
  match fault with
  | some .connect | some .installScanner | some .loadScanner | some .query => (true, dir)
  | _ =>
      if gold.isEmpty then (false, dir)
      else
        match fault with
        | some .toDatetime => (true, dir)
        | _ => writePartitions fault uuid 0 (partitions windowStart gold) dir

def fullExport (table : String) (gold : List R) (dir : Directory R) : Bool × Directory R :=
  if safeTableName table then
    match dir, fault with
    | some files, some (.rmtree kept) => (true, some (files.filter kept))
    | _, _ => exportAll windowStart fault uuid gold none
  else (true, dir)

end Code

/-- The files of partitions that are counted from `i`. -/
def partFiles (uuid : Nat → Nat) (i : Nat) (parts : List (Int × List R)) : List (PartFile R) :=
  (parts.zipIdx i).map fun part => ⟨uuid part.2, part.1.1, part.1.2⟩

theorem partFiles_cons (uuid : Nat → Nat) (i : Nat) (part : Int × List R) (parts : List (Int × List R)) :
    partFiles uuid i (part :: parts) = ⟨uuid i, part.1, part.2⟩ :: partFiles uuid (i + 1) parts := by
  rw [partFiles, List.zipIdx_cons, List.map_cons, partFiles]

theorem mem_partFiles {uuid : Nat → Nat} {i : Nat} {parts : List (Int × List R)} {row : R} :
    (∃ file ∈ partFiles uuid i parts, row ∈ file.rows) ↔ ∃ part ∈ parts, row ∈ part.2 := by
  induction parts generalizing i with
  | nil => simp [partFiles]
  | cons part parts ih => rw [partFiles_cons, List.exists_mem_cons_iff, List.exists_mem_cons_iff, ih]

/-- The partition in whose turn a step raises, if any. -/
def turn (fault : Option (Fault R)) : Option Nat := fault.bind Fault.partition?

section Loop

variable {fault : Option (Fault R)} {uuid : Nat → Nat} {i k : Nat} {pending : List (Int × List R)}
  {dir : Directory R}

theorem turn_eq_iff : turn fault = some i ↔
    fault.any (Fault.isMkdir i) = true ∨ fault.any (Fault.isToParquet i) = true := by
  cases fault with
  | none => simp [turn]
  | some fault => cases fault <;> simp [turn, Fault.partition?, Fault.isMkdir, Fault.isToParquet]

variable (uuid dir) in
/-- The loop up to the partition whose turn raises. -/
theorem writePartitions_fails (hturn : turn fault = some k) (hle : i ≤ k) (hlt : k < i + pending.length) :
    ∃ dir', writePartitions fault uuid i pending dir = (true, dir') ∧
      dir'.getD [] = dir.getD [] ++ partFiles uuid i (pending.take (k - i)) := by
  induction pending generalizing i dir with
  | nil =>
      rw [List.length_nil] at hlt
      omega
  | cons part pending ih =>
      rw [writePartitions]
      by_cases heq : k = i
      · -- this partition's turn: it raises before or after its directory is made
        subst heq
        have hnone : partFiles uuid k ((part :: pending).take (k - k)) = [] := by
          rw [Nat.sub_self]
          rfl
        rw [hnone, List.append_nil]
        split_ifs with hmkdir hparquet
        · exact ⟨dir, rfl, rfl⟩
        · exact ⟨some (dir.getD []), rfl, rfl⟩
        · exact absurd (turn_eq_iff.mp hturn) (not_or.mpr ⟨hmkdir, hparquet⟩)
      · have hother := not_or.mp fun h => heq (Option.some.inj (hturn.symm.trans (turn_eq_iff.mpr h)))
        have hlt' : k < i + 1 + pending.length := by
          rw [List.length_cons] at hlt
          omega
        obtain ⟨dir', hrun, hfiles⟩ := ih (some (dir.getD [] ++ [⟨uuid i, part.1, part.2⟩]))
          (Nat.lt_of_le_of_ne hle (Ne.symm heq)) hlt'
        have hsucc : k - i = k - (i + 1) + 1 := by omega
        rw [if_neg hother.1, if_neg hother.2]
        refine ⟨dir', hrun, ?_⟩
        calc dir'.getD [] = dir.getD [] ++ [⟨uuid i, part.1, part.2⟩] ++
              partFiles uuid (i + 1) (pending.take (k - (i + 1))) := hfiles
          _ = dir.getD [] ++ partFiles uuid i ((part :: pending).take (k - i)) := by
              rw [hsucc, List.take_succ_cons, partFiles_cons, List.append_assoc, List.singleton_append]

variable (uuid dir) in
/-- A loop in which no turn raises returns. -/
theorem writePartitions_returns (h : ∀ j, i ≤ j → j < i + pending.length → turn fault ≠ some j) :
    (writePartitions fault uuid i pending dir).1 = false := by
  induction pending generalizing i dir with
  | nil => rfl
  | cons part pending ih =>
      have hother := not_or.mp fun hturn => h i (Nat.le_refl i) (by simp) (turn_eq_iff.mpr hturn)
      rw [writePartitions, if_neg hother.1, if_neg hother.2]
      refine ih _ fun j hj hlt => h j (by omega) ?_
      rw [List.length_cons]
      omega

end Loop

section Failed

variable {windowStart : R → Option Instant} {fault : Option (Fault R)} {uuid : Nat → Nat} {table : String}
  {gold : List R} {dir : Directory R}

/-- The failure leaves the rows of the directory as they were: it comes before the deletion, or a deletion
that stops half-way has kept them all, or what is written until then is what was there. -/
def Harmless (windowStart : R → Option Instant) (fault : Option (Fault R)) (table : String) (gold : List R)
    (dir : Directory R) : Prop :=
  safeTableName table = false ∨
    match dir, fault with
    | some files, some (.rmtree kept) => readable (some files) ⊆ readable (some (files.filter kept))
    | _, some (.mkdir k) | _, some (.toParquet k) =>
        readable dir = {row | ∃ part ∈ (partitions windowStart gold).take k, row ∈ part.2}
    | _, _ => readable dir = ∅

theorem readable_filter_subset (files : List (PartFile R)) (kept : PartFile R → Bool) :
    readable (some (files.filter kept)) ⊆ readable (some files) :=
  fun _ ⟨file, hfile, hrow⟩ => ⟨file, List.mem_of_mem_filter hfile, hrow⟩

theorem readable_none : readable (none : Directory R) = ∅ := by
  ext row
  simp [readable]

/-- A loop that raises does so in the turn of one partition, and leaves those before it. -/
theorem readable_writePartitions {pending : List (Int × List R)}
    (hraised : (writePartitions fault uuid 0 pending none).1 = true) :
    ∃ k, turn fault = some k ∧ readable (writePartitions fault uuid 0 pending none).2 =
      {row | ∃ part ∈ pending.take k, row ∈ part.2} := by
  by_cases hturn : ∃ k, turn fault = some k ∧ k < pending.length
  · obtain ⟨k, hk, hlt⟩ := hturn
    obtain ⟨dir', hrun, hfiles⟩ := writePartitions_fails uuid none hk (Nat.zero_le k) (by rwa [Nat.zero_add])
    refine ⟨k, hk, ?_⟩
    ext row
    rw [hrun]
    show (∃ file ∈ dir'.getD [], row ∈ file.rows) ↔ ∃ part ∈ pending.take k, row ∈ part.2
    rw [hfiles]
    exact mem_partFiles
  · have hreturns : (writePartitions fault uuid 0 pending none).1 = false :=
      writePartitions_returns uuid none fun j _ hlt hj => hturn ⟨j, hj, by rwa [Nat.zero_add] at hlt⟩
    rw [hreturns] at hraised
    cases hraised

/-- An export that fails behind the deletion leaves the partitions written until then. -/
theorem readable_exportAll (hraised : (exportAll windowStart fault uuid gold none).1 = true) :
    readable (exportAll windowStart fault uuid gold none).2 =
      match fault with
      | some (.mkdir k) | some (.toParquet k) =>
          {row | ∃ part ∈ (partitions windowStart gold).take k, row ∈ part.2}
      | _ => ∅ := by
  have hloop := @readable_writePartitions R fault uuid (partitions windowStart gold)
  cases fault with
  | none =>
      simp only [exportAll] at hraised
      split_ifs at hraised
      obtain ⟨k, hk, -⟩ := hloop hraised
      cases hk
  | some fault =>
      cases fault with
      | connect | installScanner | loadScanner | query => exact readable_none
      | rmtree kept =>
          simp only [exportAll] at hraised
          split_ifs at hraised
          obtain ⟨k, hk, -⟩ := hloop hraised
          cases hk
      | toDatetime =>
          simp only [exportAll] at hraised ⊢
          split_ifs at hraised ⊢
          exact readable_none
      | mkdir k | toParquet k =>
          simp only [exportAll] at hraised ⊢
          split_ifs at hraised ⊢
          obtain ⟨j, hj, hreadable⟩ := hloop hraised
          obtain rfl : k = j := Option.some.inj hj
          exact hreadable

/-- When `full_export` raises, the rows of the directory are what they were exactly when the failure is
harmless. -/
theorem failed_fullExport_keeps_iff (hraised : (fullExport windowStart fault uuid table gold dir).1 = true) :
    readable (fullExport windowStart fault uuid table gold dir).2 = readable dir ↔
      Harmless windowStart fault table gold dir := by
  unfold fullExport Harmless at *
  cases hsafe : safeTableName table with
  | false => simp
  | true =>
      simp only [hsafe, if_true, Bool.true_eq_false, false_or] at hraised ⊢
      split at hraised
      · rename_i files kept
        exact ⟨fun h => h.ge, fun h => (readable_filter_subset files kept).antisymm h⟩
      · rename_i hdeleted
        rw [readable_exportAll hraised]
        cases fault with
        | none => cases dir <;> exact eq_comm
        | some fault =>
            cases fault with
            | rmtree kept =>
                cases dir with
                | none => exact eq_comm
                | some files => exact absurd rfl (hdeleted files kept rfl)
            | _ => cases dir <;> exact eq_comm

/-- The partition of the first day is written once more, that of the second raises. -/
theorem failed_fullExport_keeps_iff_secondDay :
    readable (fullExport some (some (.toParquet 1)) id "gold_vwap_1min" [0, 86400000000]
      (some [⟨7, 0, [0]⟩])).2 = readable (some [⟨7, 0, [0]⟩]) := by
  have hraised : (fullExport some (some (.toParquet 1)) id "gold_vwap_1min" [0, 86400000000]
      (some [⟨7, 0, [0]⟩])).1 = true := by decide +kernel
  have hfirst : (partitions some [0, 86400000000]).take 1 = [(0, [(0 : Instant)])] := by decide
  refine (failed_fullExport_keeps_iff hraised).mpr (Or.inr ?_)
  ext row
  show (∃ file ∈ [(⟨7, 0, [0]⟩ : PartFile Instant)], row ∈ file.rows) ↔
    ∃ part ∈ (partitions some [0, 86400000000]).take 1, row ∈ part.2
  rw [hfirst]
  simp

/-- The query fails, and the row of the last export is gone. -/
theorem failed_query_empties_directory :
    ¬ ∀ (fault : Option (Fault Instant)) (uuid : Nat → Nat) (table : String) (gold : List Instant)
      (dir : Directory Instant), (fullExport some fault uuid table gold dir).1 = true →
        readable (fullExport some fault uuid table gold dir).2 = readable dir := by
  intro h
  have hrun : fullExport some (some .query) id "gold_vwap_1min" [0] (some [⟨7, 0, [0]⟩]) = (true, none) := by
    unfold fullExport
    rw [if_pos (by decide +kernel)]
    rfl
  have hkept := h (some .query) id "gold_vwap_1min" [0] (some [⟨7, 0, [0]⟩]) (by rw [hrun])
  have hrow : (0 : Instant) ∈ readable (some [⟨7, 0, [0]⟩]) := ⟨_, List.mem_singleton_self _, by simp⟩
  rw [← hkept, hrun] at hrow
  simp [readable] at hrow

end Failed

section Machine

variable {windowStart : R → Option Instant} {fault : Option (Fault R)} {uuid : Nat → Nat} {table : String}
  {dir : Directory R}

/-- Where `export_table` stands with the outcome of a full export. -/
def Stands (outcome : Bool × Directory R) (s : State R) : Prop :=
  s.files = outcome.2.getD [] ∧ s.bookmark = none ∧
    if outcome.1 then s.pc = .idle ∧ s.returned = some false else s.pc = .writing []

/-- An exception, at any place of a run. -/
theorem stands_raise {s : State R} (hpc : s.pc ≠ .idle) (hfiles : s.files = dir.getD [])
    (hbookmark : s.bookmark = none) :
    ∃ as t, Runs.run (step windowStart) s as = some t ∧ Stands (true, dir) t := by
  have hstep : step windowStart s .raise = some { s with pc := .idle, returned := some false } := by
    cases h : s.pc with
    | idle => exact absurd h hpc
    | _ => simp only [step, h]
  exact ⟨[.raise], _, Runs.run_cons.mpr ⟨_, hstep, rfl⟩, hfiles, hbookmark, rfl, rfl⟩

/-- One step ahead of a run. -/
theorem stands_step {s t : State R} {a : Action R} {outcome : Bool × Directory R}
    (hstep : step windowStart s a = some t)
    (h : ∃ as u, Runs.run (step windowStart) t as = some u ∧ Stands outcome u) :
    ∃ as u, Runs.run (step windowStart) s as = some u ∧ Stands outcome u := by
  obtain ⟨as, u, hrun, hstands⟩ := h
  exact ⟨a :: as, u, Runs.run_cons.mpr ⟨t, hstep, hrun⟩, hstands⟩

theorem stands_writePartitions {i : Nat} {pending : List (Int × List R)} {s : State R}
    (hpc : s.pc = .writing pending) (hfiles : s.files = dir.getD []) (hbookmark : s.bookmark = none) :
    ∃ as t, Runs.run (step windowStart) s as = some t ∧
      Stands (writePartitions fault uuid i pending dir) t := by
  have hbusy : s.pc ≠ .idle := by
    simp [hpc]
  induction pending generalizing i dir s with
  | nil => exact ⟨[], s, rfl, hfiles, hbookmark, hpc⟩
  | cons part pending ih =>
      rw [writePartitions]
      split_ifs
      · exact stands_raise hbusy hfiles hbookmark
      · exact stands_raise hbusy hfiles hbookmark
      · have hstep : step windowStart s (.writePart (uuid i)) = some { s with
            files := s.files ++ [⟨uuid i, part.1, part.2⟩], pc := .writing pending } := by
          simp only [step, hpc]
        exact stands_step hstep (ih rfl (congrArg (· ++ [_]) hfiles) hbookmark (by simp))

theorem stands_exportAll {s : State R} (hpc : s.pc = .reading none) (hfiles : s.files = dir.getD [])
    (hbookmark : s.bookmark = none) :
    ∃ as t, Runs.run (step windowStart) s as = some t ∧
      Stands (exportAll windowStart fault uuid s.gold dir) t := by
  have hbusy : s.pc ≠ .idle := by
    simp [hpc]
  have hread : step windowStart s .read =
      some { s with pc := .writing (partitions windowStart s.gold), read := s.gold } := by
    simp only [step, hpc, select]
  unfold exportAll
  split
  case h_5 =>
    split_ifs with hempty
    · refine ⟨[.read], _, Runs.run_cons.mpr ⟨_, hread, rfl⟩, hfiles, hbookmark, ?_⟩
      rw [List.isEmpty_iff.mp hempty]
      rfl
    · split
      · exact stands_raise hbusy hfiles hbookmark
      · exact stands_step hread (stands_writePartitions rfl hfiles hbookmark)
  all_goals exact stands_raise hbusy hfiles hbookmark

/-- The outcome of a full export is where the steps of `export_table` come to from its directory. -/
theorem stands_fullExport {s : State R} (hsafe : safeTableName table = true) (hpc : s.pc = .idle)
    (hbookmark : s.bookmark = none) (hfiles : s.files = dir.getD []) :
    ∃ as t, Runs.run (step windowStart) s as = some t ∧
      Stands (fullExport windowStart fault uuid table s.gold dir) t := by
  have hbegin : step windowStart s .begin = some { s with pc := .deleting, returned := none } := by
    simp only [step, hpc, hbookmark]
  refine stands_step hbegin ?_
  unfold fullExport
  rw [if_pos hsafe]
  split
  · rename_i files kept
    -- the deletion stops half-way
    refine stands_step (a := .unlink kept) rfl (stands_raise (by simp) ?_ hbookmark)
    exact congrArg (List.filter kept) hfiles
  · exact stands_step (a := .rmtree) rfl (stands_exportAll rfl rfl hbookmark)

end Machine

end CryptoLakehouse.Export
