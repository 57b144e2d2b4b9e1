import CryptoLakehouse.LakehouseExport

/-! When the files hold what gold held. The bookmark is a wall-clock time, and `window_start` is the start
of the minute: a window that changes, or is built, after an export has passed its start is not selected
again. -/

namespace CryptoLakehouse.Export

variable {R : Type} (windowStart : R → Option Instant)

/-- Some file has the row. -/
def Written (files : List (PartFile R)) (row : R) : Prop := ∃ file ∈ files, row ∈ file.rows

/-- The files hold every window as gold held it at the read. -/
def Complete (s : State R) : Prop :=
  ∀ row ∈ s.read, ∀ x, windowStart row = some x → Written s.files row

/-- When the bookmark moves, each row of the read whose window starts at or before the old bookmark was in
gold, with the same values, at the read of an export that moved the bookmark before. -/
def Unchanged (s : State R) : Action R → Prop
  | .upsert _ => ∀ b, s.bookmark = some b → ∀ row ∈ s.read, ∀ x, windowStart row = some x →
      x ≤ b.lastExportedAt → row ∈ s.exported
  | _ => True

/-- An export that has read gold is not stopped before its bookmark is written. -/
def Uninterrupted (s : State R) : Action R → Prop
  | .raise | .kill =>
      match s.pc with
      | .writing _ | .upserting _ => False
      | _ => True
  | _ => True

/-- The row starts after the bookmark. -/
def Fresh (s : State R) (row : R) : Prop :=
  ∃ x, windowStart row = some x ∧ ∀ b ∈ s.bookmark, b.lastExportedAt < x

section Sufficient

/-- What the export has done of its work when it stands at `pc`. -/
def Progress (s : State R) : Prop :=
  match s.pc with
  | .idle => True
  | .deleting => s.bookmark = none
  | .reading since => since = s.bookmark.map Bookmark.lastExportedAt
  | .writing pending => ∀ row ∈ s.read, Fresh windowStart s row →
      Written s.files row ∨ ∃ p ∈ pending, row ∈ p.2
  | .upserting _ => ∀ row ∈ s.read, Fresh windowStart s row → Written s.files row
  | .uploading => Complete windowStart s

structure Inv (s : State R) : Prop where
  first : s.bookmark = none → s.exported = []
  exported : ∀ row ∈ s.exported, ∀ x, windowStart row = some x → Written s.files row
  progress : Progress windowStart s

variable {windowStart} {s t : State R} {a : Action R}

theorem Written.append {files : List (PartFile R)} {row : R} (h : Written files row)
    (more : List (PartFile R)) : Written (files ++ more) row := by
  obtain ⟨file, hfile, hrow⟩ := h
  exact ⟨file, List.mem_append_left _ hfile, hrow⟩

theorem complete_of_unchanged (hs : Inv windowStart s) {newHwm : Instant} {counted : Bool}
    (hpc : s.pc = .upserting newHwm) (h : Unchanged windowStart s (.upsert counted)) :
    Complete windowStart s := by
  intro row hrow x hx
  have hprogress := hs.progress
  rw [Progress, hpc] at hprogress
  by_cases hfresh : ∀ b ∈ s.bookmark, b.lastExportedAt < x
  · exact hprogress row hrow ⟨x, hx, hfresh⟩
  · simp only [not_forall, not_lt] at hfresh
    obtain ⟨b, hb, hle⟩ := hfresh
    exact hs.exported row (h b hb row hrow x hx hle) x hx

theorem inv_step (hs : Inv windowStart s) (hC : Unchanged windowStart s a)
    (h : step windowStart s a = some t) : Inv windowStart t := by
  have hprogress := hs.progress
  cases transition_of_step windowStart h with
  | refresh gold => exact ⟨hs.first, hs.exported, hprogress⟩
  | beginFull hpc hbookmark => exact ⟨hs.first, hs.exported, hbookmark⟩
  | beginIncremental b hpc hbookmark => exact ⟨hs.first, hs.exported, by simp [Progress, hbookmark]⟩
  | unlink kept hpc =>
      rw [Progress, hpc] at hprogress
      have hnothing := hs.first hprogress
      refine ⟨hs.first, by simp [hnothing], ?_⟩
      rw [Progress, hpc]
      exact hprogress
  | rmtree hpc =>
      rw [Progress, hpc] at hprogress
      have hnothing := hs.first hprogress
      exact ⟨hs.first, by simp [hnothing], by simp [Progress, hprogress]⟩
  | read since hpc =>
      rw [Progress, hpc] at hprogress
      refine ⟨hs.first, hs.exported, fun row hrow hfresh => .inr ?_⟩
      obtain ⟨x, hx, hlt⟩ := hfresh
      refine exists_mem_partitions (mem_select hrow hx fun hwm hsince => ?_) hx
      rw [hprogress, Option.mem_map] at hsince
      obtain ⟨b, hb, rfl⟩ := hsince
      exact hlt b hb
  | writePart uuid day rows pending hpc =>
      rw [Progress, hpc] at hprogress
      refine ⟨hs.first, fun row hrow x hx => (hs.exported row hrow x hx).append _, fun row hrow hfresh => ?_⟩
      rcases hprogress row hrow hfresh with hwritten | ⟨p, hp, hmem⟩
      · exact .inl (hwritten.append _)
      · rcases List.mem_cons.mp hp with rfl | hrest
        · exact .inl ⟨_, List.mem_append_right _ (List.mem_singleton_self _), hmem⟩
        · exact .inr ⟨p, hrest, hmem⟩
  | now clock hpc =>
      rw [Progress, hpc] at hprogress
      refine ⟨hs.first, hs.exported, fun row hrow hfresh => ?_⟩
      rcases hprogress row hrow hfresh with hwritten | ⟨p, hp, -⟩
      · exact hwritten
      · cases hp
  | upsert newHwm counted hpc =>
      have hcomplete := complete_of_unchanged hs hpc hC
      refine ⟨by simp, fun row hrow x hx => ?_, hcomplete⟩
      rcases List.mem_append.mp hrow with hold | hread
      · exact hs.exported row hold x hx
      · exact hcomplete row hread x hx
  | upload hpc => exact ⟨hs.first, hs.exported, trivial⟩
  | raise hpc => exact ⟨hs.first, hs.exported, trivial⟩
  | kill => exact ⟨hs.first, hs.exported, trivial⟩

theorem inv_run {as : List (Action R)} (hC : Runs.Meets (step windowStart) (Unchanged windowStart) init as)
    (h : Runs.run (step windowStart) init as = some s) : Inv windowStart s := by
  have hinit : Inv windowStart (init : State R) :=
    ⟨fun _ => rfl, fun row hrow => absurd hrow List.not_mem_nil, trivial⟩
  exact Runs.invariant_of_meets (fun s a t => inv_step) hinit hC h

end Sufficient

section Exact

/-- Every row in a file was exported, or is being exported and starts after the bookmark. -/
def Accounted (s : State R) : Prop :=
  match s.pc with
  | .deleting => s.bookmark = none ∧ ∀ row, Written s.files row → row ∈ s.exported
  | .reading since => since = s.bookmark.map Bookmark.lastExportedAt ∧
      ∀ row, Written s.files row → row ∈ s.exported
  | .writing pending => (∀ p ∈ pending, ∀ row ∈ p.2, row ∈ s.read ∧ Fresh windowStart s row) ∧
      ∀ row, Written s.files row → row ∈ s.exported ∨ row ∈ s.read ∧ Fresh windowStart s row
  | .upserting _ => ∀ row, Written s.files row → row ∈ s.exported ∨ row ∈ s.read ∧ Fresh windowStart s row
  | .idle | .uploading => ∀ row, Written s.files row → row ∈ s.exported

variable {windowStart} {s t : State R} {a : Action R}

theorem Written.of_append {files : List (PartFile R)} {file : PartFile R} {row : R}
    (h : Written (files ++ [file]) row) : Written files row ∨ row ∈ file.rows := by
  obtain ⟨f, hf, hrow⟩ := h
  rcases List.mem_append.mp hf with hold | hnew
  · exact .inl ⟨f, hold, hrow⟩
  · rw [List.mem_singleton.mp hnew] at hrow
    exact .inr hrow

theorem Written.of_filter {files : List (PartFile R)} {kept : PartFile R → Bool} {row : R}
    (h : Written (files.filter kept) row) : Written files row := by
  obtain ⟨file, hfile, hrow⟩ := h
  exact ⟨file, List.mem_of_mem_filter hfile, hrow⟩

/-- Where an export may stop, every row in a file was exported. -/
theorem Accounted.exported (hs : Accounted windowStart s) (hstop : Uninterrupted s .kill) {row : R}
    (hrow : Written s.files row) : row ∈ s.exported := by
  rw [Accounted] at hs
  rw [Uninterrupted] at hstop
  cases hpc : s.pc <;> simp only [hpc] at hs hstop
  case idle | uploading => exact hs row hrow
  case deleting | reading => exact hs.2 row hrow

theorem accounted_step (hs : Accounted windowStart s) (hC : Uninterrupted s a)
    (h : step windowStart s a = some t) : Accounted windowStart t := by
  have hbefore := hs
  rw [Accounted] at hs
  cases transition_of_step windowStart h with
  | refresh gold => exact hbefore
  | beginFull hpc hbookmark =>
      rw [hpc] at hs
      exact ⟨hbookmark, hs⟩
  | beginIncremental b hpc hbookmark =>
      rw [hpc] at hs
      exact ⟨by rw [hbookmark, Option.map_some], hs⟩
  | unlink kept hpc =>
      rw [hpc] at hs
      rw [Accounted, hpc]
      exact ⟨hs.1, fun row hrow => hs.2 row hrow.of_filter⟩
  | rmtree hpc =>
      rw [hpc] at hs
      refine ⟨by rw [hs.1, Option.map_none], ?_⟩
      rintro row ⟨file, hfile, -⟩
      cases hfile
  | read since hpc =>
      rw [hpc] at hs
      refine ⟨fun p hp row hrow => ?_, fun row hrow => .inl (hs.2 row hrow)⟩
      obtain ⟨hselected, x, hx⟩ := mem_of_mem_partitions hp hrow
      obtain ⟨hgold, hafter⟩ := lt_of_mem_select hselected hx
      refine ⟨hgold, x, hx, fun b hb => hafter _ ?_⟩
      rw [hs.1, Option.mem_map]
      exact ⟨b, hb, rfl⟩
  | writePart uuid day rows pending hpc =>
      rw [hpc] at hs
      refine ⟨fun p hp => hs.1 p (List.mem_cons_of_mem _ hp), fun row hrow => ?_⟩
      rcases hrow.of_append with hold | hnew
      · exact hs.2 row hold
      · exact .inr (hs.1 _ List.mem_cons_self row hnew)
  | now clock hpc =>
      rw [hpc] at hs
      exact hs.2
  | upsert newHwm counted hpc =>
      rw [hpc] at hs
      refine fun row hrow => List.mem_append.mpr ?_
      exact (hs row hrow).imp_right And.left
  | upload hpc =>
      rw [hpc] at hs
      exact hs
  | raise hpc => exact fun row hrow => hbefore.exported hC hrow
  | kill => exact fun row hrow => hbefore.exported hC hrow

theorem accounted_run {as : List (Action R)}
    (hC : Runs.Meets (step windowStart) Uninterrupted init as)
    (h : Runs.run (step windowStart) init as = some s) : Accounted windowStart s := by
  have hinit : Accounted windowStart (init : State R) := by
    rintro row ⟨file, hfile, -⟩
    cases hfile
  exact Runs.invariant_of_meets (fun s a t => accounted_step) hinit hC h

theorem not_complete_of_changed (hs : Accounted windowStart s) {newHwm : Instant} {counted : Bool}
    (hpc : s.pc = .upserting newHwm) (h : ¬ Unchanged windowStart s (.upsert counted)) :
    ¬ Complete windowStart s := by
  intro hcomplete
  simp only [Unchanged, not_forall] at h
  obtain ⟨b, hb, row, hrow, x, hx, hle, hnew⟩ := h
  rw [Accounted, hpc] at hs
  rcases hs row (hcomplete row hrow x hx) with hold | ⟨-, y, hy, hlt⟩
  · exact hnew hold
  · obtain rfl := Option.some.inj (hx.symm.trans hy)
    exact absurd hle (not_le.mpr (hlt b hb))

end Exact

/-- **An export that returns True leaves gold's rows in the files**, in every run in which no bookmark
moved past a window that changed behind it. Conversely, where no export is stopped halfway, an export that
moves the bookmark past such a window returns True without its row. -/
theorem complete_after_export :
    (∀ (as : List (Action R)) (s : State R), Runs.run (step windowStart) init (as ++ [.upload]) = some s →
        Runs.Meets (step windowStart) (Unchanged windowStart) init (as ++ [.upload]) →
        s.returned = some true ∧ Complete windowStart s) ∧
      ∀ (as : List (Action R)) (counted : Bool) (s t : State R),
        Runs.run (step windowStart) init as = some s →
        Runs.Meets (step windowStart) Uninterrupted init as →
        ¬ Unchanged windowStart s (.upsert counted) →
        Runs.run (step windowStart) s [.upsert counted, .upload] = some t →
        t.returned = some true ∧ ¬ Complete windowStart t := by
  constructor
  · intro as s h hC
    obtain ⟨v, hv, hstep⟩ := Runs.run_snoc.mp h
    have hinv := inv_run ((Runs.meets_snoc hv).mp hC).1 hv
    cases transition_of_step windowStart hstep with
    | upload hpc =>
        have hprogress := hinv.progress
        rw [Progress, hpc] at hprogress
        exact ⟨rfl, hprogress⟩
  · intro as counted s t h hC hchanged hlast
    obtain ⟨v, hupsert, hrest⟩ := Runs.run_cons.mp hlast
    obtain ⟨u, hupload, hnil⟩ := Runs.run_cons.mp hrest
    obtain rfl := Option.some.inj hnil
    have haccounted := accounted_run hC h
    cases transition_of_step windowStart hupsert with
    | upsert newHwm _ hpc =>
        have hmissing := not_complete_of_changed haccounted hpc hchanged
        cases transition_of_step windowStart hupload with
        | upload => exact ⟨rfl, hmissing⟩

/-- The window 00:00 is exported at 00:00:30. -/
def firstExport : List (Action (Instant × Nat)) :=
  [.refresh [(0, 1)], .begin, .rmtree, .read, .writePart 0, .now 30000000, .upsert true]

theorem complete_after_export_first :
    ∃ s, Runs.run (step fun row : Instant × Nat => some row.1) init (firstExport ++ [.upload]) = some s ∧
      s.returned = some true ∧ Complete (fun row : Instant × Nat => some row.1) s := by
  obtain ⟨s, hs⟩ := Option.isSome_iff_exists.mp (by decide +kernel :
    (Runs.run (step fun row : Instant × Nat => some row.1) init (firstExport ++ [.upload])).isSome)
  refine ⟨s, hs, (complete_after_export _).1 firstExport s hs ?_⟩
  obtain ⟨v, hv, -⟩ := Runs.run_snoc.mp hs
  have hfirst : ∀ (w : State (Instant × Nat)) b, w.bookmark = none →
      Unchanged (fun row : Instant × Nat => some row.1) w (.upsert b) := by
    intro w b hnone b' hsome
    rw [hnone] at hsome
    cases hsome
  rw [Runs.meets_snoc hv]
  refine ⟨?_, trivial⟩
  iterate 6 refine (Runs.meets_cons rfl).mpr ⟨trivial, ?_⟩
  exact ⟨hfirst _ true rfl, fun _ _ => trivial⟩

/-- A trade of 00:00:45 changes the window; the next export returns True and the files keep the old row. -/
theorem rewritten_window_not_exported :
    ∃ s, Runs.run (step fun row : Instant × Nat => some row.1) init (firstExport ++ [.upload,
        .refresh [(0, 2)], .begin, .read, .now 60000000, .upsert true, .upload]) = some s ∧
      s.returned = some true ∧ s.read = [(0, 2)] ∧ s.files.map PartFile.rows = [[(0, 1)]] ∧
      ¬ Complete (fun row : Instant × Nat => some row.1) s := by
  refine ⟨_, rfl, rfl, rfl, rfl, fun hcomplete => ?_⟩
  obtain ⟨file, hfile, hrow⟩ := hcomplete (0, 2) (List.mem_singleton_self _) 0 rfl
  have hold : file.rows ∈ [[((0 : Instant), 1)]] := List.mem_map_of_mem (f := PartFile.rows) hfile
  rw [List.mem_singleton.mp hold] at hrow
  exact absurd hrow (by decide)

end CryptoLakehouse.Export
