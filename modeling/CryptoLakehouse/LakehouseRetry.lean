import CryptoLakehouse.LakehouseFreshness

/-! How often the files hold a window. The partitions of an export are appended under fresh names, and only
then does the bookmark move past them: what an export that was stopped in between has written, the next one
selects once more. -/

namespace CryptoLakehouse.Retry

open Export (Action Bookmark PartFile Pc State Transition partitions select step utcDay)

variable {R : Type} (windowStart : R → Option Instant)

/-- The `window_start` of every dated row in the files. -/
def windows (files : List (PartFile R)) : List Instant := files.flatMap fun file => file.rows.filterMap windowStart

/-- No window starts after the time from which the next export reads. -/
def Behind (files : List (PartFile R)) (since : Option Instant) : Prop :=
  ∀ hwm ∈ since, ∀ x ∈ windows windowStart files, x ≤ hwm

/-- An export is stopped, or moves its bookmark, with no window in the files ahead of the bookmark that it
leaves. -/
def LeavesBehind (s : State R) : Action R → Prop
  | .raise | .kill => Behind windowStart s.files (s.bookmark.map Bookmark.lastExportedAt)
  | .upsert _ =>
      match s.pc with
      | .upserting newHwm => Behind windowStart s.files (some newHwm)
      | _ => True
  | _ => True

/-- dbt leaves at most one row of gold for each window. -/
def Refreshes : Action R → Prop
  | .refresh gold => (gold.filterMap windowStart).Nodup
  | _ => True

section Partitions

variable {windowStart}

theorem windows_append (files more : List (PartFile R)) :
    windows windowStart (files ++ more) = windows windowStart files ++ windows windowStart more :=
  List.flatMap_append

/-- The partitions hold the windows of the rows, each as often as they do. -/
theorem starts_partitions_perm (rows : List R) :
    ((partitions windowStart rows).flatMap fun p => p.2.filterMap windowStart).Perm
      (rows.filterMap windowStart) := by
  have hstarts := (Export.flatMap_partitions_perm windowStart rows).filterMap windowStart
  rw [List.filterMap_flatMap, List.filterMap_filter] at hstarts
  have hdated : ∀ row, (if (windowStart row).isSome then windowStart row else none) = windowStart row := by
    intro row
    cases windowStart row <;> rfl
  simpa only [hdated] using hstarts

theorem mem_starts_partitions {rows : List R} {x : Instant} :
    x ∈ (partitions windowStart rows).flatMap (fun p => p.2.filterMap windowStart) ↔
      x ∈ rows.filterMap windowStart :=
  (starts_partitions_perm rows).mem_iff

/-- A window is in the partition of its day only. -/
theorem nodup_partitions {rows : List R} (h : (rows.filterMap windowStart).Nodup) :
    ((partitions windowStart rows).flatMap fun p => p.2.filterMap windowStart).Nodup :=
  (starts_partitions_perm rows).nodup_iff.mpr h

theorem lt_of_mem_starts_select {since : Option Instant} {gold : List R} {x : Instant}
    (hx : x ∈ (select windowStart since gold).filterMap windowStart) : ∀ hwm ∈ since, hwm < x := by
  obtain ⟨row, hrow, hstart⟩ := List.mem_filterMap.mp hx
  exact (Export.lt_of_mem_select hrow hstart).2

theorem select_sublist (since : Option Instant) (gold : List R) : (select windowStart since gold).Sublist gold := by
  cases since with
  | none => exact List.Sublist.refl _
  | some hwm => exact List.filter_sublist

end Partitions

/-- What is known of the files where the export stands. -/
def Distinct (s : State R) : Prop :=
  match s.pc with
  | .idle => ∀ b ∈ s.bookmark, (windows windowStart s.files).Nodup ∧
      Behind windowStart s.files (some b.lastExportedAt)
  | .deleting => s.bookmark = none
  | .reading since => since = s.bookmark.map Bookmark.lastExportedAt ∧ (windows windowStart s.files).Nodup ∧
      Behind windowStart s.files since ∧ (since = none → s.files = [])
  | .writing pending =>
      (windows windowStart s.files ++ pending.flatMap fun p => p.2.filterMap windowStart).Nodup
  | .upserting _ => (windows windowStart s.files).Nodup
  | .uploading => (windows windowStart s.files).Nodup ∧
      Behind windowStart s.files (s.bookmark.map Bookmark.lastExportedAt)

structure Inv (s : State R) : Prop where
  gold : (s.gold.filterMap windowStart).Nodup
  distinct : Distinct windowStart s

section Sufficient

variable {windowStart} {s t : State R} {a : Action R}

theorem Distinct.nodup (h : Distinct windowStart s) {b : Bookmark} (hb : s.bookmark = some b) :
    (windows windowStart s.files).Nodup := by
  rw [Distinct] at h
  cases hpc : s.pc <;> simp only [hpc] at h
  case idle => exact (h b hb).1
  case deleting =>
    rw [hb] at h
    cases h
  case reading since => exact h.2.1
  case writing pending => exact h.of_append_left
  case upserting newHwm => exact h
  case uploading => exact h.1

/-- An export that stops without a window ahead of the bookmark. -/
theorem Distinct.stop (h : Distinct windowStart s)
    (hbehind : Behind windowStart s.files (s.bookmark.map Bookmark.lastExportedAt)) (returned : Option Bool) :
    Distinct windowStart { s with pc := .idle, returned := returned } := by
  intro b hb
  have hb : s.bookmark = some b := hb
  rw [hb, Option.map_some] at hbehind
  exact ⟨h.nodup hb, hbehind⟩

theorem inv_step (h : Inv windowStart s) (hleaves : LeavesBehind windowStart s a)
    (hrefresh : Refreshes windowStart a) (hstep : step windowStart s a = some t) : Inv windowStart t := by
  have hdistinct := h.distinct
  have hbefore := h.distinct
  rw [Distinct] at hdistinct
  cases Export.transition_of_step windowStart hstep with
  | refresh gold => exact ⟨hrefresh, hbefore⟩
  | beginFull hpc hbookmark => exact ⟨h.gold, hbookmark⟩
  | beginIncremental b hpc hbookmark =>
      rw [hpc] at hdistinct
      obtain ⟨hnodup, hbehind⟩ := hdistinct b hbookmark
      exact ⟨h.gold, by rw [hbookmark, Option.map_some], hnodup, hbehind, fun hnone => by cases hnone⟩
  | unlink kept hpc =>
      rw [hpc] at hdistinct
      refine ⟨h.gold, ?_⟩
      rw [Distinct, hpc]
      exact hdistinct
  | rmtree hpc =>
      rw [hpc] at hdistinct
      refine ⟨h.gold, by rw [hdistinct, Option.map_none], List.nodup_nil, ?_, fun _ => rfl⟩
      exact fun hwm hnone => by cases hnone
  | read since hpc =>
      rw [hpc] at hdistinct
      obtain ⟨-, hnodup, hbehind, hfull⟩ := hdistinct
      refine ⟨h.gold, List.nodup_append'.mpr ⟨hnodup, nodup_partitions ?_, fun x hx hselected => ?_⟩⟩
      · exact h.gold.sublist ((select_sublist since s.gold).filterMap _)
      · have hafter := lt_of_mem_starts_select (mem_starts_partitions.mp hselected)
        cases since with
        | none =>
            rw [hfull rfl] at hx
            cases hx
        | some hwm => exact absurd (hbehind hwm rfl x hx) (not_le.mpr (hafter hwm rfl))
  | writePart uuid day rows pending hpc =>
      simp only [hpc, List.flatMap_cons, ← List.append_assoc] at hdistinct
      refine ⟨h.gold, ?_⟩
      rw [Distinct, windows_append, windows, windows, List.flatMap_singleton]
      exact hdistinct
  | now clock hpc =>
      simp only [hpc, List.flatMap_nil, List.append_nil] at hdistinct
      exact ⟨h.gold, hdistinct⟩
  | upsert newHwm counted hpc =>
      rw [hpc] at hdistinct
      simp only [LeavesBehind, hpc] at hleaves
      exact ⟨h.gold, hdistinct, hleaves⟩
  | upload hpc =>
      rw [hpc] at hdistinct
      exact ⟨h.gold, hbefore.stop hdistinct.2 _⟩
  | raise hpc => exact ⟨h.gold, hbefore.stop hleaves _⟩
  | kill => exact ⟨h.gold, hbefore.stop hleaves _⟩

theorem inv_run {as : List (Action R)}
    (hleaves : Runs.Meets (step windowStart) (LeavesBehind windowStart) Export.init as)
    (hrefresh : ∀ a ∈ as, Refreshes windowStart a)
    (hrun : Runs.run (step windowStart) Export.init as = some s) : Inv windowStart s := by
  have hinit : Inv windowStart (Export.init : State R) :=
    ⟨List.nodup_nil, fun b hb => by cases hb⟩
  have hboth := hleaves.and ((Runs.meets_label (P := Refreshes windowStart) hrun).mpr hrefresh)
  exact Runs.invariant_of_meets (fun s a t hs hC hstep => inv_step hs hC.1 hC.2 hstep) hinit hboth hrun

end Sufficient

section Exact

variable {windowStart} {s t : State R} {a : Action R}

/-- A step of one export that nothing stops, with gold as it is. -/
def Undisturbed : Action R → Prop
  | .refresh _ | .raise | .kill => False
  | _ => True

variable (windowStart s) in
theorem run_writes (uuid : Nat) {pending : List (Int × List R)} (hpc : s.pc = .writing pending) :
    Runs.run (step windowStart) s (pending.map fun _ => .writePart uuid) = some { s with
      files := s.files ++ pending.map fun p => ⟨uuid, p.1, p.2⟩
      pc := .writing [] } := by
  induction pending generalizing s with
  | nil =>
      rw [List.map_nil, List.map_nil, List.append_nil, ← hpc]
      rfl
  | cons p pending ih =>
      refine Runs.run_cons.mpr ⟨{ s with files := s.files ++ [⟨uuid, p.1, p.2⟩], pc := .writing pending }, ?_, ?_⟩
      · simp only [step, hpc]
      · rw [ih _ rfl, List.append_assoc, List.singleton_append, List.map_cons]

variable (windowStart) in
/-- The next export, undisturbed, adds the windows of gold behind the bookmark to those in the files. -/
theorem exists_export (hpc : s.pc = .idle) {b : Bookmark} (hbookmark : s.bookmark = some b) :
    ∃ (as : List (Action R)) (t : State R), (∀ a ∈ as, Undisturbed a) ∧ Runs.run (step windowStart) s as = some t ∧
      t.returned = some true ∧ windows windowStart t.files = windows windowStart s.files ++
        (partitions windowStart (select windowStart (some b.lastExportedAt) s.gold)).flatMap
          fun p => p.2.filterMap windowStart := by
  let pending := partitions windowStart (select windowStart (some b.lastExportedAt) s.gold)
  let reading : State R := { s with pc := .reading (some b.lastExportedAt), returned := none }
  let writing : State R := { reading with pc := .writing pending, read := s.gold }
  let files := s.files ++ pending.map fun p => ⟨0, p.1, p.2⟩
  let exported : State R := { writing with
    files := files
    bookmark := some ⟨0, Export.rowCount files⟩
    pc := .idle
    returned := some true
    exported := s.exported ++ s.gold }
  have hbegin : step windowStart s .begin = some reading := by simp only [step, hpc, hbookmark, reading]
  have hread : step windowStart reading .read = some writing := rfl
  have hwrites := run_writes windowStart writing 0 rfl
  refine ⟨.begin :: .read :: (pending.map fun _ => .writePart 0) ++ [.now 0, .upsert true, .upload], exported,
    ?_, ?_, rfl, ?_⟩
  · intro a ha
    simp only [List.cons_append, List.mem_cons, List.mem_append, List.mem_map, List.not_mem_nil] at ha
    rcases ha with rfl | rfl | ⟨p, -, rfl⟩ | rfl | rfl | rfl | ⟨⟩ <;> trivial
  · exact Runs.run_append.mpr ⟨_, Runs.run_cons.mpr ⟨_, hbegin, Runs.run_cons.mpr ⟨_, hread, hwrites⟩⟩, rfl⟩
  · calc windows windowStart files
        = windows windowStart s.files ++ windows windowStart (pending.map fun p => ⟨0, p.1, p.2⟩) :=
          windows_append _ _
      _ = windows windowStart s.files ++ pending.flatMap fun p => p.2.filterMap windowStart := by
          rw [windows, windows, List.flatMap_map]

/-- A window ahead of the bookmark that gold still holds is written once more. -/
theorem not_nodup_of_ahead (hpc : s.pc = .idle) {b : Bookmark} (hbookmark : s.bookmark = some b) {x : Instant}
    (hx : x ∈ windows windowStart s.files) (hahead : b.lastExportedAt < x)
    (hgold : x ∈ s.gold.filterMap windowStart) :
    ∃ (as : List (Action R)) (t : State R), (∀ a ∈ as, Undisturbed a) ∧ Runs.run (step windowStart) s as = some t ∧
      t.returned = some true ∧ ¬ (windows windowStart t.files).Nodup := by
  obtain ⟨as, t, has, hrun, hreturned, hwindows⟩ := exists_export windowStart hpc hbookmark
  refine ⟨as, t, has, hrun, hreturned, fun hnodup => ?_⟩
  rw [hwindows, List.nodup_append'] at hnodup
  obtain ⟨row, hrow, hstart⟩ := List.mem_filterMap.mp hgold
  have hselected : row ∈ select windowStart (some b.lastExportedAt) s.gold := by
    refine Export.mem_select hrow hstart fun hwm hsome => ?_
    obtain rfl := Option.some.inj hsome
    exact hahead
  exact hnodup.2.2 hx (mem_starts_partitions.mpr (List.mem_filterMap.mpr ⟨row, hselected, hstart⟩))

theorem not_behind {files : List (PartFile R)} {since : Option Instant} (h : ¬ Behind windowStart files since) :
    ∃ hwm ∈ since, ∃ x ∈ windows windowStart files, hwm < x := by
  simpa only [Behind, not_forall, not_le, exists_prop] using h

/-- Where a step leaves a window ahead of the bookmark, an export to come doubles it. -/
theorem doubled_of_not_leavesBehind (hstep : step windowStart s a = some t) (h : ¬ LeavesBehind windowStart s a) :
    ∃ x ∈ windows windowStart t.files, ∀ gold, x ∈ gold.filterMap windowStart →
      ∃ (as : List (Action R)) (u : State R), (∀ c ∈ as, Undisturbed c) ∧
        Runs.run (step windowStart) t (.refresh gold :: as) = some u ∧
        u.returned = some true ∧ ¬ (windows windowStart u.files).Nodup := by
  have hstopped : ∀ returned, ¬ Behind windowStart s.files (s.bookmark.map Bookmark.lastExportedAt) →
      ∃ x ∈ windows windowStart s.files, ∀ gold, x ∈ gold.filterMap windowStart →
        ∃ (as : List (Action R)) (u : State R), (∀ c ∈ as, Undisturbed c) ∧
          Runs.run (step windowStart) { s with pc := .idle, returned := returned } (.refresh gold :: as) = some u ∧
          u.returned = some true ∧ ¬ (windows windowStart u.files).Nodup := by
    intro returned hbehind
    obtain ⟨hwm, hsome, x, hx, hlt⟩ := not_behind hbehind
    obtain ⟨b, hb, rfl⟩ := Option.map_eq_some_iff.mp hsome
    refine ⟨x, hx, fun gold hgold => ?_⟩
    obtain ⟨as, u, has, hrun, hu⟩ := not_nodup_of_ahead
      (s := { s with pc := .idle, returned := returned, gold := gold }) rfl hb hx hlt hgold
    exact ⟨as, u, has, Runs.run_cons.mpr ⟨_, rfl, hrun⟩, hu⟩
  cases Export.transition_of_step windowStart hstep with
  | raise hpc => exact hstopped _ h
  | kill => exact hstopped _ h
  | upsert newHwm counted hpc =>
      simp only [LeavesBehind, hpc] at h
      obtain ⟨hwm, hsome, x, hx, hlt⟩ := not_behind h
      obtain rfl := Option.some.inj hsome
      refine ⟨x, hx, fun gold hgold => ?_⟩
      obtain ⟨as, u, has, hrun, hu⟩ := not_nodup_of_ahead
        (s := { s with
          bookmark := some ⟨newHwm, if counted then Export.rowCount s.files else 0⟩
          pc := .idle
          returned := some true
          exported := s.exported ++ s.read
          gold := gold }) rfl rfl hx hlt hgold
      refine ⟨.upload :: as, u, List.forall_mem_cons.mpr ⟨trivial, has⟩, ?_, hu⟩
      exact Runs.run_cons.mpr ⟨_, rfl, Runs.run_cons.mpr ⟨_, rfl, hrun⟩⟩
  | _ => exact absurd trivial h

end Exact

/-- **No window twice**: after every export that returns True, in every run in which no step leaves a window
in the files ahead of the bookmark. A step that does leave one is made good by nothing: an export returns
True with that window twice if gold holds it by then. -/
theorem no_window_twice :
    (∀ (as : List (Action R)) (s : State R), Runs.run (step windowStart) Export.init (as ++ [.upload]) = some s →
        (∀ a ∈ as, Refreshes windowStart a) →
        Runs.Meets (step windowStart) (LeavesBehind windowStart) Export.init as →
        s.returned = some true ∧ (windows windowStart s.files).Nodup) ∧
      ∀ (s t : State R) (a : Action R), step windowStart s a = some t → ¬ LeavesBehind windowStart s a →
        ∃ x ∈ windows windowStart t.files, ∀ gold, x ∈ gold.filterMap windowStart →
          ∃ (as : List (Action R)) (u : State R), (∀ c ∈ as, Undisturbed c) ∧
            Runs.run (step windowStart) t (.refresh gold :: as) = some u ∧
            u.returned = some true ∧ ¬ (windows windowStart u.files).Nodup := by
  refine ⟨fun as s hrun hrefresh hleaves => ?_, fun s t a => doubled_of_not_leavesBehind⟩
  obtain ⟨v, hv, hstep⟩ := Runs.run_snoc.mp hrun
  have hinv := inv_run hleaves hrefresh hv
  cases Export.transition_of_step windowStart hstep with
  | upload hpc =>
      have hdistinct := hinv.distinct
      rw [Distinct, hpc] at hdistinct
      exact ⟨rfl, hdistinct.1⟩

/-- The first export is killed behind its write; the next one starts with an empty directory. -/
def killedFirst : List (Action (Instant × Nat)) :=
  [.refresh [(0, 1)], .begin, .rmtree, .read, .writePart 0, .kill, .begin, .rmtree, .read, .writePart 1,
    .now 30000000, .upsert true]

theorem no_window_twice_killedFirst :
    ∃ s, Runs.run (step fun row : Instant × Nat => some row.1) Export.init (killedFirst ++ [.upload]) = some s ∧
      s.returned = some true ∧ (windows (fun row : Instant × Nat => some row.1) s.files).Nodup := by
  obtain ⟨s, hs⟩ := Option.isSome_iff_exists.mp (by decide +kernel :
    (Runs.run (step fun row : Instant × Nat => some row.1) Export.init (killedFirst ++ [.upload])).isSome)
  refine ⟨s, hs, (no_window_twice _).1 killedFirst s hs (by simp [killedFirst, Refreshes]) ?_⟩
  iterate 5 refine (Runs.meets_cons rfl).mpr ⟨trivial, ?_⟩
  refine (Runs.meets_cons rfl).mpr ⟨fun hwm hnone => (by cases hnone), ?_⟩
  iterate 5 refine (Runs.meets_cons rfl).mpr ⟨trivial, ?_⟩
  refine (Runs.meets_cons rfl).mpr ⟨?_, trivial⟩
  show ∀ hwm ∈ some (30000000 : Instant), ∀ x ∈ [(0 : Instant)], x ≤ hwm
  simp

/-- The second export writes the window 00:01 and raises in the bookmark upsert, and a third is made. -/
def raisedUpsert : List (Action (Instant × Nat)) :=
  Export.firstExport ++ [.upload, .refresh [(0, 1), (60000000, 1)], .begin, .read, .writePart 1,
    .now 120000000, .raise, .begin, .read, .writePart 2, .now 180000000, .upsert true]

/-- The third export writes the window again and returns True. -/
theorem retry_doubles_window :
    (∀ a ∈ raisedUpsert, Refreshes (fun row : Instant × Nat => some row.1) a) ∧
      ∃ s, Runs.run (step fun row : Instant × Nat => some row.1) Export.init (raisedUpsert ++ [.upload]) = some s ∧
        s.returned = some true ∧
        windows (fun row : Instant × Nat => some row.1) s.files = [0, 60000000, 60000000] ∧
        ¬ (windows (fun row : Instant × Nat => some row.1) s.files).Nodup := by
  have hwindows : ¬ ([0, 60000000, 60000000] : List Instant).Nodup := by simp
  refine ⟨?_, _, rfl, rfl, rfl, hwindows⟩
  simp [raisedUpsert, Export.firstExport, Refreshes]

end CryptoLakehouse.Retry
