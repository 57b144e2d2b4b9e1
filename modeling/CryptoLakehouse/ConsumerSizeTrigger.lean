import CryptoLakehouse.ConsumerFifo
import Mathlib.Data.Finset.Insert

/-! The size trigger of `BatchBuffer`. A full buffer is watched by a thread that stands before the lock of
`flush`. When that thread finds another flush in progress it returns, and nobody looks at the size again when
the other flush ends. -/

namespace CryptoLakehouse.BatchBuffer

variable {T M : Type}

/-- No thread is inside `add` or `flush`. -/
def Quiescent (s : System T M) : Prop := ∀ th, s.pc th = .outside

/-- A quiescent buffer is not full. -/
def SizeTrigger (s : System T M) : Prop := Quiescent s → (s.obj.buffer.length : Int) < s.obj.batchSize

/-- `flush` takes its early return on `_flushing` with a full buffer, and no other thread stands before the
lock. -/
def LosesSize (s : System T M) (a : Action T M) : Prop :=
  ∃ th, a = .claim th ∧ s.obj.flushing = true ∧ s.obj.batchSize ≤ (s.obj.buffer.length : Int) ∧
    ∀ th', th' ≠ th → s.pc th' ≠ .entering

/-- No failed batch is on its way back. -/
def NoneRaised (s : System T M) : Prop := ∀ th batch, s.pc th ≠ .raised batch

/-- The invariant: a full buffer has a thread coming for it. -/
structure Watched (s : System T M) : Prop where
  batchSize_pos : 1 ≤ s.obj.batchSize
  entering : s.obj.batchSize ≤ (s.obj.buffer.length : Int) → ∃ th, s.pc th = .entering

theorem Watched.sizeTrigger {s : System T M} (h : Watched s) : SizeTrigger s := by
  intro hquiet
  apply Int.not_le.mp
  intro hfull
  obtain ⟨th, hth⟩ := h.entering hfull
  rw [hquiet th] at hth
  cases hth

theorem watched_of_lt {s : System T M} (hpos : 1 ≤ s.obj.batchSize)
    (hsize : (s.obj.buffer.length : Int) < s.obj.batchSize) : Watched s :=
  ⟨hpos, fun hfull => absurd hsize (Int.not_lt.mpr hfull)⟩

variable [DecidableEq T]

theorem noneRaised_step {s s' : System T M} {a : Action T M} (h : NoneRaised s)
    (hraises : ∀ th, a ≠ .insertRaises th) (hstep : step s a = some s') : NoneRaised s' := by
  have hgoto : ∀ (u : System T M) th pc, u.pc = s.pc → (∀ batch, pc ≠ .raised batch) →
      NoneRaised (u.goto th pc) := by
    intro u th pc hpc hafter th' batch
    by_cases heq : th' = th
    · rw [heq, u.goto_pc_self]
      exact hafter batch
    · rw [u.goto_pc_of_ne pc heq, hpc]
      exact h th' batch
  cases transition_of_step hstep with
  | add t m | stop t => exact h
  | insertRaises th => exact absurd rfl (hraises th)
  | _ => exact hgoto _ _ _ rfl (by simp)

/-- A thread that comes to the lock of `flush` watches whatever the buffer holds. -/
theorem watched_entering {s : System T M} (hpos : 1 ≤ s.obj.batchSize) (th : Thread T) :
    Watched (s.goto th .entering) := ⟨hpos, fun _ => ⟨th, s.goto_pc_self th _⟩⟩

/-- A thread that is not before the lock of `flush` moves without leaving the buffer unwatched. -/
theorem Watched.goto {s : System T M} (h : Watched s) {th : Thread T} (pc : Pc M)
    (hbefore : s.pc th ≠ .entering) : Watched (s.goto th pc) := by
  refine ⟨h.batchSize_pos, fun hfull => ?_⟩
  obtain ⟨th', hth'⟩ := h.entering hfull
  refine ⟨th', ?_⟩
  rwa [s.goto_pc_of_ne pc]
  rintro rfl
  exact hbefore hth'

theorem watched_step {s s' : System T M} {a : Action T M} (h : Watched s) (hraised : NoneRaised s)
    (hlost : ¬LosesSize s a) (hstep : step s a = some s') : Watched s' := by
  have hpos := h.batchSize_pos
  cases transition_of_step hstep with
  | add t m hpc hsize => exact watched_of_lt hpos hsize
  | addFull t m =>
      exact watched_entering (s := { s with obj := (s.obj.add m).1, added := s.added ++ [m] }) hpos _
  | flush t => exact watched_entering hpos _
  | stop t => exact ⟨hpos, h.entering⟩
  | expire k =>
      exact watched_entering (s := { s with timers := s.timers.set k .expired }) hpos _
  | skip th hpc hguard =>
      refine ⟨hpos, fun hfull => ?_⟩
      have hflushing : s.obj.flushing = true := by
        refine hguard.resolve_right fun hempty => ?_
        rw [System.goto_obj, hempty] at hfull
        exact absurd hfull (Int.not_le.mpr hpos)
      -- the early return is harmless when another thread is still to look at the buffer
      by_contra hnone
      refine hlost ⟨th, rfl, hflushing, hfull, fun th' hne hth' => hnone ⟨th', ?_⟩⟩
      rwa [s.goto_pc_of_ne _ hne]
  | claim th => exact watched_of_lt hpos hpos
  | insertReturns th batch hpc =>
      have hsame : Watched { s with flushed := s.flushed ++ [batch] } := ⟨hpos, h.entering⟩
      exact hsame.goto _ (by simp [hpc])
  | insertRaises th batch hpc => exact h.goto _ (by simp [hpc])
  | giveBack th batch hpc => exact absurd hpc (hraised th batch)
  | release th hpc =>
      have hsame : Watched { s with obj := s.obj.release } := ⟨hpos, h.entering⟩
      exact hsame.goto _ (by simp [hpc])
  | resetTimer th hpc timers k =>
      have hsame : Watched { s with obj := { s.obj with timer := some k }, timers := timers } :=
        ⟨hpos, h.entering⟩
      exact hsame.goto _ (by simp [hpc])

section Returns

variable {batchSize : Int} {as : List (Action T M)} {s : System T M}

/-- Every `insert_batch` of the run succeeds. -/
theorem meets_returns (hrun : Runs.run step (init batchSize) as = some s)
    (hraises : ∀ th, .insertRaises th ∉ as) :
    Runs.Meets step (fun _ a => ∀ th, a ≠ .insertRaises th) (init batchSize) as := by
  rw [Runs.meets_label hrun]
  rintro a ha th rfl
  exact hraises th ha

theorem noneRaised_run (hrun : Runs.run step (init batchSize) as = some s)
    (hraises : ∀ th, .insertRaises th ∉ as) : NoneRaised s := by
  refine Runs.invariant_of_meets (I := NoneRaised) ?_ ?_ (meets_returns hrun hraises) hrun
  · exact fun s a t hs ha hstep => noneRaised_step hs ha hstep
  · rintro th batch ⟨⟩

theorem watched_run (hsize : 1 ≤ batchSize) (hrun : Runs.run step (init batchSize) as = some s)
    (hraises : ∀ th, .insertRaises th ∉ as)
    (hmeets : Runs.Meets step (fun s a => ¬LosesSize s a) (init batchSize) as) : Watched s := by
  have hkeep : ∀ (s : System T M) a t, (Watched s ∧ NoneRaised s) →
      (¬LosesSize s a ∧ ∀ th, a ≠ .insertRaises th) → step s a = some t →
        Watched t ∧ NoneRaised t := by
    intro s a t hs ha hstep
    exact ⟨watched_step hs.1 hs.2 ha.1 hstep, noneRaised_step hs.2 ha.2 hstep⟩
  have hinit : Watched (init batchSize : System T M) ∧ NoneRaised (init batchSize : System T M) :=
    ⟨watched_of_lt hsize hsize, by rintro th batch ⟨⟩⟩
  exact (Runs.invariant_of_meets hkeep hinit (hmeets.and (meets_returns hrun hraises)) hrun).1

end Returns

section Finish

/-- A step inside a flush that has claimed its batch, on a database that takes it. -/
def Action.Finishes : Action T M → Prop
  | .insertReturns _ | .release _ | .resetTimer _ => True
  | _ => False

/-- One thread has left `flush`; the buffer and the other threads are as they were. -/
structure Leaves (s : System T M) (th : Thread T) (u : System T M) : Prop where
  outside : u.pc th = .outside
  others : ∀ th', th' ≠ th → u.pc th' = s.pc th'
  buffer_eq : u.obj.buffer = s.obj.buffer
  batchSize_eq : u.obj.batchSize = s.obj.batchSize

omit [DecidableEq T] in
/-- A step of the thread ahead of its leaving. -/
theorem Leaves.cons {s v u : System T M} {th : Thread T} (h : Leaves v th u)
    (hothers : ∀ th', th' ≠ th → v.pc th' = s.pc th') (hbuffer : v.obj.buffer = s.obj.buffer)
    (hsize : v.obj.batchSize = s.obj.batchSize) : Leaves s th u where
  outside := h.outside
  others th' hne := (h.others th' hne).trans (hothers th' hne)
  buffer_eq := h.buffer_eq.trans hbuffer
  batchSize_eq := h.batchSize_eq.trans hsize

theorem leaves_rearming {s : System T M} {th : Thread T} (hpc : s.pc th = .rearming) :
    ∃ u, Runs.run step s [.resetTimer th] = some u ∧ Leaves s th u := by
  obtain ⟨timers, k, -, hreset⟩ := s.resetTimer_eq
  have hstep : step s (.resetTimer th) = some (s.resetTimer.goto th .outside) := by rw [step, hpc]
  refine ⟨_, Runs.run_cons.mpr ⟨_, hstep, rfl⟩, ?_⟩
  rw [hreset]
  exact ⟨System.goto_pc_self .., fun th' hne => System.goto_pc_of_ne _ _ hne, rfl, rfl⟩

theorem leaves_releasing {s : System T M} {th : Thread T} (hpc : s.pc th = .releasing) :
    ∃ u, Runs.run step s [.release th, .resetTimer th] = some u ∧ Leaves s th u := by
  have hstep : step s (.release th) = some ({ s with obj := s.obj.release }.goto th .rearming) := by
    rw [step, hpc]
  obtain ⟨u, hrun, hleaves⟩ := leaves_rearming
    (s := { s with obj := s.obj.release }.goto th .rearming) (System.goto_pc_self ..)
  refine ⟨u, Runs.run_cons.mpr ⟨_, hstep, hrun⟩, hleaves.cons ?_ rfl rfl⟩
  exact fun th' hne => System.goto_pc_of_ne _ _ hne

theorem leaves_inserting {s : System T M} {th : Thread T} {batch : List M} (hpc : s.pc th = .inserting batch) :
    ∃ u, Runs.run step s [.insertReturns th, .release th, .resetTimer th] = some u ∧ Leaves s th u := by
  have hstep : step s (.insertReturns th) =
      some ({ s with flushed := s.flushed ++ [batch] }.goto th .releasing) := by rw [step, hpc]
  obtain ⟨u, hrun, hleaves⟩ := leaves_releasing
    (s := { s with flushed := s.flushed ++ [batch] }.goto th .releasing) (System.goto_pc_self ..)
  refine ⟨u, Runs.run_cons.mpr ⟨_, hstep, hrun⟩, hleaves.cons ?_ rfl rfl⟩
  exact fun th' hne => System.goto_pc_of_ne _ _ hne

theorem exists_leaves {s : System T M} {th : Thread T} (hentering : s.pc th ≠ .entering)
    (hraised : ∀ batch, s.pc th ≠ .raised batch) :
    ∃ as u, (∀ a ∈ as, a.Finishes) ∧ Runs.run step s as = some u ∧ Leaves s th u := by
  cases hpc : s.pc th with
  | outside => exact ⟨[], s, by simp, rfl, hpc, fun _ _ => rfl, rfl, rfl⟩
  | entering => exact absurd hpc hentering
  | inserting batch =>
      obtain ⟨u, hrun, hleaves⟩ := leaves_inserting hpc
      exact ⟨_, u, by simp [Action.Finishes], hrun, hleaves⟩
  | raised batch => exact absurd hpc (hraised batch)
  | releasing =>
      obtain ⟨u, hrun, hleaves⟩ := leaves_releasing hpc
      exact ⟨_, u, by simp [Action.Finishes], hrun, hleaves⟩
  | rearming =>
      obtain ⟨u, hrun, hleaves⟩ := leaves_rearming hpc
      exact ⟨_, u, by simp [Action.Finishes], hrun, hleaves⟩

/-- With no thread before the lock, the threads inside `flush` can all leave it, and the buffer stays. -/
theorem exists_quiescent {s : System T M} (inside : Finset (Thread T))
    (hinside : ∀ th, s.pc th ≠ .outside → th ∈ inside) (hentering : ∀ th, s.pc th ≠ .entering)
    (hraised : NoneRaised s) :
    ∃ as u, (∀ a ∈ as, a.Finishes) ∧ Runs.run step s as = some u ∧ Quiescent u ∧
      u.obj.buffer = s.obj.buffer ∧ u.obj.batchSize = s.obj.batchSize := by
  induction inside using Finset.induction_on generalizing s with
  | empty =>
      refine ⟨[], s, by simp, rfl, fun th => ?_, rfl, rfl⟩
      by_contra hth
      exact absurd (hinside th hth) (Finset.notMem_empty th)
  | insert th inside _ ih =>
      obtain ⟨as, v, has, hfirst, hleaves⟩ := exists_leaves (hentering th) (hraised th)
      have hpc : ∀ th', v.pc th' = .outside ∨ th' ≠ th ∧ v.pc th' = s.pc th' := by
        intro th'
        by_cases heq : th' = th
        · exact .inl (heq ▸ hleaves.outside)
        · exact .inr ⟨heq, hleaves.others th' heq⟩
      obtain ⟨bs, u, hbs, hrest, hquiet, hbuffer, hsize⟩ := ih (s := v)
        (fun th' hth' => by
          rcases hpc th' with hout | ⟨hne, hsame⟩
          · exact absurd hout hth'
          · rw [hsame] at hth'
            exact (Finset.mem_insert.mp (hinside th' hth')).resolve_left hne)
        (fun th' hth' => by
          rcases hpc th' with hout | ⟨-, hsame⟩
          · simp [hout] at hth'
          · exact hentering th' (hsame ▸ hth'))
        (fun th' batch hth' => by
          rcases hpc th' with hout | ⟨-, hsame⟩
          · simp [hout] at hth'
          · exact hraised th' batch (hsame ▸ hth'))
      refine ⟨as ++ bs, u, ?_, Runs.run_append.mpr ⟨v, hfirst, hrest⟩, hquiet, ?_, ?_⟩
      · exact List.forall_mem_append.mpr ⟨has, hbs⟩
      · exact hbuffer.trans hleaves.buffer_eq
      · exact hsize.trans hleaves.batchSize_eq

/-- Only threads that have taken a step are inside `flush`. -/
theorem exists_inside {batchSize : Int} {as : List (Action T M)} {s : System T M}
    (hrun : Runs.run step (init batchSize) as = some s) :
    ∃ inside : Finset (Thread T), ∀ th, s.pc th ≠ .outside → th ∈ inside := by
  refine Runs.invariant (I := fun s : System T M => ∃ inside : Finset (Thread T),
    ∀ th, s.pc th ≠ .outside → th ∈ inside) ?_ ⟨∅, fun th hth => absurd rfl hth⟩ hrun
  rintro s a t ⟨inside, hinside⟩ hstep
  refine ⟨insert a.actor inside, fun th hth => Finset.mem_insert.mpr ?_⟩
  by_cases heq : th = a.actor
  · exact .inl heq
  · rw [pc_step heq hstep] at hth
    exact .inr (hinside th hth)

/-- The step that loses the size leaves the buffer full, and the threads inside `flush` leave it so. -/
theorem full_after_loses {s s' : System T M} {a : Action T M} {inside : Finset (Thread T)}
    (hinside : ∀ th, s.pc th ≠ .outside → th ∈ inside) (hraised : NoneRaised s) (hlost : LosesSize s a)
    (hstep : step s a = some s') :
    ∃ bs u, (∀ b ∈ bs, b.Finishes) ∧ Runs.run step s' bs = some u ∧ Quiescent u ∧
      u.obj.batchSize ≤ (u.obj.buffer.length : Int) := by
  obtain ⟨th, rfl, hflushing, hfull, hothers⟩ := hlost
  have hraised' : NoneRaised s' := noneRaised_step hraised (by simp) hstep
  cases transition_of_step hstep with
  | claim th hpc hopen =>
      rw [hopen] at hflushing
      cases hflushing
  | skip th hpc =>
      obtain ⟨bs, u, hbs, hrun, hquiet, hbuffer, hsize⟩ := exists_quiescent (s := s.goto th .outside) inside
        (fun th' hth' => by
          by_cases heq : th' = th
          · rw [heq, s.goto_pc_self] at hth'
            exact absurd rfl hth'
          · rw [s.goto_pc_of_ne _ heq] at hth'
            exact hinside th' hth')
        (fun th' => by
          by_cases heq : th' = th
          · rw [heq, s.goto_pc_self]
            simp
          · rw [s.goto_pc_of_ne _ heq]
            exact hothers th' heq)
        hraised'
      refine ⟨bs, u, hbs, hrun, hquiet, ?_⟩
      rw [hbuffer, hsize]
      exact hfull

end Finish

/-- On a database that takes every batch, the size trigger holds in every state of a run in which no step
loses it, for a batch size of at least one; and from a step that loses it the threads already inside `flush`
leave the buffer full, with no thread coming for it. -/
theorem size_trigger_of_not_loses {batchSize : Int} {as : List (Action T M)} {s : System T M}
    (hrun : Runs.run step (init batchSize) as = some s) (hraises : ∀ th, .insertRaises th ∉ as) :
    (1 ≤ batchSize → Runs.Meets step (fun s a => ¬LosesSize s a) (init batchSize) as → SizeTrigger s) ∧
      (∀ a s', LosesSize s a → step s a = some s' → ∃ bs u, (∀ b ∈ bs, b.Finishes) ∧
        Runs.run step s' bs = some u ∧ ¬SizeTrigger u) ∧
      (batchSize < 1 → ¬SizeTrigger (init batchSize : System T M)) := by
  refine ⟨fun hsize hmeets => (watched_run hsize hrun hraises hmeets).sizeTrigger, ?_, ?_⟩
  · intro a s' hlost hstep
    obtain ⟨inside, hinside⟩ := exists_inside hrun
    obtain ⟨bs, u, hbs, hrest, hquiet, hfull⟩ :=
      full_after_loses hinside (noneRaised_run hrun hraises) hlost hstep
    exact ⟨bs, u, hbs, hrest, fun htrigger => Int.not_lt.mpr hfull (htrigger hquiet)⟩
  · intro hsize htrigger
    have hlt : ((0 : Nat) : Int) < batchSize := htrigger fun _ => rfl
    omega

/-- A second size flush waits for the lock while the first one is in `insert_batch`, and claims after it. -/
theorem size_trigger_of_not_loses_waits : ∃ s : System Nat Nat,
    Runs.run step (init 1) [.add 0 10, .claim (.caller 0), .add 1 11, .insertReturns (.caller 0),
      .release (.caller 0), .claim (.caller 1)] = some s ∧ SizeTrigger s := by
  obtain ⟨s, hrun⟩ := Option.isSome_iff_exists.mp (show (Runs.run step (init 1 : System Nat Nat)
    [.add 0 10, .claim (.caller 0), .add 1 11, .insertReturns (.caller 0), .release (.caller 0),
      .claim (.caller 1)]).isSome by decide)
  refine ⟨s, hrun, (size_trigger_of_not_loses hrun (by simp)).1 (by decide) ?_⟩
  have hother : ∀ (s : System Nat Nat) a, (∀ th, a ≠ .claim th) → ¬LosesSize s a :=
    fun s a ha ⟨th, hth, _⟩ => ha th hth
  have hopen : ∀ (s : System Nat Nat) a, s.obj.flushing = false → ¬LosesSize s a := by
    rintro s a hopen ⟨th, -, hflushing, -⟩
    rw [hopen] at hflushing
    cases hflushing
  refine (Runs.meets_cons rfl).mpr ⟨hother _ _ (by simp), ?_⟩
  refine (Runs.meets_cons rfl).mpr ⟨hopen _ _ rfl, ?_⟩
  iterate 3 refine (Runs.meets_cons rfl).mpr ⟨hother _ _ (by simp), ?_⟩
  exact (Runs.meets_cons rfl).mpr ⟨hopen _ _ rfl, trivial⟩

/-- The message that fills the buffer again comes while the first batch is in flight: its flush returns at
once, and a full buffer is left behind. -/
theorem size_trigger_lost : ∃ s : System Nat Nat,
    Runs.run step (init 1) [.add 0 10, .claim (.caller 0), .add 1 11, .claim (.caller 1),
      .insertReturns (.caller 0), .release (.caller 0), .resetTimer (.caller 0)] = some s ∧
      s.obj.buffer = [11] ∧ ¬SizeTrigger s := by
  refine ⟨_, rfl, rfl, fun htrigger => ?_⟩
  have hlt : (1 : Int) < 1 := htrigger (by rintro ((_ | _ | t) | k) <;> rfl)
  exact absurd hlt (by decide)

end CryptoLakehouse.BatchBuffer
