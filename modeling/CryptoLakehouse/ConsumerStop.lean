import CryptoLakehouse.ConsumerFifo
import Mathlib.Data.List.Nodup
import Mathlib.Data.List.Perm.Basic

/-! `stop()` against the adds and flushes of other threads. It cancels the one pending timer, but a flush that
has claimed its batch still runs its `finally`, and `_reset_timer` starts a timer whatever `_timer` is; and an
`add` that was called before may get the lock after `stop()`. -/

namespace CryptoLakehouse.BatchBuffer

variable {T M : Type}

/-- The only timer that may still fire is `self._timer`. -/
def OnePending (s : System T M) : Prop := ∀ k : Nat, s.timers[k]? = some .pending → s.obj.timer = some k

/-- A timer that is pending after `cancel` was pending before and is not `self._timer`. -/
theorem pending_of_cancelTimer {s : System T M} {k : Nat} (h : s.cancelTimer.timers[k]? = some .pending) :
    s.timers[k]? = some .pending ∧ s.obj.timer ≠ some k := by
  unfold System.cancelTimer at h
  split at h
  · rename_i hnone
    exact ⟨h, by simp [hnone]⟩
  · rename_i j hj
    by_cases heq : j = k
    · -- the cancelled timer is not pending, whatever it was
      subst heq
      rw [List.getElem?_modify_eq] at h
      cases hstate : s.timers[j]? with
      | none => simp [hstate] at h
      | some state => cases state <;> simp [hstate] at h
    · rw [List.getElem?_modify_ne _ _ heq] at h
      refine ⟨h, ?_⟩
      rw [hj]
      simpa using heq

theorem OnePending.cancelTimer {s : System T M} (h : OnePending s) (k : Nat) :
    s.cancelTimer.timers[k]? ≠ some .pending := by
  intro hpending
  obtain ⟨hbefore, hne⟩ := pending_of_cancelTimer hpending
  exact hne (h k hbefore)

theorem OnePending.resetTimer {s : System T M} (h : OnePending s) : OnePending s.resetTimer := by
  intro k hpending
  show some s.cancelTimer.timers.length = some k
  change (s.cancelTimer.timers ++ [TimerState.pending])[k]? = some .pending at hpending
  by_cases hlt : k < s.cancelTimer.timers.length
  · rw [List.getElem?_append_left hlt] at hpending
    exact absurd hpending (h.cancelTimer k)
  · have hle := (List.getElem?_eq_some_iff.mp hpending).1
    rw [List.length_append, List.length_singleton] at hle
    congr 1
    omega

variable [DecidableEq T]

theorem stop_eq {s s' : System T M} {t : T} (hstep : step s (.stop t) = some s') : s' = s.stop := by
  rw [step] at hstep
  split at hstep
  · exact (Option.some.inj hstep).symm
  · cases hstep

theorem resetTimer_step_eq {s s' : System T M} {th : Thread T} (hstep : step s (.resetTimer th) = some s') :
    s' = s.resetTimer.goto th .outside := by
  rw [step] at hstep
  split at hstep
  · exact (Option.some.inj hstep).symm
  · cases hstep

theorem onePending_step {s s' : System T M} {a : Action T M} (h : OnePending s)
    (hstep : step s a = some s') : OnePending s' := by
  cases a with
  | stop t =>
      rw [stop_eq hstep]
      exact fun k hpending => absurd hpending (h.cancelTimer k)
  | resetTimer th =>
      rw [resetTimer_step_eq hstep]
      exact h.resetTimer
  | expire k =>
      cases transition_of_step hstep with
      | expire k hpc hk =>
          intro j hpending
          by_cases heq : k = j
          · subst heq
            change (s.timers.set k TimerState.expired)[k]? = some .pending at hpending
            rw [List.getElem?_set] at hpending
            simp at hpending
          · change (s.timers.set k TimerState.expired)[j]? = some .pending at hpending
            rw [List.getElem?_set_ne heq] at hpending
            exact h j hpending
  | _ => cases transition_of_step hstep <;> exact h

theorem onePending_run {batchSize : Int} {as : List (Action T M)} {s : System T M}
    (hrun : Runs.run step (init batchSize) as = some s) : OnePending s := by
  refine Runs.invariant (I := OnePending) (fun s a t hs hstep => onePending_step hs hstep) ?_ hrun
  intro k hpending
  obtain ⟨hlt, -⟩ := List.getElem?_eq_some_iff.mp hpending
  have hone : (init batchSize : System T M).timers.length = 1 := rfl
  obtain rfl : k = 0 := by omega
  rfl

omit [DecidableEq T] in
theorem length_cancelTimer (s : System T M) : s.cancelTimer.timers.length = s.timers.length := by
  unfold System.cancelTimer
  split
  · rfl
  · exact List.length_modify ..

omit [DecidableEq T] in
/-- `stop` leaves the threads and the rest of the object alone. -/
theorem stop_eq_timers (s : System T M) :
    ∃ timers, s.stop = { s with obj := { s.obj with timer := none }, timers := timers } := by
  obtain ⟨timers, hcancel⟩ := System.cancelTimer_eq s
  rw [System.stop, hcancel]
  exact ⟨timers, rfl⟩

/-- The thread that calls `add`, `flush` or `stop`. -/
def Action.caller : Action T M → Option T
  | .add t _ | .flush t | .stop t => some t
  | _ => none

namespace Locking

section Code

/-- `waiting` has the calls of `add` that have not taken the lock yet. -/
structure State (T M : Type) where
  system : System T M
  waiting : List (T × M)

/-- `lock` is the locked section of a waiting `add` with what follows, `inside` any other step. -/
inductive Action (T M : Type) where
  | call (t : T) (m : M)
  | lock (i : Nat)
  | inside (a : BatchBuffer.Action T M)

def init (batchSize : Int) : State T M := ⟨BatchBuffer.init batchSize, []⟩

/-- The waiting calls get the lock in any order; a thread that waits does nothing else. -/
def step (s : State T M) : Action T M → Option (State T M)
  | .call t m =>
      match s.system.pc (.caller t) with
      | .outside => if t ∈ s.waiting.map Prod.fst then none else some { s with waiting := s.waiting ++ [(t, m)] }
      | _ => none
  | .lock i =>
      match s.waiting[i]? with
      | some (t, m) => (BatchBuffer.step s.system (.add t m)).map fun system => ⟨system, s.waiting.eraseIdx i⟩
      | none => none
  | .inside (.add _ _) => none
  | .inside a =>
      if ∃ call ∈ s.waiting, a.caller = some call.1 then none
      else (BatchBuffer.step s.system a).map fun system => { s with system := system }

/-- What a step is made of. -/
inductive Transition (s : State T M) : Action T M → State T M → Prop where
  | call (t : T) (m : M) (hpc : s.system.pc (.caller t) = .outside) (hfree : t ∉ s.waiting.map Prod.fst) :
      Transition s (.call t m) { s with waiting := s.waiting ++ [(t, m)] }
  | lock (i : Nat) (t : T) (m : M) (system : System T M) (hi : s.waiting[i]? = some (t, m))
      (hadd : BatchBuffer.step s.system (.add t m) = some system) :
      Transition s (.lock i) ⟨system, s.waiting.eraseIdx i⟩
  | inside (a : BatchBuffer.Action T M) (system : System T M) (hother : ∀ t m, a ≠ .add t m)
      (hfree : ∀ call ∈ s.waiting, a.caller ≠ some call.1) (hstep : BatchBuffer.step s.system a = some system) :
      Transition s (.inside a) { s with system := system }

theorem transition_of_step {s s' : State T M} {a : Action T M} (h : step s a = some s') : Transition s a s' := by
  cases a with
  | call t m =>
      simp only [step] at h
      split at h
      · split_ifs at h with hfree
        cases h
        exact .call t m ‹_› hfree
      · cases h
  | lock i =>
      simp only [step] at h
      split at h
      · obtain ⟨system, hadd, rfl⟩ := Option.map_eq_some_iff.mp h
        exact .lock i _ _ system ‹_› hadd
      · cases h
  | inside a =>
      cases a with
      | add t m => cases h
      | _ =>
          simp only [step] at h
          split_ifs at h with hbusy
          obtain ⟨system, hstep, rfl⟩ := Option.map_eq_some_iff.mp h
          exact .inside _ system (by simp) (fun call hcall heq => hbusy ⟨call, hcall, heq⟩) hstep

/-- A step of a thread that is in a method goes on whoever waits. -/
theorem step_inside {s : State T M} {a : BatchBuffer.Action T M} {system : System T M} (hcaller : a.caller = none)
    (hstep : BatchBuffer.step s.system a = some system) : step s (.inside a) = some { s with system := system } := by
  have hfree : ¬∃ call ∈ s.waiting, a.caller = some call.1 := by simp [hcaller]
  cases a with
  | add t m => cases hcaller
  | _ => simp only [step, if_neg hfree, hstep, Option.map_some]

end Code

section Runs

variable {s s' : State T M} {a : Action T M}

/-- The steps of the system in a step. -/
def State.does (s : State T M) : Action T M → List (BatchBuffer.Action T M)
  | .call _ _ => []
  | .lock i => (s.waiting[i]?).toList.map fun call => .add call.1 call.2
  | .inside a => [a]

/-- To wait for the lock is nothing to the system: its runs are those in which an `add` is called when it gets
the lock. -/
theorem system_run {batchSize : Int} {as : List (Action T M)} (hrun : Runs.run step (init batchSize) as = some s) :
    Runs.run BatchBuffer.step (BatchBuffer.init batchSize) (Runs.outputs step State.does (init batchSize) as) =
      some s.system := by
  refine Runs.run_outputs (I := fun _ => True) State.system (fun _ _ _ _ _ => trivial) ?_ trivial hrun
  intro v b w _ hstep
  cases transition_of_step hstep with
  | call t m hpc hfree => rfl
  | lock i t m system hi hadd =>
      rw [State.does, hi]
      exact Runs.run_singleton.trans hadd
  | inside b system hother hfree hb => exact Runs.run_singleton.trans hb

/-- A thread that waits is in no other method, and waits once. -/
structure Placed (s : State T M) : Prop where
  nodup : (s.waiting.map Prod.fst).Nodup
  outside : ∀ call ∈ s.waiting, s.system.pc (.caller call.1) = .outside

theorem placed_step (h : Placed s) (hstep : step s a = some s') : Placed s' := by
  cases transition_of_step hstep with
  | call t m hpc hfree =>
      refine ⟨?_, fun call hcall => ?_⟩
      · rw [List.map_append]
        exact List.Nodup.append h.nodup (List.nodup_singleton t) (by simpa using hfree)
      · rcases List.mem_append.mp hcall with hold | hnew
        · exact h.outside call hold
        · rw [List.mem_singleton.mp hnew]
          exact hpc
  | lock i t m system hi hadd =>
      obtain ⟨hlt, hat⟩ := List.getElem?_eq_some_iff.mp hi
      have hperm := List.getElem_cons_eraseIdx_perm hlt
      have hnodup := (hperm.map Prod.fst).nodup_iff.mpr h.nodup
      rw [List.map_cons, List.nodup_cons, hat] at hnodup
      refine ⟨hnodup.2, fun call hcall => ?_⟩
      have hne : call.1 ≠ t := by
        rintro rfl
        exact hnodup.1 (List.mem_map.mpr ⟨call, hcall, rfl⟩)
      have hcaller : (.caller call.1 : Thread T) ≠ (.caller t : Thread T) := by simpa using hne
      exact (pc_step hcaller hadd).trans (h.outside call (List.mem_of_mem_eraseIdx hcall))
  | inside b system hother hfree hb =>
      refine ⟨h.nodup, fun call hcall => ?_⟩
      have hpc := h.outside call hcall
      by_cases hactor : (.caller call.1 : Thread T) = b.actor
      · -- what a thread outside can do is to call a method
        have hcaller : b.caller = some call.1 := by
          cases b with
          | add t m | flush t | stop t =>
              cases hactor
              rfl
          | expire k => cases hactor
          | _ =>
              obtain rfl := hactor
              simp [BatchBuffer.step, hpc] at hb
        exact absurd hcaller (hfree call hcall)
      · exact (pc_step hactor hb).trans hpc

theorem placed_run {batchSize : Int} {as : List (Action T M)}
    (hrun : Runs.run step (init batchSize) as = some s) : Placed s :=
  Runs.invariant (s := (init batchSize : State T M)) (fun _ _ _ h hstep => placed_step h hstep)
    ⟨List.nodup_nil, fun _ hcall => absurd hcall List.not_mem_nil⟩ hrun

end Runs

section Final

/-- A call from outside that begins, as opposed to a step of a thread already inside a method or of a timer. -/
def Action.Begins : Action T M → Prop
  | .call .. | .inside (.flush _) => True
  | _ => False

/-- The step arms no timer and begins no `insert_batch` in a timer's thread. -/
def TimerSilent (s : State T M) (a : Action T M) : Prop :=
  ∀ s', step s a = some s' → s'.system.timers.length = s.system.timers.length ∧
    ∀ k batch, a = .inside (.claim (.timer k)) → s'.system.pc (.timer k) ≠ .inserting batch

/-- Whatever comes of the threads inside the methods, at whatever stage, no timer is armed again and no
`insert_batch` begins in a timer's thread, unless `add` or `flush` is called anew. -/
def Final (s : State T M) : Prop :=
  ∀ as, (∀ a ∈ as, ¬a.Begins) → Runs.Meets step TimerSilent s as

/-- No thread is between claiming a batch and the end of `_reset_timer`. -/
def Idle (s : State T M) : Prop := ∀ th, ¬(s.system.pc th).Holds ∧ s.system.pc th ≠ .rearming

/-- No flush will find a message: the buffer is empty and no `add` waits, or nobody stands before the lock of
`flush` and the waiting adds leave the buffer below `batch_size`. -/
def NothingToFlush (s : State T M) : Prop :=
  s.system.obj.buffer = [] ∧ s.waiting = [] ∨ (∀ th, s.system.pc th ≠ .entering) ∧
    (s.waiting = [] ∨ ((s.system.obj.buffer.length + s.waiting.length : Nat) : Int) < s.system.obj.batchSize)

def NothingRuns (s : State T M) : Prop := Idle s ∧ NothingToFlush s

/-- Nothing runs and no timer will fire. -/
structure Stopped (s : State T M) : Prop where
  nothingRuns : NothingRuns s
  not_pending : ∀ k : Nat, s.system.timers[k]? ≠ some .pending

end Final

section Stopped

variable {s s' : State T M} {a : Action T M}

omit [DecidableEq T] in
theorem nothingRuns_stop : NothingRuns ({ s with system := s.system.stop } : State T M) ↔ NothingRuns s := by
  obtain ⟨timers, hstop⟩ := stop_eq_timers s.system
  rw [hstop]
  rfl

omit [DecidableEq T] in
theorem Stopped.stop (h : Stopped s) : Stopped { s with system := s.system.stop } :=
  ⟨nothingRuns_stop.mpr h.nothingRuns, fun k hk => h.not_pending k (pending_of_cancelTimer hk).1⟩

/-- A flush that finds nothing. -/
theorem Stopped.goto (h : Stopped s) (th : Thread T) :
    Stopped { s with system := s.system.goto th .outside } := by
  have hgoto : ∀ th', (s.system.goto th .outside).pc th' = .outside ∨
      (s.system.goto th .outside).pc th' = s.system.pc th' := by
    intro th'
    by_cases heq : th' = th
    · exact .inl (heq ▸ s.system.goto_pc_self th .outside)
    · exact .inr (s.system.goto_pc_of_ne _ heq)
  obtain ⟨⟨hidle, hnothing⟩, hpending⟩ := h
  refine ⟨⟨fun th' => ?_, hnothing.imp_right fun hnone => ⟨fun th' => ?_, hnone.2⟩⟩, hpending⟩
  · rcases hgoto th' with hpc | hpc
    · show ¬((s.system.goto th .outside).pc th').Holds ∧ (s.system.goto th .outside).pc th' ≠ .rearming
      rw [hpc]
      exact ⟨id, by simp⟩
    · show ¬((s.system.goto th .outside).pc th').Holds ∧ (s.system.goto th .outside).pc th' ≠ .rearming
      rw [hpc]
      exact hidle th'
  · rcases hgoto th' with hpc | hpc
    · exact fun hentering => by cases hpc.symm.trans hentering
    · exact fun hentering => hnone.1 th' (hpc.symm.trans hentering)

/-- A waiting `add` gets the lock: its message stays in the buffer. -/
theorem Stopped.lock (h : Stopped s) {i : Nat} {t : T} {m : M} {system : System T M}
    (hi : s.waiting[i]? = some (t, m)) (hadd : BatchBuffer.step s.system (.add t m) = some system) :
    Stopped ⟨system, s.waiting.eraseIdx i⟩ ∧ system.timers.length = s.system.timers.length := by
  obtain ⟨⟨hidle, hnothing⟩, hpending⟩ := h
  obtain ⟨hlt, -⟩ := List.getElem?_eq_some_iff.mp hi
  have hne : s.waiting ≠ [] := List.ne_nil_of_length_pos (Nat.zero_lt_of_lt hlt)
  obtain ⟨hnone, hless⟩ : (∀ th, s.system.pc th ≠ .entering) ∧
      ((s.system.obj.buffer.length + s.waiting.length : Nat) : Int) < s.system.obj.batchSize := by
    rcases hnothing with ⟨-, hnil⟩ | ⟨hnone, hnil | hless⟩
    · exact absurd hnil hne
    · exact absurd hnil hne
    · exact ⟨hnone, hless⟩
  have hleft : (s.waiting.eraseIdx i).length + 1 = s.waiting.length := by
    rw [List.length_eraseIdx_of_lt hlt]
    omega
  cases BatchBuffer.transition_of_step hadd with
  | add t m hpc hsize =>
      refine ⟨⟨⟨hidle, Or.inr ⟨hnone, Or.inr ?_⟩⟩, hpending⟩, rfl⟩
      show (((s.system.obj.buffer ++ [m]).length + (s.waiting.eraseIdx i).length : Nat) : Int) <
        s.system.obj.batchSize
      rw [List.length_append, List.length_singleton]
      omega
  | addFull t m hpc hsize =>
      rw [List.length_append, List.length_singleton] at hsize
      omega

theorem stopped_step (h : Stopped s) (hbegins : ¬a.Begins) (hstep : step s a = some s') :
    Stopped s' ∧ s'.system.timers.length = s.system.timers.length := by
  cases transition_of_step hstep with
  | call t m hpc hfree => exact absurd trivial hbegins
  | lock i t m system hi hadd => exact h.lock hi hadd
  | inside b system hother hfree hb =>
      obtain ⟨⟨hidle, hnothing⟩, hpending⟩ := h
      have hholds : ∀ {th pc}, s.system.pc th = pc → ¬pc.Holds := fun {th pc} hpc => hpc ▸ (hidle th).1
      cases b with
      | add t m => exact absurd rfl (hother t m)
      | flush t => exact absurd trivial hbegins
      | stop t =>
          rw [stop_eq hb]
          exact ⟨Stopped.stop ⟨⟨hidle, hnothing⟩, hpending⟩, length_cancelTimer s.system⟩
      | claim th =>
          cases BatchBuffer.transition_of_step hb with
          | skip th hpc hguard => exact ⟨Stopped.goto ⟨⟨hidle, hnothing⟩, hpending⟩ th, rfl⟩
          | claim th hpc hopen hne =>
              rcases hnothing with ⟨hnil, -⟩ | ⟨hnone, -⟩
              · exact absurd hnil hne
              · exact absurd hpc (hnone th)
      | expire k =>
          cases BatchBuffer.transition_of_step hb with
          | expire k hpc hk => exact absurd hk (hpending k)
      | insertReturns th =>
          cases BatchBuffer.transition_of_step hb with
          | insertReturns th batch hpc => exact absurd trivial (hholds hpc)
      | insertRaises th =>
          cases BatchBuffer.transition_of_step hb with
          | insertRaises th batch hpc => exact absurd trivial (hholds hpc)
      | giveBack th =>
          cases BatchBuffer.transition_of_step hb with
          | giveBack th batch hpc => exact absurd trivial (hholds hpc)
      | release th =>
          cases BatchBuffer.transition_of_step hb with
          | release th hpc => exact absurd trivial (hholds hpc)
      | resetTimer th =>
          cases BatchBuffer.transition_of_step hb with
          | resetTimer th hpc => exact absurd hpc (hidle th).2

theorem Stopped.final (h : Stopped s) : Final s := by
  intro as hbegins
  induction as generalizing s with
  | nil => trivial
  | cons a as ih =>
      rw [List.forall_mem_cons] at hbegins
      refine ⟨fun s' hstep => ?_, fun s' hstep => ih (stopped_step h hbegins.1 hstep).1 hbegins.2⟩
      obtain ⟨hnext, hlength⟩ := stopped_step h hbegins.1 hstep
      refine ⟨hlength, fun k batch _ hpc => ?_⟩
      exact (hnext.nothingRuns.1 (.timer k)).1 (hpc ▸ trivial)

end Stopped

section Running

variable {s s' : State T M} {th : Thread T}

theorem not_final_of_step {a : Action T M} (hstep : step s a = some s') (hbegins : ¬a.Begins)
    (h : ¬Final s') : ¬Final s := by
  intro hfinal
  refine h fun as has => ?_
  exact (hfinal (a :: as) (List.forall_mem_cons.mpr ⟨hbegins, has⟩)).2 s' hstep

theorem not_final_rearming (hpc : s.system.pc th = .rearming) : ¬Final s := by
  intro hfinal
  have hstep : step s (.inside (.resetTimer th)) = some { s with system := s.system.resetTimer.goto th .outside } :=
    step_inside rfl (by rw [BatchBuffer.step, hpc])
  have hlength := ((hfinal [.inside (.resetTimer th)] (by simp [Action.Begins])).1 _ hstep).1
  change (s.system.cancelTimer.timers ++ [TimerState.pending]).length = _ at hlength
  rw [List.length_append, length_cancelTimer, List.length_singleton] at hlength
  omega

theorem not_final_releasing (hpc : s.system.pc th = .releasing) : ¬Final s := by
  have hstep : step s (.inside (.release th)) =
      some { s with system := { s.system with obj := s.system.obj.release }.goto th .rearming } :=
    step_inside rfl (by rw [BatchBuffer.step, hpc])
  exact not_final_of_step hstep id (not_final_rearming (System.goto_pc_self ..))

variable (th) in
/-- A flush that has claimed its batch re-arms the timer, whether its insert returns or raises. -/
theorem not_final_of_holds (hholds : (s.system.pc th).Holds) : ¬Final s := by
  cases hpc : s.system.pc th with
  | inserting batch =>
      have hstep : step s (.inside (.insertReturns th)) = some { s with
          system := { s.system with flushed := s.system.flushed ++ [batch] }.goto th .releasing } :=
        step_inside rfl (by rw [BatchBuffer.step, hpc])
      exact not_final_of_step hstep id (not_final_releasing (System.goto_pc_self ..))
  | raised batch =>
      have hstep : step s (.inside (.giveBack th)) = some { s with
          system := { s.system with obj := s.system.obj.giveBack batch }.goto th .releasing } :=
        step_inside rfl (by rw [BatchBuffer.step, hpc])
      exact not_final_of_step hstep id (not_final_releasing (System.goto_pc_self ..))
  | releasing => exact not_final_releasing hpc
  | outside | entering | rearming => simp [hpc, Pc.Holds] at hholds

theorem not_final_entering (hopen : s.system.obj.flushing = false) (hpc : s.system.pc th = .entering)
    (hne : s.system.obj.buffer ≠ []) : ¬Final s := by
  have hstep : step s (.inside (.claim th)) = some { s with system := { s.system with obj := { s.system.obj with
      flushing := true, buffer := [], isOverloaded := false } }.goto th (.inserting s.system.obj.buffer) } :=
    step_inside rfl (by simp only [BatchBuffer.step, hpc, Obj.claim_of_open hopen hne])
  refine not_final_of_step hstep id (not_final_of_holds th ?_)
  rw [System.goto_pc_self]
  trivial

/-- An `add` that waits gets the lock next. -/
theorem exists_lock {t : T} {m : M} {rest : List (T × M)} (hplaced : Placed s)
    (hwaiting : s.waiting = (t, m) :: rest) : ∃ u, step s (.lock 0) = some u ∧ u.waiting = rest ∧
      u.system.obj.buffer = s.system.obj.buffer ++ [m] ∧ u.system.obj.flushing = s.system.obj.flushing ∧
      u.system.obj.batchSize = s.system.obj.batchSize ∧
      (∀ th, s.system.pc th = .entering → u.system.pc th = .entering) ∧
      (s.system.obj.batchSize ≤ ((s.system.obj.buffer ++ [m]).length : Int) →
        u.system.pc (.caller t) = .entering) := by
  have hpc : s.system.pc (.caller t) = .outside :=
    hplaced.outside (t, m) (by rw [hwaiting]; exact List.mem_cons_self)
  have hother : ∀ th, s.system.pc th = .entering → th ≠ .caller t := by
    rintro th hentering rfl
    cases hpc.symm.trans hentering
  obtain ⟨system, hadd⟩ : ∃ system, BatchBuffer.step s.system (.add t m) = some system := by
    rw [BatchBuffer.step, hpc]
    exact ⟨_, rfl⟩
  have hstep : step s (.lock 0) = some ⟨system, rest⟩ := by
    simp only [step, hwaiting, List.getElem?_cons_zero, hadd, Option.map_some, List.eraseIdx_cons_zero]
  refine ⟨⟨system, rest⟩, hstep, rfl, ?_⟩
  cases BatchBuffer.transition_of_step hadd with
  | add t m hpc hsize =>
      exact ⟨rfl, rfl, rfl, fun th hentering => hentering, fun hfull => absurd hfull (Int.not_le.mpr hsize)⟩
  | addFull t m hpc hsize =>
      exact ⟨rfl, rfl, rfl, fun th hentering => (System.goto_pc_of_ne _ _ (hother th hentering)).trans hentering,
        fun _ => System.goto_pc_self ..⟩

/-- The message of a waiting `add` is there for a flush that is about to begin. -/
theorem not_final_waiting_entering (hplaced : Placed s) (hopen : s.system.obj.flushing = false)
    (hpc : s.system.pc th = .entering) (hne : s.waiting ≠ []) : ¬Final s := by
  obtain ⟨⟨t, m⟩, rest, hwaiting⟩ := List.exists_cons_of_ne_nil hne
  obtain ⟨u, hstep, -, hbuffer, hflushing, -, hentering, -⟩ := exists_lock hplaced hwaiting
  refine not_final_of_step hstep id (not_final_entering (hflushing.trans hopen) (hentering th hpc) ?_)
  rw [hbuffer]
  exact List.append_ne_nil_of_right_ne_nil _ (List.cons_ne_nil m [])

/-- Waiting adds that fill the buffer flush it. -/
theorem not_final_waiting_full (n : Nat) (hplaced : Placed s) (hopen : s.system.obj.flushing = false)
    (hn : s.waiting.length = n + 1)
    (hfull : s.system.obj.batchSize ≤ ((s.system.obj.buffer.length + s.waiting.length : Nat) : Int)) : ¬Final s := by
  induction n generalizing s with
  | zero =>
      obtain ⟨⟨t, m⟩, rest, hwaiting⟩ := List.exists_cons_of_length_eq_add_one hn
      obtain ⟨u, hstep, -, hbuffer, hflushing, -, -, hentering⟩ := exists_lock hplaced hwaiting
      rw [hn] at hfull
      refine not_final_of_step hstep id (not_final_entering (hflushing.trans hopen) (hentering ?_) ?_)
      · rw [List.length_append, List.length_singleton]
        exact hfull
      · rw [hbuffer]
        exact List.append_ne_nil_of_right_ne_nil _ (List.cons_ne_nil m [])
  | succ n ih =>
      obtain ⟨⟨t, m⟩, rest, hwaiting⟩ := List.exists_cons_of_length_eq_add_one hn
      obtain ⟨u, hstep, hrest, hbuffer, hflushing, hsize, -, -⟩ := exists_lock hplaced hwaiting
      have hlength : s.waiting.length = rest.length + 1 := by rw [hwaiting, List.length_cons]
      refine not_final_of_step hstep id (ih (placed_step hplaced hstep) (hflushing.trans hopen) ?_ ?_)
      · rw [hrest]
        omega
      · rw [hsize, hbuffer, hrest, List.length_append, List.length_singleton]
        omega

theorem nothingRuns_of_final (hlossless : LosslessFifo s.system) (hplaced : Placed s) (h : Final s) :
    NothingRuns s := by
  have hidle : Idle s :=
    fun th => ⟨fun hholds => not_final_of_holds th hholds h, fun hpc => not_final_rearming hpc h⟩
  have hopen : s.system.obj.flushing = false := hlossless.not_flushing_iff.mpr fun th => (hidle th).1
  refine ⟨hidle, ?_⟩
  by_cases hwaiting : s.waiting = []
  · by_cases hempty : s.system.obj.buffer = []
    · exact Or.inl ⟨hempty, hwaiting⟩
    · exact Or.inr ⟨fun th hpc => not_final_entering hopen hpc hempty h, Or.inl hwaiting⟩
  · refine Or.inr ⟨fun th hpc => not_final_waiting_entering hplaced hopen hpc hwaiting h, Or.inr ?_⟩
    by_contra hfull
    obtain ⟨n, hn⟩ := Nat.exists_eq_succ_of_ne_zero (mt List.length_eq_zero_iff.mp hwaiting)
    exact not_final_waiting_full n hplaced hopen hn (Int.not_lt.mp hfull) h

end Running

/-- `stop()` is final exactly when it finds nothing running: whoever is inside `add`, `flush` or `_reset_timer`,
before the lock or behind it. -/
theorem stop_final_iff {batchSize : Int} {as : List (Action T M)} {s s' : State T M} {t : T}
    (hrun : Runs.run step (init batchSize) as = some s) (hstop : step s (.inside (.stop t)) = some s') :
    Final s' ↔ NothingRuns s := by
  have hrun' : Runs.run step (init batchSize) (as ++ [.inside (.stop t)]) = some s' :=
    Runs.run_snoc.mpr ⟨s, hrun, hstop⟩
  have hsystem := system_run hrun
  have hsystem' := system_run hrun'
  have hplaced := placed_run hrun'
  obtain rfl : s' = { s with system := s.system.stop } := by
    cases transition_of_step hstop with
    | inside b system hother hfree hb => rw [stop_eq hb]
  constructor
  · exact fun hfinal => nothingRuns_stop.mp (nothingRuns_of_final (losslessFifo_run hsystem') hplaced hfinal)
  · intro hnothing
    have hstopped : Stopped ({ s with system := s.system.stop } : State T M) :=
      ⟨nothingRuns_stop.mpr hnothing, (onePending_run hsystem).cancelTimer⟩
    exact hstopped.final

/-- `flush()` and then `stop()` on the shutdown of an idle consumer, with an `add` of another thread that gets the
lock behind it. -/
theorem stop_final_iff_shutdown : ∃ s s' u : State Bool Nat,
    Runs.run step (init 200) [.call true 7, .lock 0, .inside (.flush true), .inside (.claim (.caller true)),
      .inside (.insertReturns (.caller true)), .inside (.release (.caller true)),
      .inside (.resetTimer (.caller true)), .call false 8] = some s ∧
    step s (.inside (.stop true)) = some s' ∧ step s' (.lock 0) = some u ∧ u.system.obj.buffer = [8] ∧ Final s' := by
  obtain ⟨s, s', u, hrun, hstop, hlock, hadded, hpc, hwaiting, hbuffer, hsize⟩ : ∃ s s' u : State Bool Nat,
      Runs.run step (init 200) [.call true 7, .lock 0, .inside (.flush true), .inside (.claim (.caller true)),
        .inside (.insertReturns (.caller true)), .inside (.release (.caller true)),
        .inside (.resetTimer (.caller true)), .call false 8] = some s ∧
      step s (.inside (.stop true)) = some s' ∧ step s' (.lock 0) = some u ∧ u.system.obj.buffer = [8] ∧
      (∀ th, s.system.pc th = .outside) ∧ s.waiting = [(false, 8)] ∧ s.system.obj.buffer = [] ∧
      s.system.obj.batchSize = 200 := by
    refine ⟨_, _, _, rfl, rfl, rfl, rfl, ?_, rfl, rfl, rfl⟩
    rintro (t | k)
    · cases t <;> rfl
    · rfl
  have hnothing : NothingRuns s := by
    refine ⟨fun th => by simp [hpc, Pc.Holds], Or.inr ⟨fun th => by simp [hpc], Or.inr ?_⟩⟩
    rw [hwaiting, hbuffer, hsize]
    decide
  exact ⟨s, s', u, hrun, hstop, hlock, hadded, (stop_final_iff hrun hstop).mpr hnothing⟩

/-- `stop()` while a timer's flush is in `insert_batch`: the flush re-arms the timer, and the timer fires. With
`batch_size = 1`, an `add` that waited for the lock re-arms it too. -/
theorem timer_survives_stop :
    (∃ s s' u : State Unit Nat,
      Runs.run step (init 200) [.call () 7, .lock 0, .inside (.expire 0), .inside (.claim (.timer 0))] = some s ∧
        step s (.inside (.stop ())) = some s' ∧ ¬Final s' ∧
        Runs.run step s' [.inside (.insertRaises (.timer 0)), .inside (.giveBack (.timer 0)),
          .inside (.release (.timer 0)), .inside (.resetTimer (.timer 0)), .inside (.expire 1),
          .inside (.claim (.timer 1))] = some u ∧ u.system.pc (.timer 1) = .inserting [7]) ∧
    ∃ s s' u : State Bool Nat, Runs.run step (init 1) [.call true 7] = some s ∧
      step s (.inside (.stop false)) = some s' ∧ ¬Final s' ∧
      Runs.run step s' [.lock 0, .inside (.claim (.caller true)), .inside (.insertReturns (.caller true)),
        .inside (.release (.caller true)), .inside (.resetTimer (.caller true))] = some u ∧
      u.system.timers[1]? = some .pending := by
  constructor
  · exact ⟨_, _, _, rfl, rfl, not_final_of_holds (.timer 0) trivial, rfl, rfl⟩
  · refine ⟨_, _, _, rfl, rfl, ?_, rfl, rfl⟩
    have hrun : Runs.run step (init 1 : State Bool Nat) [.call true 7, .inside (.stop false)] = some _ := rfl
    exact not_final_waiting_full 0 (placed_run hrun) rfl rfl (by decide)

end Locking

end CryptoLakehouse.BatchBuffer
