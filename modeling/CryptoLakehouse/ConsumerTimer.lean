import CryptoLakehouse.ConsumerFifo

/-! The time trigger of `BatchBuffer`. The timer is one-shot and only the end of a flush that claimed a
batch starts the next one, so what keeps it alive is either a pending timer or a thread still inside
`flush`. The early return on an empty buffer is the one step that can end both. -/

namespace CryptoLakehouse.BatchBuffer

variable {T M : Type}

def TimerPending (s : System T M) : Prop := ∃ k : Nat, s.timers[k]? = some .pending

/-- A buffered message that no running flush will look at has a timer coming for it. -/
def TimeTrigger (s : System T M) : Prop :=
  s.obj.buffer ≠ [] → (∀ th, s.pc th = .outside) → TimerPending s

/-- `flush` takes its early return on an empty buffer while no timer is pending and no other thread is
inside `flush`. With a batch size of at most one this does no harm: every `add` flushes. -/
def Disarms (s : System T M) (a : Action T M) : Prop :=
  ∃ th, a = .claim th ∧ 2 ≤ s.obj.batchSize ∧ s.obj.buffer = [] ∧ ¬TimerPending s ∧
    ∀ th', th' ≠ th → s.pc th' = .outside

theorem not_disarms_of_ne {s : System T M} {a : Action T M} (h : ∀ th, a ≠ .claim th) :
    ¬Disarms s a := fun ⟨th, hth, _⟩ => h th hth

/-- Something is still going to call `flush` or to finish it. -/
def Alive (s : System T M) : Prop := TimerPending s ∨ ∃ th, s.pc th ≠ .outside

/-- The invariant: the buffer is alive, or nothing waits in it and the next `add` will flush. -/
def Triggered (s : System T M) : Prop := Alive s ∨ s.obj.batchSize ≤ 1 ∧ s.obj.buffer = []

theorem Triggered.timeTrigger {s : System T M} (h : Triggered s) : TimeTrigger s := by
  intro hne houtside
  rcases h with (hpending | ⟨th, hth⟩) | ⟨-, hempty⟩
  · exact hpending
  · exact absurd (houtside th) hth
  · exact absurd hempty hne

variable [DecidableEq T]

theorem alive_goto (s : System T M) (th : Thread T) {pc : Pc M} (hpc : pc ≠ .outside) :
    Alive (s.goto th pc) := .inr ⟨th, by rwa [s.goto_pc_self]⟩

/-- Another thread inside `flush`, or a pending timer, survives a thread leaving. -/
theorem alive_leave {s : System T M} {th : Thread T}
    (h : TimerPending s ∨ ∃ th', th' ≠ th ∧ s.pc th' ≠ .outside) : Alive (s.goto th .outside) := by
  rcases h with hpending | ⟨th', hne, hth'⟩
  · exact .inl hpending
  · exact .inr ⟨th', by rwa [s.goto_pc_of_ne _ hne]⟩

/-- Only the disarming step and `stop` can leave the buffer without a trigger. -/
theorem triggered_step {s s' : System T M} {a : Action T M} (hlossless : LosslessFifo s)
    (h : Triggered s) (hdisarm : ¬Disarms s a) (hstop : ∀ t, a ≠ .stop t)
    (hstep : step s a = some s') : Triggered s' := by
  cases transition_of_step hstep with
  | add t m hpc hsize =>
      rcases h with halive | ⟨hone, -⟩
      · exact .inl halive
      · simp only [List.length_append, List.length_singleton] at hsize
        omega
  | addFull t m => exact .inl (alive_goto _ _ (by simp))
  | flush t => exact .inl (alive_goto _ _ (by simp))
  | stop t => exact absurd rfl (hstop t)
  | expire k => exact .inl (alive_goto _ _ (by simp))
  | skip th hpc hguard =>
      by_cases hother : TimerPending s ∨ ∃ th', th' ≠ th ∧ s.pc th' ≠ .outside
      · exact .inl (alive_leave hother)
      push Not at hother
      rcases hguard with hflushing | hempty
      · -- the flush in progress belongs to another thread, which is still inside
        obtain ⟨holder, hholds, -⟩ := hlossless.flushing_iff.mp hflushing
        by_cases heq : holder = th
        · simp [heq, hpc, Pc.Holds] at hholds
        · simp [hother.2 holder heq, Pc.Holds] at hholds
      · refine .inr ⟨?_, hempty⟩
        have hsize : ¬2 ≤ s.obj.batchSize := fun hsize =>
          hdisarm ⟨th, rfl, hsize, hempty, hother.1, hother.2⟩
        rw [System.goto_obj]
        omega
  | claim th => exact .inl (alive_goto _ _ (by simp))
  | insertReturns th batch => exact .inl (alive_goto _ _ (by simp))
  | insertRaises th batch => exact .inl (alive_goto _ _ (by simp))
  | giveBack th batch => exact .inl (alive_goto _ _ (by simp))
  | release th => exact .inl (alive_goto _ _ (by simp))
  | resetTimer th hpc timers k hk => exact .inl (.inl ⟨k, hk⟩)

theorem triggered_init (batchSize : Int) : Triggered (init batchSize : System T M) :=
  .inl (.inl ⟨0, rfl⟩)

/-- The run rule: the invariant carries the refinement along, which excludes a second flush. -/
theorem triggered_run {batchSize : Int} {as : List (Action T M)} {s : System T M}
    (hrun : Runs.run step (init batchSize) as = some s) (hstop : ∀ t, .stop t ∉ as)
    (hmeets : Runs.Meets step (fun s a => ¬Disarms s a) (init batchSize) as) : Triggered s := by
  have hnostop : Runs.Meets step (fun _ a => ∀ t, a ≠ .stop t) (init batchSize) as := by
    rw [Runs.meets_label hrun]
    rintro a ha t rfl
    exact hstop t ha
  have hkeep : ∀ (s : System T M) a s', (Triggered s ∧ ∃ q holder, Refines s holder q) →
      (¬Disarms s a ∧ ∀ t, a ≠ .stop t) → step s a = some s' →
        Triggered s' ∧ ∃ q holder, Refines s' holder q := by
    rintro s a s' ⟨htriggered, q, holder, href⟩ ⟨hdisarm, hstop⟩ hstep
    obtain ⟨-, q', -, holder', href'⟩ := refines_step href hstep
    exact ⟨triggered_step href.losslessFifo htriggered hdisarm hstop hstep, q', holder', href'⟩
  exact (Runs.invariant_of_meets hkeep ⟨triggered_init batchSize, _, _, refines_init batchSize⟩
    (hmeets.and hnostop) hrun).1

/-- After a disarming step every thread is outside, the buffer is empty and no timer is pending. -/
theorem dead_of_disarms {s s' : System T M} {a : Action T M} (h : Disarms s a)
    (hstep : step s a = some s') :
    (∀ th, s'.pc th = .outside) ∧ s'.obj = s.obj ∧ s'.obj.buffer = [] ∧ ¬TimerPending s' := by
  obtain ⟨th, rfl, -, hempty, hpending, hother⟩ := h
  cases transition_of_step hstep with
  | skip _ hpc =>
      refine ⟨fun th' => ?_, rfl, hempty, hpending⟩
      by_cases heq : th' = th
      · rw [heq, s.goto_pc_self]
      · rw [s.goto_pc_of_ne _ heq, hother th' heq]
  | claim _ _ _ hne => exact absurd hempty hne

/-- The message added next waits without a trigger. -/
theorem stranded_of_disarms {s s' : System T M} {a : Action T M} (h : Disarms s a)
    (hstep : step s a = some s') (t : T) (m : M) :
    ∃ u, step s' (.add t m) = some u ∧ ¬TimeTrigger u := by
  obtain ⟨houtside, hobj, hempty, hpending⟩ := dead_of_disarms h hstep
  have hsmall : ¬((s'.obj.buffer ++ [m]).length : Int) ≥ s'.obj.batchSize := by
    obtain ⟨-, -, hsize, -⟩ := h
    rw [hempty, hobj]
    simp only [List.nil_append, List.length_singleton]
    omega
  refine ⟨{ s' with obj := (s'.obj.add m).1, added := s'.added ++ [m] }, ?_, ?_⟩
  · simp only [step, houtside]
    rw [Obj.add, if_neg hsmall]
  · intro htrigger
    exact hpending (htrigger (by simp [Obj.add]) houtside)

/-- The time trigger holds in every state of a run without a disarming step, and a disarming step
leaves a state in which the next `add` breaks it. -/
theorem time_trigger_of_not_disarms {batchSize : Int} {as : List (Action T M)} {s : System T M}
    (hrun : Runs.run step (init batchSize) as = some s) (hstop : ∀ t, .stop t ∉ as) :
    (Runs.Meets step (fun s a => ¬Disarms s a) (init batchSize) as → TimeTrigger s) ∧
      ∀ a s', Disarms s a → step s a = some s' →
        ∀ t m, ∃ u, step s' (.add t m) = some u ∧ ¬TimeTrigger u :=
  ⟨fun hmeets => (triggered_run hrun hstop hmeets).timeTrigger,
    fun _ _ h hstep t m => stranded_of_disarms h hstep t m⟩

/-- The timer expires on a buffered message, and its flush fails and re-arms. -/
theorem time_trigger_of_not_disarms_expiry : ∃ s : System Unit Nat,
    Runs.run step (init 200) [.add () 7, .expire 0, .claim (.timer 0), .insertRaises (.timer 0),
      .giveBack (.timer 0), .release (.timer 0), .resetTimer (.timer 0)] = some s ∧ TimeTrigger s := by
  obtain ⟨s, hrun⟩ := Option.isSome_iff_exists.mp (show (Runs.run step (init 200 : System Unit Nat)
    [.add () 7, .expire 0, .claim (.timer 0), .insertRaises (.timer 0), .giveBack (.timer 0),
      .release (.timer 0), .resetTimer (.timer 0)]).isSome by decide)
  refine ⟨s, hrun, (time_trigger_of_not_disarms hrun (by simp)).1 ?_⟩
  iterate 2 refine (Runs.meets_cons rfl).mpr ⟨not_disarms_of_ne (by simp), ?_⟩
  refine (Runs.meets_cons rfl).mpr ⟨?_, ?_⟩
  · -- the expired timer finds the message in the buffer
    rintro ⟨th, -, -, hempty, -⟩
    cases hempty
  · refine Runs.Meets.mono (fun _ _ => not_disarms_of_ne) ?_
    simp [Runs.Meets]

/-- The only timer expires before the first message: the next message is never flushed by time. -/
theorem time_trigger_dies : ∃ s : System Unit Nat,
    Runs.run step (init 200) [.expire 0, .claim (.timer 0), .add () 7] = some s ∧ ¬TimeTrigger s := by
  refine ⟨_, rfl, fun htrigger => ?_⟩
  obtain ⟨k, hk⟩ := htrigger (List.cons_ne_nil 7 []) (by rintro (_ | _ | k) <;> rfl)
  rcases k with _ | k <;> cases hk

end CryptoLakehouse.BatchBuffer
