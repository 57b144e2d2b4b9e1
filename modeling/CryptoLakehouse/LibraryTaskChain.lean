import CryptoLakehouse.LibraryRuns
import Mathlib.Algebra.BigOperators.Group.Finset.Basic
import Mathlib.Algebra.Order.BigOperators.Group.Finset
import Mathlib.Data.List.Induction
import Mathlib.Logic.Function.Basic

/-! Tasks in a chain, for a scheduler with retries. What is relied on of a scheduler is said for tasks with any
dependencies; on a chain `step` makes every choice that a scheduler may make, so that what holds in all of its
runs holds in the runs of each. -/

namespace TaskChain

inductive Status where
  | waiting
  | running
  | retrying
  | success
  | failed
  | blocked
  deriving DecidableEq

/-- `failures` has the tasks that were given up, `outcome` says how the run has ended. -/
structure State where
  status : Nat → Status
  tries : Nat → Nat
  failures : List Nat
  outcome : Option Bool

inductive Action where
  | start (i : Nat)
  | succeed (i : Nat)
  | fail (i : Nat)
  | block (i : Nat)
  | finish
  deriving DecidableEq

def init : State := ⟨fun _ => .waiting, fun _ => 0, [], none⟩

section Code

variable (length retries : Nat)

def State.mark (s : State) (i : Nat) (status : Status) : State :=
  { s with status := Function.update s.status i status }

def State.attempt (s : State) (i : Nat) : State :=
  { s.mark i .running with tries := Function.update s.tries i (s.tries i + 1) }

/-- Every task ahead of this one has succeeded. -/
def State.Ready (s : State) (i : Nat) : Prop := i = 0 ∨ s.status (i - 1) = .success

/-- The task ahead of this one was given up or blocked. -/
def State.Stuck (s : State) (i : Nat) : Prop :=
  i ≠ 0 ∧ (s.status (i - 1) = .failed ∨ s.status (i - 1) = .blocked)

def Status.Terminal (status : Status) : Prop := status = .success ∨ status = .failed ∨ status = .blocked

instance (s : State) (i : Nat) : Decidable (s.Ready i) := inferInstanceAs (Decidable (_ ∨ _))
instance (s : State) (i : Nat) : Decidable (s.Stuck i) := inferInstanceAs (Decidable (_ ∧ _))
instance (status : Status) : Decidable status.Terminal := inferInstanceAs (Decidable (_ ∨ _))

def step (s : State) : Action → Option State
  | .start i =>
      if i < length ∧ s.outcome = none ∧ (s.status i = .retrying ∨ s.status i = .waiting ∧ s.Ready i) then
        some (s.attempt i)
      else none
  | .succeed i => if s.status i = .running then some (s.mark i .success) else none
  | .fail i =>
      if s.status i = .running then
        if s.tries i ≤ retries then some (s.mark i .retrying)
        else some { s.mark i .failed with failures := s.failures ++ [i] }
      else none
  | .block i => if i < length ∧ s.status i = .waiting ∧ s.Stuck i then some (s.mark i .blocked) else none
  | .finish =>
      if s.outcome = none ∧ ∀ i < length, (s.status i).Terminal then
        some { s with outcome := some (decide (∀ i < length, s.status i = .success)) }
      else none

/-- The steps with what each needs. -/
inductive Transition (s : State) : Action → State → Prop where
  | start (i : Nat) (hi : i < length) (hover : s.outcome = none)
      (hstatus : s.status i = .retrying ∨ s.status i = .waiting ∧ s.Ready i) :
      Transition s (.start i) (s.attempt i)
  | succeed (i : Nat) (hrunning : s.status i = .running) : Transition s (.succeed i) (s.mark i .success)
  | retry (i : Nat) (hrunning : s.status i = .running) (htries : s.tries i ≤ retries) :
      Transition s (.fail i) (s.mark i .retrying)
  | giveUp (i : Nat) (hrunning : s.status i = .running) (htries : retries < s.tries i) :
      Transition s (.fail i) { s.mark i .failed with failures := s.failures ++ [i] }
  | block (i : Nat) (hi : i < length) (hwaiting : s.status i = .waiting) (hstuck : s.Stuck i) :
      Transition s (.block i) (s.mark i .blocked)
  | finish (hover : s.outcome = none) (hterminal : ∀ i < length, (s.status i).Terminal) :
      Transition s .finish { s with outcome := some (decide (∀ i < length, s.status i = .success)) }

end Code

/-- What is relied on of a scheduler of `length` tasks, each `upstream` of others: an attempt starts when
everything upstream has succeeded, or follows one that has failed and that a retry is left for; only a running
attempt succeeds or fails; what is behind a task that was given up is blocked; and a run ends with all of its
tasks over, well when all have succeeded. No task is cleared, or marked, by hand. -/
structure Scheduler (length retries : Nat) (upstream : Nat → Nat → Prop)
    (sched : State → Action → Option State) : Prop where
  starts : ∀ s i t, sched s (.start i) = some t → i < length ∧ s.outcome = none ∧
    (s.status i = .retrying ∨ s.status i = .waiting ∧ ∀ j, upstream j i → s.status j = .success) ∧ t = s.attempt i
  succeeds : ∀ s i t, sched s (.succeed i) = some t → s.status i = .running ∧ t = s.mark i .success
  fails : ∀ s i t, sched s (.fail i) = some t → s.status i = .running ∧
    t = if s.tries i ≤ retries then s.mark i .retrying
      else { s.mark i .failed with failures := s.failures ++ [i] }
  blocks : ∀ s i t, sched s (.block i) = some t → i < length ∧ s.status i = .waiting ∧
    (∃ j, upstream j i ∧ (s.status j = .failed ∨ s.status j = .blocked)) ∧ t = s.mark i .blocked
  finishes : ∀ s t, sched s .finish = some t → s.outcome = none ∧ (∀ i < length, (s.status i).Terminal) ∧
    t = { s with outcome := some (decide (∀ i < length, s.status i = .success)) }

/-- Each task of a chain is upstream of the next. -/
def Follows (j i : Nat) : Prop := j + 1 = i

section Steps

variable {length retries : Nat} {s t : State} {a : Action}

theorem transition_of_step (h : step length retries s a = some t) : Transition length retries s a t := by
  cases a with
  | start i =>
      simp only [step] at h
      split_ifs at h with hstart
      cases h
      exact .start i hstart.1 hstart.2.1 hstart.2.2
  | succeed i =>
      simp only [step] at h
      split_ifs at h with hrunning
      cases h
      exact .succeed i hrunning
  | fail i =>
      simp only [step] at h
      split_ifs at h with hrunning htries
      · cases h
        exact .retry i hrunning htries
      · cases h
        exact .giveUp i hrunning (not_le.mp htries)
  | block i =>
      simp only [step] at h
      split_ifs at h with hblock
      cases h
      exact .block i hblock.1 hblock.2.1 hblock.2.2
  | finish =>
      simp only [step] at h
      split_ifs at h with hover
      cases h
      exact .finish hover.1 hover.2

theorem ready_iff_follows {i : Nat} : s.Ready i ↔ ∀ j, Follows j i → s.status j = .success := by
  constructor
  · intro hready j hfollows
    obtain rfl : j + 1 = i := hfollows
    exact hready.resolve_left (Nat.succ_ne_zero j)
  · intro hall
    cases i with
    | zero => exact Or.inl rfl
    | succ j => exact Or.inr (hall j rfl)

/-- A scheduler of a chain does nothing that `step` would not do. -/
theorem Scheduler.step_of_sched {sched : State → Action → Option State}
    (hsched : Scheduler length retries Follows sched) (h : sched s a = some t) : step length retries s a = some t := by
  cases a with
  | start i =>
      obtain ⟨hi, hover, hstatus, rfl⟩ := hsched.starts s i t h
      exact if_pos ⟨hi, hover, hstatus.imp_right fun hwaiting => ⟨hwaiting.1, ready_iff_follows.mpr hwaiting.2⟩⟩
  | succeed i =>
      obtain ⟨hrunning, rfl⟩ := hsched.succeeds s i t h
      exact if_pos hrunning
  | fail i =>
      obtain ⟨hrunning, rfl⟩ := hsched.fails s i t h
      rw [step, if_pos hrunning]
      split_ifs <;> rfl
  | block i =>
      obtain ⟨hi, hwaiting, ⟨j, hfollows, hstuck⟩, rfl⟩ := hsched.blocks s i t h
      obtain rfl : j + 1 = i := hfollows
      exact if_pos ⟨hi, hwaiting, Nat.succ_ne_zero j, hstuck⟩
  | finish =>
      obtain ⟨hover, hterminal, rfl⟩ := hsched.finishes s t h
      exact if_pos ⟨hover, hterminal⟩

/-- And `step` is a scheduler. -/
theorem scheduler_step (length retries : Nat) : Scheduler length retries Follows (step length retries) where
  starts s i t h := by
    cases transition_of_step h with
    | start i hi hover hstatus =>
        exact ⟨hi, hover, hstatus.imp_right fun hwaiting => ⟨hwaiting.1, ready_iff_follows.mp hwaiting.2⟩, rfl⟩
  succeeds s i t h := by
    cases transition_of_step h with
    | succeed i hrunning => exact ⟨hrunning, rfl⟩
  fails s i t h := by
    cases transition_of_step h with
    | retry i hrunning htries => exact ⟨hrunning, (if_pos htries).symm⟩
    | giveUp i hrunning htries => exact ⟨hrunning, (if_neg (not_le.mpr htries)).symm⟩
  blocks s i t h := by
    cases transition_of_step h with
    | block i hi hwaiting hstuck =>
        exact ⟨hi, hwaiting, ⟨i - 1, Nat.succ_pred_eq_of_ne_zero hstuck.1, hstuck.2⟩, rfl⟩
  finishes s t h := by
    cases transition_of_step h with
    | finish hover hterminal => exact ⟨hover, hterminal, rfl⟩

theorem quiet_of_step (h : step length retries s a = some t) (hfail : ∀ i, a ≠ .fail i) (hfinish : a ≠ .finish) :
    t.failures = s.failures ∧ t.outcome = s.outcome := by
  cases transition_of_step h with
  | retry i | giveUp i => exact absurd rfl (hfail i)
  | finish => exact absurd rfl hfinish
  | _ => exact ⟨rfl, rfl⟩

theorem mark_status (s : State) (i j : Nat) (status : Status) :
    (s.mark i status).status j = if j = i then status else s.status j := Function.update_apply ..

/-- A task comes to its success by the end of its attempt only. -/
theorem success_of_step (h : step length retries s a = some t) {i : Nat} (hsuccess : t.status i = .success) :
    s.status i = .success ∨ a = .succeed i := by
  have hother : ∀ j status, status ≠ .success → (s.mark j status).status i = .success → s.status i = .success := by
    intro j status hstatus hmark
    rw [mark_status] at hmark
    split_ifs at hmark
    · exact absurd hmark hstatus
    · exact hmark
  cases transition_of_step h with
  | start j => exact Or.inl (hother j .running (by simp) hsuccess)
  | succeed j hrunning =>
      rw [mark_status] at hsuccess
      split_ifs at hsuccess with hij
      · exact Or.inr (hij ▸ rfl)
      · exact Or.inl hsuccess
  | retry j | giveUp j | block j => exact Or.inl (hother j _ (by simp) hsuccess)
  | finish => exact Or.inl hsuccess

end Steps

/-- A task that was started at some time. -/
def Status.Begun (status : Status) : Prop := status ≠ .waiting ∧ status ≠ .blocked

/-- How many attempts a task may have had. -/
def TriesOk (retries : Nat) : Status → Nat → Prop
  | .waiting, tries | .blocked, tries => tries = 0
  | .running, tries | .success, tries => 1 ≤ tries ∧ tries ≤ retries + 1
  | .retrying, tries => 1 ≤ tries ∧ tries ≤ retries
  | .failed, tries => tries = retries + 1

section Invariant

variable (length retries : Nat)

structure Inv (s : State) : Prop where
  ahead : ∀ i j, i < j → (s.status j).Begun → s.status i = .success
  behind : ∀ i, s.status i = .blocked → ∃ j < i, s.status j = .failed
  inside : ∀ i, s.status i ≠ .waiting → i < length
  tries : ∀ i, TriesOk retries (s.status i) (s.tries i)
  failures : ∀ i, i ∈ s.failures ↔ s.status i = .failed
  once : s.failures.Nodup
  outcome : ∀ succeeded, s.outcome = some succeeded →
    (∀ i < length, (s.status i).Terminal) ∧ (succeeded = true ↔ ∀ i < length, s.status i = .success)

variable {length retries} {s t : State} {a : Action}

theorem inv_init : Inv length retries init where
  ahead i j _ hbegun := absurd rfl hbegun.1
  behind i hblocked := by cases hblocked
  inside i hstatus := absurd rfl hstatus
  tries i := rfl
  failures i := by simp [init]
  once := List.nodup_nil
  outcome succeeded hover := by cases hover

theorem Inv.over_eq_none (h : Inv length retries s) {i : Nat} (hi : i < length)
    (hstatus : ¬ (s.status i).Terminal) : s.outcome = none := by
  cases hover : s.outcome with
  | none => rfl
  | some succeeded => exact absurd ((h.outcome succeeded hover).1 i hi) hstatus

/-- A task that is not over changes its status. -/
theorem Inv.mark (h : Inv length retries s) {i : Nat} (status : Status) (tries : Nat) (failures : List Nat)
    (hi : i < length) (hnot : ¬ (s.status i).Terminal)
    (hahead : status.Begun → ∀ j < i, s.status j = .success)
    (hblocked : status = .blocked → ∃ j < i, s.status j = .failed) (htries : TriesOk retries status tries)
    (hfailures : ∀ j, j ∈ failures ↔ j ∈ s.failures ∨ j = i ∧ status = .failed) (honce : failures.Nodup) :
    Inv length retries { s with
      status := Function.update s.status i status
      tries := Function.update s.tries i tries
      failures := failures } := by
  have hat : ∀ j, Function.update s.status i status j = if j = i then status else s.status j :=
    fun j => Function.update_apply ..
  have hother : ∀ j, s.status j = .success ∨ s.status j = .failed → j ≠ i := by
    rintro j hj rfl
    exact hnot (hj.imp_right Or.inl)
  refine ⟨fun j k hjk hbegun => ?_, fun j hj => ?_, fun j hj => ?_, fun j => ?_, fun j => ?_, honce, ?_⟩
  · simp only [hat] at hbegun ⊢
    have hj : s.status j = .success := by
      by_cases hk : k = i
      · rw [if_pos hk] at hbegun
        exact hahead hbegun j (hk ▸ hjk)
      · rw [if_neg hk] at hbegun
        exact h.ahead j k hjk hbegun
    rw [if_neg (hother j (Or.inl hj)), hj]
  · simp only [hat] at hj ⊢
    obtain ⟨k, hk, hfailed⟩ : ∃ k < j, s.status k = .failed := by
      by_cases hji : j = i
      · rw [if_pos hji] at hj
        exact hji ▸ hblocked hj
      · rw [if_neg hji] at hj
        exact h.behind j hj
    exact ⟨k, hk, by rw [if_neg (hother k (Or.inr hfailed)), hfailed]⟩
  · simp only [hat] at hj
    by_cases hji : j = i
    · exact hji ▸ hi
    · rw [if_neg hji] at hj
      exact h.inside j hj
  · simp only [hat, Function.update_apply]
    split_ifs
    · exact htries
    · exact h.tries j
  · simp only [hat]
    rw [hfailures, h.failures]
    by_cases hji : j = i
    · rw [if_pos hji, hji]
      refine ⟨fun hor => ?_, fun hstatus => Or.inr ⟨rfl, hstatus⟩⟩
      exact hor.elim (fun hfailed => absurd rfl (hother i (Or.inr hfailed))) And.right
    · rw [if_neg hji]
      simp [hji]
  · intro succeeded hsome
    cases (h.over_eq_none hi hnot).symm.trans hsome

/-- The tasks ahead of one that is ready have succeeded. -/
theorem Inv.ahead_of_ready (h : Inv length retries s) {i : Nat} (hready : s.Ready i) :
    ∀ j < i, s.status j = .success := by
  intro j hj
  rcases hready with rfl | hprev
  · omega
  · rcases Nat.lt_or_eq_of_le (Nat.le_sub_one_of_lt hj) with hlt | rfl
    · exact h.ahead j (i - 1) hlt (by simp [hprev, Status.Begun])
    · exact hprev

/-- An attempt ends, well or not. -/
theorem Inv.settle (h : Inv length retries s) {i : Nat} (hrunning : s.status i = .running) (status : Status)
    (failures : List Nat) (hblocked : status ≠ .blocked) (htries : TriesOk retries status (s.tries i))
    (hfailures : ∀ j, j ∈ failures ↔ j ∈ s.failures ∨ j = i ∧ status = .failed) (honce : failures.Nodup) :
    Inv length retries { s.mark i status with failures := failures } := by
  have hmark := h.mark status (s.tries i) failures (h.inside i (by simp [hrunning]))
    (by simp [hrunning, Status.Terminal]) (fun _ j hj => h.ahead j i hj (by simp [hrunning, Status.Begun]))
    (fun heq => absurd heq hblocked) htries hfailures honce
  rwa [Function.update_eq_self] at hmark

theorem inv_step (h : Inv length retries s) (hstep : step length retries s a = some t) : Inv length retries t := by
  cases transition_of_step hstep with
  | start i hi hover hstatus =>
      have htries := h.tries i
      have hnone : ∀ j, j ∈ s.failures ↔ j ∈ s.failures ∨ j = i ∧ Status.running = .failed := by simp
      rcases hstatus with hretrying | ⟨hwaiting, hready⟩
      · rw [hretrying] at htries
        refine h.mark .running _ s.failures hi (by simp [hretrying, Status.Terminal]) (fun _ j hj => ?_) (by simp)
          ⟨Nat.le_add_left 1 _, Nat.succ_le_succ htries.2⟩ hnone h.once
        exact h.ahead j i hj (by simp [hretrying, Status.Begun])
      · rw [hwaiting] at htries
        refine h.mark .running _ s.failures hi (by simp [hwaiting, Status.Terminal]) (fun _ => h.ahead_of_ready hready)
          (by simp) ?_ hnone h.once
        rw [htries]
        exact ⟨le_rfl, Nat.le_add_left 1 _⟩
  | succeed i hrunning =>
      have htries := h.tries i
      rw [hrunning] at htries
      exact h.settle hrunning .success s.failures (by simp) htries (by simp) h.once
  | retry i hrunning hretries =>
      have htries := h.tries i
      rw [hrunning] at htries
      exact h.settle hrunning .retrying s.failures (by simp) ⟨htries.1, hretries⟩ (by simp) h.once
  | giveUp i hrunning hretries =>
      have htries := h.tries i
      rw [hrunning] at htries
      have hnew : i ∉ s.failures := by simp [h.failures, hrunning]
      exact h.settle hrunning .failed _ (by simp) (Nat.le_antisymm htries.2 hretries) (by simp)
        (List.nodup_append_comm.mp (List.nodup_cons.mpr ⟨hnew, h.once⟩))
  | block i hi hwaiting hstuck =>
      have htries := h.tries i
      rw [hwaiting] at htries
      have hfailed : ∃ j < i, s.status j = .failed := by
        obtain ⟨hne, hfailed | hblocked⟩ := hstuck
        · exact ⟨i - 1, by omega, hfailed⟩
        · obtain ⟨j, hj, hfailed⟩ := h.behind _ hblocked
          exact ⟨j, by omega, hfailed⟩
      have hmark := h.mark .blocked (s.tries i) s.failures hi (by simp [hwaiting, Status.Terminal])
        (fun hbegun => absurd rfl hbegun.2) (fun _ => hfailed) htries (by simp) h.once
      rwa [Function.update_eq_self] at hmark
  | finish hover hterminal =>
      refine ⟨h.ahead, h.behind, h.inside, h.tries, h.failures, h.once, fun succeeded hsome => ⟨hterminal, ?_⟩⟩
      rw [← Option.some.inj hsome, decide_eq_true_eq]

theorem inv_run {as : List Action} (h : Runs.run (step length retries) init as = some s) : Inv length retries s :=
  Runs.invariant (fun _ _ _ hs hstep => inv_step hs hstep) inv_init h

/-- No task starts while one is running. -/
theorem Inv.not_start (h : Inv length retries s) {i j : Nat} (hrunning : s.status i = .running) :
    ¬ (step length retries s (.start j) = some t) := by
  intro hstep
  have hbegun : (s.status i).Begun := by simp [hrunning, Status.Begun]
  have hahead : j < i → s.status j = .success := fun hlt => h.ahead j i hlt hbegun
  cases transition_of_step hstep with
  | start j hj hover hstatus =>
      rcases hstatus with hretrying | ⟨hwaiting, hready⟩
      · rcases Nat.lt_trichotomy j i with hlt | rfl | hlt
        · cases hretrying.symm.trans (hahead hlt)
        · cases hretrying.symm.trans hrunning
        · cases hrunning.symm.trans (h.ahead i j hlt (by simp [hretrying, Status.Begun]))
      · rcases Nat.lt_trichotomy j i with hlt | rfl | hlt
        · cases hwaiting.symm.trans (hahead hlt)
        · cases hwaiting.symm.trans hrunning
        · cases hrunning.symm.trans (h.ahead_of_ready hready i hlt)

/-- Two tasks never run at a time. -/
theorem Inv.running_unique (h : Inv length retries s) {i j : Nat} (hi : s.status i = .running)
    (hj : s.status j = .running) : i = j := by
  rcases Nat.lt_trichotomy i j with hlt | heq | hlt
  · cases hi.symm.trans (h.ahead i j hlt (by simp [hj, Status.Begun]))
  · exact heq
  · cases hj.symm.trans (h.ahead j i hlt (by simp [hi, Status.Begun]))

/-- What runs behind a step. -/
theorem Inv.running_step (h : Inv length retries s) (hstep : step length retries s a = some t) {i : Nat} :
    t.status i = .running ↔
      match a with
      | .start j => i = j
      | .succeed _ | .fail _ => False
      | .block _ | .finish => s.status i = .running := by
  have hsettled : ∀ {j} status, s.status j = .running → status ≠ .running →
      ((s.mark j status).status i = .running ↔ False) := by
    intro j status hrunning hother
    rw [mark_status]
    split_ifs with hij
    · exact iff_of_false hother id
    · exact iff_of_false (fun hi => hij (h.running_unique hi hrunning)) id
  cases transition_of_step hstep with
  | start j hj hover hstatus =>
      have hmark : (s.attempt j).status i = if i = j then .running else s.status i := mark_status s j i .running
      rw [hmark]
      split_ifs with hij
      · exact iff_of_true rfl hij
      · exact iff_of_false (fun hi => h.not_start hi hstep) hij
  | succeed j hrunning => exact hsettled .success hrunning (by simp)
  | retry j hrunning htries => exact hsettled .retrying hrunning (by simp)
  | giveUp j hrunning htries => exact hsettled .failed hrunning (by simp)
  | block j hj hwaiting hstuck =>
      rw [mark_status]
      split_ifs with hij
      · exact iff_of_false (by simp) (by simp [hij, hwaiting])
      · rfl
  | finish hover hterminal => rfl

theorem Inv.tries_eq_zero (h : Inv length retries s) {i : Nat} (hbegun : ¬ (s.status i).Begun) : s.tries i = 0 := by
  have htries := h.tries i
  cases hstatus : s.status i with
  | waiting | blocked => rwa [hstatus] at htries
  | running | retrying | success | failed => simp [hstatus, Status.Begun] at hbegun

theorem Inv.tries_le (h : Inv length retries s) (i : Nat) : s.tries i ≤ retries + 1 := by
  have htries := h.tries i
  cases hstatus : s.status i with
  | waiting | blocked =>
      rw [hstatus] at htries
      exact htries.le.trans (Nat.zero_le _)
  | running | success =>
      rw [hstatus] at htries
      exact htries.2
  | retrying =>
      rw [hstatus] at htries
      exact htries.2.trans (Nat.le_succ _)
  | failed =>
      rw [hstatus] at htries
      exact htries.le

/-- At most one task is given up. -/
theorem Inv.failures_length_le (h : Inv length retries s) : s.failures.length ≤ 1 := by
  by_contra hlong
  obtain ⟨i, hi⟩ := List.length_pos_iff_exists_mem.mp (Nat.zero_lt_of_lt (not_le.mp hlong))
  have hall : ∀ j ∈ s.failures, j = i := by
    intro j hj
    have hbegun : ∀ {k}, s.status k = .failed → (s.status k).Begun := fun hk => by simp [hk, Status.Begun]
    have hfi := (h.failures i).mp hi
    have hfj := (h.failures j).mp hj
    rcases Nat.lt_trichotomy j i with hlt | heq | hlt
    · cases hfj.symm.trans (h.ahead j i hlt (hbegun hfi))
    · exact heq
    · cases hfi.symm.trans (h.ahead i j hlt (hbegun hfj))
  have hsame : s.failures = List.replicate s.failures.length i := List.eq_replicate_of_mem hall
  have honce := h.once
  rw [hsame, List.nodup_replicate] at honce
  exact hlong honce

theorem Inv.failures_eq_nil (h : Inv length retries s) (hall : ∀ i < length, s.status i = .success) :
    s.failures = [] := by
  refine List.eq_nil_iff_forall_not_mem.mpr fun i hi => ?_
  have hfailed := (h.failures i).mp hi
  cases hfailed.symm.trans (hall i (h.inside i (by simp [hfailed])))

end Invariant

section Progress

variable (length retries : Nat)

/-- The steps that a task may still take. -/
def remaining : Status → Nat → Nat
  | .waiting, _ => 2 * (retries + 1)
  | .running, tries => 2 * (retries + 1 - tries) + 1
  | .retrying, tries => 2 * (retries + 1 - tries)
  | .success, _ | .failed, _ | .blocked, _ => 0

def work (s : State) : Nat :=
  (∑ i ∈ Finset.range length, remaining retries (s.status i) (s.tries i)) + if s.outcome = none then 1 else 0

variable {length retries} {s t : State} {a : Action}

/-- A step on one task that takes from what remains of it. -/
theorem work_lt {i : Nat} (hi : i < length) (hover : t.outcome = s.outcome)
    (hless : remaining retries (t.status i) (t.tries i) < remaining retries (s.status i) (s.tries i))
    (hother : ∀ j, j ≠ i → t.status j = s.status j ∧ t.tries j = s.tries j) :
    work length retries t < work length retries s := by
  rw [work, work, hover]
  apply Nat.add_lt_add_right
  apply Finset.sum_lt_sum
  · intro j _
    by_cases hji : j = i
    · rw [hji]
      exact hless.le
    · rw [(hother j hji).1, (hother j hji).2]
  · exact ⟨i, Finset.mem_range.mpr hi, hless⟩

/-- Every step is one of finitely many. -/
theorem work_step (h : Inv length retries s) (hstep : step length retries s a = some t) :
    work length retries t < work length retries s := by
  have hother : ∀ (status : Status) i j, j ≠ i → Function.update s.status i status j = s.status j :=
    fun status i j hji => Function.update_of_ne hji ..
  cases transition_of_step hstep with
  | start i hi hover hstatus =>
      have htries := h.tries i
      refine work_lt hi rfl ?_ fun j hji => ⟨hother _ i j hji, Function.update_of_ne hji ..⟩
      simp only [State.attempt, State.mark, Function.update_self, remaining]
      rcases hstatus with hretrying | ⟨hwaiting, -⟩
      · rw [hretrying] at htries ⊢
        obtain ⟨-, hle⟩ := htries
        show 2 * (retries + 1 - (s.tries i + 1)) + 1 < 2 * (retries + 1 - s.tries i)
        omega
      · rw [hwaiting] at htries ⊢
        have hzero : s.tries i = 0 := htries
        show 2 * (retries + 1 - (s.tries i + 1)) + 1 < 2 * (retries + 1)
        omega
  | succeed i hrunning =>
      refine work_lt (h.inside i (by simp [hrunning])) rfl ?_ fun j hji => ⟨hother _ i j hji, rfl⟩
      simp [State.mark, remaining, hrunning]
  | retry i hrunning hretries =>
      refine work_lt (h.inside i (by simp [hrunning])) rfl ?_ fun j hji => ⟨hother _ i j hji, rfl⟩
      simp [State.mark, remaining, hrunning]
  | giveUp i hrunning hretries =>
      refine work_lt (h.inside i (by simp [hrunning])) rfl ?_ fun j hji => ⟨hother _ i j hji, rfl⟩
      simp [State.mark, remaining, hrunning]
  | block i hi hwaiting hstuck =>
      refine work_lt hi rfl ?_ fun j hji => ⟨hother _ i j hji, rfl⟩
      simp [State.mark, remaining, hwaiting]
  | finish hover hterminal => simp [work, hover]

/-- A run has no more steps than its tasks have attempts, each with a start and an end. -/
theorem length_add_work_le {as : List Action} (h : Runs.run (step length retries) init as = some s) :
    as.length + work length retries s ≤ length * (2 * (retries + 1)) + 1 := by
  induction as using List.reverseRecOn generalizing s with
  | nil =>
      cases h
      simp [work, init, remaining]
  | append_singleton as a ih =>
      obtain ⟨t, hrun, hstep⟩ := Runs.run_snoc.mp h
      have hwork := work_step (inv_run hrun) hstep
      have hbefore := ih hrun
      rw [List.length_append, List.length_singleton]
      omega

end Progress

end TaskChain
