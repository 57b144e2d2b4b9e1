import Mathlib.Data.List.Basic
import Mathlib.Tactic.Common

/-! One connection to a transactional store. The first statement opens a transaction, a rejected statement
aborts it, and until it is rolled back or committed every further statement fails. What becomes of each
command is a reply of the environment; `D` is the content of the store. -/

namespace Transaction

variable {D : Type*}

inductive Status (D : Type*) where
  | idle
  | active (work : D)
  | aborted
  | closed

structure Session (D : Type*) where
  committed : D
  status : Status D

/-- `notSent` is an exception of the client ahead of the command; `lost` and `unseen` are a connection that
breaks before and after the server has acted. -/
inductive Reply where
  | done
  | rejected
  | notSent
  | lost
  | unseen
  deriving DecidableEq

inductive Error where
  | rejected
  | inFailedTransaction
  | client
  | disconnected
  deriving DecidableEq

namespace Session

/-- What the next statement sees. -/
def view (s : Session D) : D :=
  match s.status with
  | .active work => work
  | _ => s.committed

/-- A statement; `f` is `none` where the store rejects it. -/
def execute (reply : Reply) (f : D → Option D) (s : Session D) : Except Error Unit × Session D :=
  match s.status, reply with
  | .closed, _ => (.error .disconnected, s)
  | _, .notSent => (.error .client, s)
  | _, .lost | _, .unseen => (.error .disconnected, { s with status := .closed })
  | .aborted, _ => (.error .inFailedTransaction, s)
  | _, .rejected => (.error .rejected, { s with status := .aborted })
  | _, .done =>
      match f s.view with
      | some work => (.ok (), { s with status := .active work })
      | none => (.error .rejected, { s with status := .aborted })

/-- A commit. In an aborted transaction the server takes it for a rollback. -/
def commit (reply : Reply) (s : Session D) : Except Error Unit × Session D :=
  match s.status, reply with
  | .closed, _ => (.error .disconnected, s)
  | _, .notSent => (.error .client, s)
  | _, .lost => (.error .disconnected, { s with status := .closed })
  | .active work, .unseen => (.error .disconnected, ⟨work, .closed⟩)
  | _, .unseen => (.error .disconnected, { s with status := .closed })
  | .active work, .done => (.ok (), ⟨work, .idle⟩)
  | .active _, .rejected => (.error .rejected, { s with status := .idle })
  | _, _ => (.ok (), { s with status := .idle })

/-- Statements in order, up to the first that fails; the replies are counted from `k`. -/
def executeAll (replies : Nat → Reply) : Nat → List (D → Option D) → Session D →
    Except Error Unit × Session D
  | _, [], s => (.ok (), s)
  | k, f :: fs, s =>
      match s.execute (replies k) f with
      | (.ok (), t) => executeAll replies (k + 1) fs t
      | (.error e, t) => (.error e, t)

/-- The statements and a commit behind them. -/
def transact (replies : Nat → Reply) (fs : List (D → Option D)) (s : Session D) :
    Except Error Unit × Session D :=
  match s.executeAll replies 0 fs with
  | (.ok (), t) => t.commit (replies fs.length)
  | (.error e, t) => (.error e, t)

/-- What a list of statements does to the content, when the store accepts them all. -/
def effect : List (D → Option D) → D → Option D
  | [], d => some d
  | f :: fs, d => (f d).bind (effect fs)

/-- The server is up, so a command is done or rejected. -/
def Answered (replies : Nat → Reply) : Prop := ∀ k, replies k = .done ∨ replies k = .rejected

/-- Every statement is accepted; the replies are counted from `k`. -/
def Accepts (replies : Nat → Reply) : Nat → List (D → Option D) → D → Prop
  | _, [], _ => True
  | k, f :: fs, d => replies k = .done ∧ ∃ d', f d = some d' ∧ Accepts replies (k + 1) fs d'

section Lemmas

variable {s t : Session D} {reply : Reply} {replies : Nat → Reply} {f : D → Option D}
  {fs : List (D → Option D)} {k : Nat}

/-- No transaction is aborted and the connection stands. -/
def Open (s : Session D) : Prop := s.status = .idle ∨ ∃ work, s.status = .active work

theorem committed_execute : (s.execute reply f).2.committed = s.committed := by
  unfold execute
  split <;> try rfl
  split <;> rfl

theorem execute_ok (h : s.execute reply f = (.ok (), t)) :
    s.Open ∧ reply = .done ∧ ∃ work, f s.view = some work ∧ t = ⟨s.committed, .active work⟩ := by
  unfold execute at h
  split at h <;> try cases h
  rename_i hclosed haborted
  split at h
  · rename_i work hf
    cases h
    refine ⟨?_, rfl, work, hf, rfl⟩
    cases hstatus : s.status with
    | idle => exact .inl hstatus
    | active old => exact .inr ⟨old, hstatus⟩
    | aborted => exact absurd hstatus haborted
    | closed => exact absurd hstatus hclosed
  · cases h

theorem commit_ok {work : D} (hactive : s.status = .active work) (h : s.commit reply = (.ok (), t)) :
    reply = .done ∧ t = ⟨work, .idle⟩ := by
  obtain ⟨committed, status⟩ := s
  obtain rfl : status = .active work := hactive
  cases reply <;> cases h
  exact ⟨rfl, rfl⟩

theorem executeAll_ok (h : s.executeAll replies k fs = (.ok (), t)) :
    effect fs s.view = some t.view ∧ t.committed = s.committed ∧ (fs ≠ [] → t.status = .active t.view) := by
  induction fs generalizing s k with
  | nil =>
      cases h
      exact ⟨rfl, rfl, fun hne => absurd rfl hne⟩
  | cons f fs ih =>
      rw [executeAll] at h
      split at h
      · rename_i u hfirst
        obtain ⟨-, -, work, hwork, rfl⟩ := execute_ok hfirst
        obtain ⟨heffect, hcommitted, hactive⟩ := ih h
        refine ⟨by rw [effect, hwork]; exact heffect, hcommitted, fun _ => ?_⟩
        by_cases hfs : fs = []
        · subst hfs
          cases h
          rfl
        · exact hactive hfs
      · cases h

/-- A transaction that returns has its statements' effect committed. -/
theorem transact_ok (hne : fs ≠ []) (h : s.transact replies fs = (.ok (), t)) :
    ∃ work, effect fs s.view = some work ∧ t = ⟨work, .idle⟩ := by
  rw [transact] at h
  split at h
  · rename_i u hall
    obtain ⟨heffect, -, hactive⟩ := executeAll_ok hall
    exact ⟨u.view, heffect, (commit_ok (hactive hne) h).2⟩
  · cases h

theorem execute_done {work : D} (hopen : s.Open) (hf : f s.view = some work) :
    s.execute .done f = (.ok (), ⟨s.committed, .active work⟩) := by
  obtain ⟨committed, status⟩ := s
  rcases hopen with hstatus | ⟨old, hstatus⟩ <;> obtain rfl : status = _ := hstatus
  · simp only [execute, hf]
  · simp only [execute, hf]

theorem execute_aborts (hopen : s.Open) (h : reply = .rejected ∨ reply = .done ∧ f s.view = none) :
    s.execute reply f = (.error .rejected, { s with status := .aborted }) := by
  obtain ⟨committed, status⟩ := s
  rcases hopen with hstatus | ⟨old, hstatus⟩ <;> obtain rfl : status = _ := hstatus
  · rcases h with rfl | ⟨rfl, hf⟩
    · rfl
    · simp only [execute, hf]
  · rcases h with rfl | ⟨rfl, hf⟩
    · rfl
    · simp only [execute, hf]

variable (reply f) in
/-- In an aborted transaction nothing is accepted. -/
theorem execute_aborted (haborted : s.status = .aborted) : ∃ e, (s.execute reply f).1 = .error e := by
  obtain ⟨committed, status⟩ := s
  obtain rfl : status = .aborted := haborted
  cases reply <;> exact ⟨_, rfl⟩

variable (fs k) in
/-- On a server that is up the statements are all accepted, or the first that is not aborts. -/
theorem executeAll_answered (hopen : s.Open) (hanswered : Answered replies) :
    (Accepts replies k fs s.view ∧ ∃ t, s.executeAll replies k fs = (.ok (), t) ∧ t.Open ∧
        t.committed = s.committed) ∨
      (¬ Accepts replies k fs s.view ∧
        s.executeAll replies k fs = (.error .rejected, { s with status := .aborted })) := by
  induction fs generalizing s k with
  | nil => exact .inl ⟨trivial, s, rfl, hopen, rfl⟩
  | cons f fs ih =>
      rw [executeAll, Accepts]
      by_cases hfirst : ∃ work, replies k = .done ∧ f s.view = some work
      · obtain ⟨work, hreply, hwork⟩ := hfirst
        rw [hreply, execute_done hopen hwork]
        have hnext := ih (s := ⟨s.committed, .active work⟩) (k := k + 1) (.inr ⟨work, rfl⟩)
        rcases hnext with ⟨haccepts, hrun⟩ | ⟨hrejects, hrun⟩
        · exact .inl ⟨⟨rfl, work, hwork, haccepts⟩, hrun⟩
        · refine .inr ⟨?_, hrun⟩
          rintro ⟨-, work', hwork', haccepts⟩
          rw [hwork] at hwork'
          exact hrejects (Option.some.inj hwork' ▸ haccepts)
      · have hstop : replies k = .rejected ∨ replies k = .done ∧ f s.view = none := by
          rcases hanswered k with hdone | hrejected
          · refine .inr ⟨hdone, Option.eq_none_iff_forall_ne_some.mpr fun work hwork => ?_⟩
            exact hfirst ⟨work, hdone, hwork⟩
          · exact .inl hrejected
        rw [execute_aborts hopen hstop]
        refine .inr ⟨?_, rfl⟩
        rintro ⟨hdone, work, hwork, -⟩
        exact hfirst ⟨work, hdone, hwork⟩

/-- A whole transaction on a server that is up. A rejected commit is a rollback, a rejected statement
leaves the transaction aborted. -/
theorem transact_answered (hidle : s.status = .idle) (hanswered : Answered replies) (hne : fs ≠ []) :
    (Accepts replies 0 fs s.view ∧ replies fs.length = .done ∧
        ∃ work, s.transact replies fs = (.ok (), ⟨work, .idle⟩)) ∨
      (Accepts replies 0 fs s.view ∧ replies fs.length = .rejected ∧
        s.transact replies fs = (.error .rejected, s)) ∨
      (¬ Accepts replies 0 fs s.view ∧
        s.transact replies fs = (.error .rejected, { s with status := .aborted })) := by
  rw [transact]
  rcases executeAll_answered fs 0 (.inl hidle) hanswered with
    ⟨haccepts, t, hrun, -, hcommitted⟩ | ⟨hrejects, hrun⟩
  · obtain ⟨work, hwork⟩ : ∃ work, t.status = .active work := ⟨_, (executeAll_ok hrun).2.2 hne⟩
    obtain ⟨committed, status⟩ := t
    obtain rfl : status = .active work := hwork
    obtain rfl : committed = s.committed := hcommitted
    rcases hanswered fs.length with hdone | hrejected
    · refine .inl ⟨haccepts, hdone, ?_⟩
      rw [hrun, hdone]
      exact ⟨_, rfl⟩
    · refine .inr (.inl ⟨haccepts, hrejected, ?_⟩)
      rw [hrun, hrejected]
      obtain ⟨committed, status⟩ := s
      obtain rfl : status = .idle := hidle
      rfl
  · exact .inr (.inr ⟨hrejects, by rw [hrun]⟩)

/-- A property of the committed content and of what an open transaction has made of it. -/
def All (P : D → Prop) (s : Session D) : Prop := P s.committed ∧ ∀ work, s.status = .active work → P work

variable {P : D → Prop}

theorem All.view (h : All P s) : P s.view := by
  unfold Session.view
  split
  · rename_i work hstatus
    exact h.2 work hstatus
  · exact h.1

/-- Nothing is pending in a session that is not active. -/
theorem All.of_committed (h : P s.committed) (hstatus : ∀ work, s.status ≠ .active work) : All P s :=
  ⟨h, fun work hwork => absurd hwork (hstatus work)⟩

theorem All.imp {Q : D → Prop} (h : All P s) (hPQ : ∀ d, P d → Q d) : All Q s :=
  ⟨hPQ _ h.1, fun work hwork => hPQ work (h.2 work hwork)⟩

theorem All.execute (h : All P s) (hf : ∀ d d', P d → f d = some d' → P d') :
    All P (s.execute reply f).2 := by
  unfold Session.execute
  split <;> try exact h
  all_goals try exact All.of_committed h.1 (by simp)
  split
  · rename_i work hwork
    refine ⟨h.1, fun work' hwork' => ?_⟩
    cases hwork'
    exact hf s.view work h.view hwork
  · exact All.of_committed h.1 (by simp)

theorem All.commit (h : All P s) : All P (s.commit reply).2 := by
  unfold Session.commit
  split <;> try exact h
  all_goals try exact All.of_committed h.1 (by simp)
  all_goals
    rename_i work hstatus
    exact All.of_committed (h.2 work hstatus) (by simp)

/-- A statement that fails leaves an open transaction only as it was. -/
theorem execute_error {e : Error} (h : s.execute reply f = (.error e, t)) {work : D}
    (hwork : t.status = .active work) : t = s := by
  unfold execute at h
  split at h <;> try (cases h; rfl)
  all_goals try (cases h; cases hwork)
  split at h <;> cases h
  cases hwork

variable (s reply) in
theorem commit_outcome : ((s.commit reply).2.committed = s.committed ∨ (s.commit reply).2.committed = s.view) ∧
    ∀ work, (s.commit reply).2.status = .active work → s.status = .active work := by
  unfold commit
  split <;> try exact ⟨.inl rfl, fun work hwork => hwork⟩
  all_goals try exact ⟨.inl rfl, fun work hwork => by cases hwork⟩
  all_goals
    rename_i work hstatus
    exact ⟨.inr (by rw [view, hstatus]), fun work hwork => by cases hwork⟩

variable (s replies fs k) in
/-- However far the statements get, nothing is committed, and what is open is the effect of the first ones. -/
theorem executeAll_outcome : (s.executeAll replies k fs).2.committed = s.committed ∧
    ∀ work, (s.executeAll replies k fs).2.status = .active work →
      ∃ done, done <+: fs ∧ effect done s.view = some work := by
  induction fs generalizing s k with
  | nil =>
      refine ⟨rfl, fun work hwork => ⟨[], List.prefix_rfl, ?_⟩⟩
      rw [effect, view, show s.status = .active work from hwork]
  | cons f fs ih =>
      rw [executeAll]
      split <;> rename_i t hfirst
      · obtain ⟨-, -, work, hwork, rfl⟩ := execute_ok hfirst
        obtain ⟨hcommitted, hactive⟩ := ih ⟨s.committed, .active work⟩ (k + 1)
        refine ⟨hcommitted, fun work' hwork' => ?_⟩
        obtain ⟨done, hdone, heffect⟩ := hactive work' hwork'
        refine ⟨f :: done, List.cons_prefix_cons.mpr ⟨rfl, hdone⟩, ?_⟩
        rw [effect, hwork]
        exact heffect
      · rename_i e
        have hcommitted : t.committed = s.committed := by
          have hkept : (s.execute (replies k) f).2.committed = s.committed := committed_execute
          rw [← hkept, hfirst]
        refine ⟨hcommitted, fun work hwork => ⟨[], List.nil_prefix, ?_⟩⟩
        obtain rfl := execute_error hfirst hwork
        rw [effect, view, hwork]

variable (s replies fs) in
/-- However a transaction ends, what is committed is what was or the whole effect of its statements, and
what it leaves open is the effect of the first of them. -/
theorem transact_outcome : ((s.transact replies fs).2.committed = s.committed ∨
      effect fs s.view = some (s.transact replies fs).2.committed) ∧
    ∀ work, (s.transact replies fs).2.status = .active work →
      ∃ done, done <+: fs ∧ effect done s.view = some work := by
  obtain ⟨hcommitted, hactive⟩ := executeAll_outcome s replies fs 0
  rw [transact]
  split <;> rename_i t hall <;> rw [hall] at hcommitted hactive
  · obtain ⟨hend, hopen⟩ := commit_outcome t (replies fs.length)
    refine ⟨?_, fun work hwork => hactive work (hopen work hwork)⟩
    rcases hend with hold | hnew
    · exact .inl (hold.trans hcommitted)
    · rw [hnew]
      exact .inr (executeAll_ok hall).1
  · exact ⟨.inl hcommitted, hactive⟩

end Lemmas

end Session

end Transaction
