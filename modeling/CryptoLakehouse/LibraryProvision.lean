import CryptoLakehouse.LibraryRuns
import Mathlib.Data.List.Nodup
import Mathlib.Order.MinMax

/-! Provisioning by declarations. To declare what is there already changes nothing; other declarations may
be refused for what is there or what is missing. Runners go through one plan, each at its own pace; a
runner may stop anywhere and start over, and nothing that was declared is taken back. -/

namespace Provision

variable {D R : Type*} [DecidableEq D] [DecidableEq R]

def declare (refuses : List D → D → Bool) (made : List D) (d : D) : Option (List D) :=
  if d ∈ made then some made
  else if refuses made d then none
  else some (made ++ [d])

/-- `progress` counts the declarations of the plan that a runner has behind it. -/
structure State (D R : Type*) where
  made : List D
  progress : R → Option Nat
  refusals : List R

inductive Action (R : Type*) where
  | start (r : R)
  | declare (r : R)
  | stop (r : R)

def init : State D R := ⟨[], fun _ => none, []⟩

section Code

variable (refuses : List D → D → Bool) (plan : List D)

/-- A runner that is refused is off. -/
def step (s : State D R) : Action R → Option (State D R)
  | .start r =>
      match s.progress r with
      | none => some { s with progress := Function.update s.progress r (some 0) }
      | some _ => none
  | .declare r =>
      match s.progress r with
      | none => none
      | some k =>
          match plan[k]? with
          | none => none
          | some d =>
              match declare refuses s.made d with
              | some made => some { s with
                  made := made, progress := Function.update s.progress r (some (k + 1)) }
              | none => some { s with
                  progress := Function.update s.progress r none, refusals := s.refusals ++ [r] }
  | .stop r => some { s with progress := Function.update s.progress r none }

/-- A plan that a single runner gets through. -/
structure Feasible : Prop where
  nodup : plan.Nodup
  accepted : ∀ k d, plan[k]? = some d → refuses (plan.take k) d = false

/-- The plan has been carried out up to some point, and no runner is beyond it. -/
structure Inv (s : State D R) : Prop where
  made : s.made = plan.take s.made.length
  behind : ∀ r k, s.progress r = some k → k ≤ s.made.length
  refusals : s.refusals = []

end Code

section Invariant

variable {refuses : List D → D → Bool} {plan : List D} {s t : State D R} {a : Action R}

omit [DecidableEq D] [DecidableEq R] in
theorem inv_init : Inv plan (init : State D R) := by
  refine ⟨List.take_zero.symm, fun r k h => ?_, rfl⟩
  cases h

omit [DecidableEq D] in
/-- A runner goes to a place that is behind what is made. -/
theorem Inv.goto (h : Inv plan s) (r : R) {place : Option Nat} (hplace : ∀ k ∈ place, k ≤ s.made.length) :
    Inv plan { s with progress := Function.update s.progress r place } := by
  refine ⟨h.made, fun other k hk => ?_, h.refusals⟩
  have hat : Function.update s.progress r place other = some k := hk
  rw [Function.update_apply] at hat
  split_ifs at hat
  · exact hplace k hat
  · exact h.behind other k hat

theorem declare_of_mem {made : List D} {d : D} (h : d ∈ made) : declare refuses made d = some made := if_pos h

/-- What is left to declare of a plan that is carried out up to some point is there already, or comes next. -/
theorem Feasible.declare_take (hplan : Feasible refuses plan) {m k : Nat} (hk : k ≤ m) {d : D}
    (hd : plan[k]? = some d) :
    (k < m ∧ declare refuses (plan.take m) d = some (plan.take m)) ∨
      (k = m ∧ declare refuses (plan.take m) d = some (plan.take (m + 1))) := by
  obtain ⟨hlt, rfl⟩ := List.getElem?_eq_some_iff.mp hd
  rcases Nat.lt_or_eq_of_le hk with hbehind | rfl
  · refine Or.inl ⟨hbehind, declare_of_mem ?_⟩
    exact List.mem_take_iff_getElem.mpr ⟨k, lt_min hbehind hlt, rfl⟩
  · have hnew : plan[k] ∉ plan.take k := by
      intro hmem
      obtain ⟨j, hj, hsame⟩ := List.mem_take_iff_getElem.mp hmem
      have hindex := (List.Nodup.getElem_inj_iff hplan.nodup).mp hsame
      omega
    refine Or.inr ⟨rfl, ?_⟩
    rw [declare, if_neg hnew, hplan.accepted k _ hd, List.take_add_one, hd, Option.toList_some]
    rfl

theorem inv_step (hplan : Feasible refuses plan) (h : Inv plan s) (hstep : step refuses plan s a = some t) :
    Inv plan t := by
  cases a with
  | start r =>
      simp only [step] at hstep
      split at hstep <;> cases hstep
      exact h.goto r fun k hk => Option.some.inj hk ▸ Nat.zero_le _
  | stop r =>
      cases hstep
      exact h.goto r fun k hk => by cases hk
  | declare r =>
      simp only [step] at hstep
      split at hstep
      · cases hstep
      · rename_i k hprogress
        have hk := h.behind r k hprogress
        cases hd : plan[k]? with
        | none =>
            rw [hd] at hstep
            cases hstep
        | some d =>
            rw [hd] at hstep
            have hdeclare := hplan.declare_take hk hd
            rw [← h.made] at hdeclare
            rcases hdeclare with ⟨hbehind, hsame⟩ | ⟨rfl, hnext⟩
            · simp only [hsame] at hstep
              cases hstep
              exact h.goto r fun k' hk' => Option.some.inj hk' ▸ hbehind
            · simp only [hnext] at hstep
              cases hstep
              have hlt := (List.getElem?_eq_some_iff.mp hd).1
              have hlength : (plan.take (s.made.length + 1)).length = s.made.length + 1 :=
                List.length_take_of_le hlt
              have hgrown : Inv plan { s with made := plan.take (s.made.length + 1) } := by
                refine ⟨congrArg plan.take hlength.symm, fun other k hk => ?_, h.refusals⟩
                exact (h.behind other k hk).trans ((Nat.le_succ _).trans_eq hlength.symm)
              exact hgrown.goto r fun k' hk' => Option.some.inj hk' ▸ hlength.symm.le

omit [DecidableEq R] in
theorem made_isPrefix_declare {made made' : List D} {d : D} (h : declare refuses made d = some made') :
    made <+: made' := by
  rw [declare] at h
  split_ifs at h <;> cases h
  · exact List.prefix_rfl
  · exact List.prefix_append _ _

/-- Nothing is taken back. -/
theorem made_isPrefix_step (hstep : step refuses plan s a = some t) : s.made <+: t.made := by
  cases a with
  | start r =>
      simp only [step] at hstep
      split at hstep <;> cases hstep
      exact List.prefix_rfl
  | stop r =>
      cases hstep
      exact List.prefix_rfl
  | declare r =>
      simp only [step] at hstep
      split at hstep <;> try cases hstep
      split at hstep <;> try cases hstep
      split at hstep <;> cases hstep
      · exact made_isPrefix_declare ‹_›
      · exact List.prefix_rfl

omit [DecidableEq D] [DecidableEq R] in
/-- A runner that has got to the end has the whole plan carried out. -/
theorem Inv.made_eq (h : Inv plan s) {r : R} (hdone : s.progress r = some plan.length) : s.made = plan := by
  rw [h.made, List.take_of_length_le (h.behind r _ hdone)]

end Invariant

end Provision
