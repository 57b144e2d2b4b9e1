import Mathlib.Data.List.Basic
import Mathlib.Data.List.Forall2
import Mathlib.Tactic.Common

/-! Runs of a labelled partial step function. A label carries every choice of its step, so a run is
determined by its first state and its labels. The rules below are the induction over a run (an
invariant kept by the steps that meet a condition) and the simulation of one machine by another. -/

namespace Runs

variable {S A T B : Type*}

/-- The state reached from a state along a list of labels, when every step is enabled. -/
def run (step : S → A → Option S) : S → List A → Option S
  | s, [] => some s
  | s, a :: as => (step s a).bind fun t => run step t as

/-- Every step of the run meets the condition in the state before it. -/
def Meets (step : S → A → Option S) (C : S → A → Prop) : S → List A → Prop
  | _, [] => True
  | s, a :: as => C s a ∧ ∀ t, step s a = some t → Meets step C t as

section Basic

variable {step : S → A → Option S} {C : S → A → Prop}

@[simp] theorem run_nil (s : S) : run step s [] = some s := rfl

theorem run_cons {s u : S} {a : A} {as : List A} :
    run step s (a :: as) = some u ↔ ∃ t, step s a = some t ∧ run step t as = some u := by
  rw [run, Option.bind_eq_some_iff]

theorem run_singleton {s : S} {a : A} : run step s [a] = step s a := Option.bind_fun_some _

theorem run_append {s u : S} {as bs : List A} :
    run step s (as ++ bs) = some u ↔ ∃ t, run step s as = some t ∧ run step t bs = some u := by
  induction as generalizing s with
  | nil => simp
  | cons a as ih =>
      rw [List.cons_append, run_cons]
      constructor
      · rintro ⟨t, hstep, hrest⟩
        obtain ⟨v, hv, hu⟩ := ih.mp hrest
        exact ⟨v, run_cons.mpr ⟨t, hstep, hv⟩, hu⟩
      · rintro ⟨v, hv, hu⟩
        obtain ⟨t, hstep, hrest⟩ := run_cons.mp hv
        exact ⟨t, hstep, ih.mpr ⟨v, hrest, hu⟩⟩

theorem run_snoc {s u : S} {as : List A} {a : A} :
    run step s (as ++ [a]) = some u ↔ ∃ t, run step s as = some t ∧ step t a = some u := by
  rw [run_append]
  simp only [run_cons, run_nil, Option.some.injEq, exists_eq_right]

/-- The condition of a run whose first step is known. -/
theorem meets_cons {s t : S} {a : A} {as : List A} (h : step s a = some t) :
    Meets step C s (a :: as) ↔ C s a ∧ Meets step C t as := by
  rw [Meets]
  refine and_congr_right fun _ => ⟨fun hnext => hnext t h, fun ht u hu => ?_⟩
  rw [h] at hu
  cases hu
  exact ht

theorem meets_append {s t : S} {as bs : List A} (h : run step s as = some t) :
    Meets step C s (as ++ bs) ↔ Meets step C s as ∧ Meets step C t bs := by
  induction as generalizing s with
  | nil =>
      cases h
      simp [Meets]
  | cons a as ih =>
      obtain ⟨v, hstep, hrest⟩ := run_cons.mp h
      rw [List.cons_append, meets_cons hstep, meets_cons hstep, ih hrest, and_assoc]

theorem meets_snoc {s t : S} {as : List A} {a : A} (h : run step s as = some t) :
    Meets step C s (as ++ [a]) ↔ Meets step C s as ∧ C t a := by
  rw [meets_append h]
  simp [Meets]

theorem Meets.mono {C' : S → A → Prop} (hC : ∀ s a, C s a → C' s a) {s : S} {as : List A}
    (h : Meets step C s as) : Meets step C' s as := by
  induction as generalizing s with
  | nil => trivial
  | cons a as ih => exact ⟨hC s a h.1, fun t ht => ih (h.2 t ht)⟩

theorem meets_of_forall (hC : ∀ s a, C s a) (s : S) (as : List A) : Meets step C s as := by
  induction as generalizing s with
  | nil => trivial
  | cons a as ih => exact ⟨hC s a, fun t _ => ih t⟩

/-- A condition on labels alone is met exactly when every label meets it, on a run that exists. -/
theorem meets_label {P : A → Prop} {s t : S} {as : List A} (h : run step s as = some t) :
    Meets step (fun _ a => P a) s as ↔ ∀ a ∈ as, P a := by
  induction as generalizing s with
  | nil => simp [Meets]
  | cons a as ih =>
      obtain ⟨v, hstep, hrest⟩ := run_cons.mp h
      rw [List.forall_mem_cons, ← ih hrest, meets_cons hstep]

/-- Two conditions that agree under an invariant, which the steps that meet them keep, are met by the
same runs. -/
theorem meets_congr {I : S → Prop} {D : S → A → Prop} (hiff : ∀ s a, I s → (C s a ↔ D s a))
    (hkeep : ∀ s a t, I s → C s a → step s a = some t → I t) {s : S} {as : List A} (hs : I s) :
    Meets step C s as ↔ Meets step D s as := by
  induction as generalizing s with
  | nil => rfl
  | cons a as ih =>
      rw [Meets, Meets, ← hiff s a hs]
      exact and_congr_right fun hC => forall_congr' fun t => forall_congr' fun ht =>
        ih (hkeep s a t hs hC ht)

/-- A property of the state after every step of a run, as a condition of its steps. -/
theorem meets_after_iff {P : S → Prop} {s : S} {as : List A} :
    Meets step (fun s a => ∀ t, step s a = some t → P t) s as ↔
      ∀ done, done ≠ [] → done <+: as → ∀ t, run step s done = some t → P t := by
  induction as generalizing s with
  | nil =>
      refine iff_of_true trivial fun done hdone hgrows => ?_
      exact absurd (List.prefix_nil.mp hgrows) hdone
  | cons a as ih =>
      rw [Meets]
      constructor
      · rintro ⟨hfirst, hrest⟩ done hdone hgrows t ht
        obtain ⟨b, done, rfl⟩ := List.exists_cons_of_ne_nil hdone
        obtain ⟨rfl, htail⟩ := List.cons_prefix_cons.mp hgrows
        obtain ⟨v, hv, ht⟩ := run_cons.mp ht
        by_cases hlast : done = []
        · subst hlast
          cases ht
          exact hfirst t hv
        · exact ih.mp (hrest v hv) done hlast htail t ht
      · intro h
        refine ⟨fun t ht => ?_, fun t ht => ih.mpr fun done _ hgrows u hu => ?_⟩
        · exact h [a] (by simp) (by simp) t (run_cons.mpr ⟨t, ht, rfl⟩)
        · exact h (a :: done) (by simp) (List.cons_prefix_cons.mpr ⟨rfl, hgrows⟩) u
            (run_cons.mpr ⟨t, ht, hu⟩)

theorem Meets.and {D : S → A → Prop} {s : S} {as : List A} (hC : Meets step C s as)
    (hD : Meets step D s as) : Meets step (fun s a => C s a ∧ D s a) s as := by
  induction as generalizing s with
  | nil => trivial
  | cons a as ih => exact ⟨⟨hC.1, hD.1⟩, fun t ht => ih (hC.2 t ht) (hD.2 t ht)⟩

end Basic

section Rules

variable {step : S → A → Option S} {C : S → A → Prop} {I : S → Prop}

/-- An invariant of the steps that meet a condition holds at the end of every run whose steps all
meet it. Prefixes of such a run are such runs, so it holds in every state the run reaches. -/
theorem invariant_of_meets (hkeep : ∀ s a t, I s → C s a → step s a = some t → I t) {s t : S}
    {as : List A} (hs : I s) (hC : Meets step C s as) (h : run step s as = some t) : I t := by
  induction as generalizing s with
  | nil =>
      cases h
      exact hs
  | cons a as ih =>
      obtain ⟨v, hstep, hrest⟩ := run_cons.mp h
      exact ih (hkeep s a v hs hC.1 hstep) (hC.2 v hstep) hrest

/-- The unconditional rule. -/
theorem invariant (hkeep : ∀ s a t, I s → step s a = some t → I t) {s t : S} {as : List A}
    (hs : I s) (h : run step s as = some t) : I t :=
  invariant_of_meets (C := fun _ _ => True) (fun s a t hI _ => hkeep s a t hI) hs
    (meets_of_forall (fun _ _ => trivial) s as) h

/-- What every step climbs, every run climbs. -/
theorem climbs {G : S → S → Prop} (hrefl : ∀ s, G s s) (htrans : ∀ s t u, G s t → G t u → G s u)
    (hkeep : ∀ s a t, I s → C s a → step s a = some t → I t ∧ G s t) {s t : S} {as : List A} (hs : I s)
    (hC : Meets step C s as) (h : run step s as = some t) : G s t := by
  have hclimb : I t ∧ G s t := by
    refine invariant_of_meets (I := fun u => I u ∧ G s u) (fun u a v hu hcond hstep => ?_) ⟨hs, hrefl s⟩ hC h
    have hnext := hkeep u a v hu.1 hcond hstep
    exact ⟨hnext.1, htrans s u v hu.2 hnext.2⟩
  exact hclimb.2

/-- A machine that takes no step but those of another has no run but those of the other. -/
theorem run_of_run {step' : S → A → Option S} (hle : ∀ s a t, step' s a = some t → step s a = some t) {s t : S}
    {as : List A} (h : run step' s as = some t) : run step s as = some t := by
  induction as generalizing s with
  | nil => exact h
  | cons a as ih =>
      obtain ⟨v, hstep, hrest⟩ := run_cons.mp h
      exact run_cons.mpr ⟨v, hle s a v hstep, ih hrest⟩

/-- Forward simulation: when each step is matched by a run of the other machine, so is each run. -/
theorem simulation {step' : T → B → Option T} {R : S → T → Prop}
    (hmatch : ∀ s a s' t, R s t → step s a = some s' → ∃ bs t', run step' t bs = some t' ∧ R s' t')
    {s s' : S} {t : T} {as : List A} (hR : R s t) (h : run step s as = some s') :
    ∃ bs t', run step' t bs = some t' ∧ R s' t' := by
  induction as generalizing s t with
  | nil =>
      cases h
      exact ⟨[], t, rfl, hR⟩
  | cons a as ih =>
      obtain ⟨v, hstep, hrest⟩ := run_cons.mp h
      obtain ⟨bs, w, hw, hv⟩ := hmatch s a v t hR hstep
      obtain ⟨cs, t', ht', hs'⟩ := ih hv hrest
      exact ⟨bs ++ cs, t', run_append.mpr ⟨w, hw, ht'⟩, hs'⟩

/-- What a machine does to one of its parts: the steps that move the part are those of a machine of its
own, and its run is what is left of the labels. -/
theorem projection {step' : T → B → Option T} (part : S → T) {label : A → Option B}
    (hmoves : ∀ s a t b, step s a = some t → label a = some b → step' (part s) b = some (part t))
    (hstays : ∀ s a t, step s a = some t → label a = none → part t = part s) {s t : S} {as : List A}
    (h : run step s as = some t) : run step' (part s) (as.filterMap label) = some (part t) := by
  induction as generalizing s with
  | nil =>
      cases h
      rfl
  | cons a as ih =>
      obtain ⟨v, hv, hrest⟩ := run_cons.mp h
      cases hlabel : label a with
      | none =>
          rw [List.filterMap_cons_none hlabel, ← hstays s a v hv hlabel]
          exact ih hrest
      | some b =>
          rw [List.filterMap_cons_some hlabel]
          exact run_cons.mpr ⟨part v, hmoves s a v b hv hlabel, ih hrest⟩

/-- A property that each step keeps exactly when it meets the condition, under an invariant of all steps:
it holds at the end of the runs whose steps all meet the condition, and of no other. -/
theorem iff_meets {P : S → Prop} (hkeep : ∀ s a t, I s → step s a = some t → I t)
    (hstep : ∀ s a t, I s → step s a = some t → (P t ↔ P s ∧ C s a)) {s t : S} {as : List A} (hs : I s)
    (hP : P s) (h : run step s as = some t) : P t ↔ Meets step C s as := by
  have hall : P t ↔ P s ∧ Meets step C s as := by
    clear hP
    induction as generalizing s with
    | nil =>
        cases h
        exact (and_iff_left trivial).symm
    | cons a as ih =>
        obtain ⟨v, hv, hrest⟩ := run_cons.mp h
        rw [ih (hkeep s a v hs hv) hrest, hstep s a v hs hv, meets_cons hv, and_assoc]
  rw [hall, and_iff_right hP]

/-- Two machines on the same labels: when what is observed of a step tells whether it meets the condition,
and the steps that meet it are the same in both, the runs are observed to agree at every step exactly when
each step meets the condition. -/
theorem agree_iff_meets {O : Type*} {step' : S → A → Option S} {observe : S → O}
    (hsame : ∀ s a, C s a → step s a = step' s a)
    (htells : ∀ s a, (step s a).map observe = (step' s a).map observe → C s a) {s : S} {as : List A} :
    (∀ done, done <+: as → (run step s done).map observe = (run step' s done).map observe) ↔
      Meets step C s as := by
  induction as generalizing s with
  | nil =>
      refine iff_of_true (fun done hdone => ?_) trivial
      rw [List.prefix_nil.mp hdone]
      rfl
  | cons a as ih =>
      constructor
      · intro h
        have hfirst := h [a] (List.cons_prefix_cons.mpr ⟨rfl, List.nil_prefix⟩)
        rw [run_singleton, run_singleton] at hfirst
        have hC := htells s a hfirst
        refine ⟨hC, fun t ht => ih.mp fun done hdone => ?_⟩
        have hnext := h (a :: done) (List.cons_prefix_cons.mpr ⟨rfl, hdone⟩)
        rwa [run, run, ← hsame s a hC, ht] at hnext
      · rintro ⟨hC, hrest⟩ done hdone
        cases done with
        | nil => rfl
        | cons b done =>
            obtain ⟨rfl, htail⟩ := List.cons_prefix_cons.mp hdone
            rw [run, run, ← hsame s b hC]
            cases ht : step s b with
            | none => rfl
            | some t => exact ih.mpr (hrest t ht) done htail

end Rules

section Histories

variable {step : S → A → Option S}

/-- What the steps of a run put out, each in the state before it. -/
def outputs (step : S → A → Option S) (out : S → A → List B) : S → List A → List B
  | _, [] => []
  | s, a :: as =>
      out s a ++
        match step s a with
        | some t => outputs step out t as
        | none => []

/-- A history has what the steps of the run have put out, in their order. -/
theorem history_run {out : S → A → List B} (history : S → List B)
    (happends : ∀ s a t, step s a = some t → history t = history s ++ out s a) {s t : S} {as : List A}
    (h : run step s as = some t) : history t = history s ++ outputs step out s as := by
  induction as generalizing s with
  | nil =>
      cases h
      exact (List.append_nil _).symm
  | cons a as ih =>
      obtain ⟨v, hstep, hrest⟩ := run_cons.mp h
      calc history t = history v ++ outputs step out v as := ih hrest
        _ = history s ++ out s a ++ outputs step out v as := by rw [happends s a v hstep]
        _ = history s ++ outputs step out s (a :: as) := by rw [outputs, hstep, List.append_assoc]

/-- What the labels alone say is the same wherever the run begins. -/
theorem outputs_label {out : A → List B} {s t : S} {as : List A} (h : run step s as = some t) :
    outputs step (fun _ a => out a) s as = as.flatMap out := by
  induction as generalizing s with
  | nil => rfl
  | cons a as ih =>
      obtain ⟨v, hstep, hrest⟩ := run_cons.mp h
      rw [outputs, hstep, List.flatMap_cons]
      exact congrArg (out a ++ ·) (ih hrest)

/-- A part of a machine that is a machine of its own: when what each step puts out are steps of the part, the
run of the part is all of these in their order. -/
theorem run_outputs {step' : T → B → Option T} {I : S → Prop} (part : S → T) {out : S → A → List B}
    (hkeep : ∀ s a t, I s → step s a = some t → I t)
    (hmatch : ∀ s a t, I s → step s a = some t → run step' (part s) (out s a) = some (part t)) {s t : S}
    {as : List A} (hs : I s) (h : run step s as = some t) :
    run step' (part s) (outputs step out s as) = some (part t) := by
  induction as generalizing s with
  | nil =>
      cases h
      rfl
  | cons a as ih =>
      obtain ⟨v, hstep, hrest⟩ := run_cons.mp h
      rw [outputs, hstep]
      exact run_append.mpr ⟨part v, hmatch s a v hs hstep, ih (hkeep s a v hs hstep) hrest⟩

end Histories

section Since

/-- A step of the run was as `P` says, and none behind it as `R` says. -/
def Since (step : S → A → Option S) (P : S → A → Prop) (R : A → Prop) (s : S) (as : List A) : Prop :=
  ∃ before a behind t, as = before ++ a :: behind ∧ run step s before = some t ∧ P t a ∧ ∀ b ∈ behind, ¬R b

variable {step : S → A → Option S} {P : S → A → Prop} {R : A → Prop} {s t : S} {a : A} {as : List A}

theorem since_snoc (hrun : run step s as = some t) (hP : P t a) : Since step P R s (as ++ [a]) :=
  ⟨as, a, [], t, rfl, hrun, hP, fun _ hb => absurd hb List.not_mem_nil⟩

theorem Since.snoc (h : Since step P R s as) (hR : ¬R a) : Since step P R s (as ++ [a]) := by
  obtain ⟨before, b, behind, t, rfl, hrun, hP, hbehind⟩ := h
  refine ⟨before, b, behind ++ [a], t, by rw [List.append_assoc, List.cons_append], hrun, hP, ?_⟩
  exact List.forall_mem_append.mpr ⟨hbehind, List.forall_mem_singleton.mpr hR⟩

end Since

section Reaches

/-- The machine can get from one state to another by steps of one kind. -/
def Reaches (step : S → A → Option S) (C : A → Prop) (s t : S) : Prop :=
  ∃ as, (∀ a ∈ as, C a) ∧ run step s as = some t

variable {step : S → A → Option S} {C : A → Prop} {s t u : S}

theorem Reaches.refl (s : S) : Reaches step C s s := ⟨[], fun _ ha => absurd ha List.not_mem_nil, rfl⟩

theorem Reaches.one {a : A} (h : step s a = some t) (hC : C a) : Reaches step C s t :=
  ⟨[a], fun _ ha => List.mem_singleton.mp ha ▸ hC, run_singleton.trans h⟩

theorem Reaches.trans (h : Reaches step C s t) (h' : Reaches step C t u) : Reaches step C s u := by
  obtain ⟨as, has, hrun⟩ := h
  obtain ⟨bs, hbs, hrun'⟩ := h'
  exact ⟨as ++ bs, List.forall_mem_append.mpr ⟨has, hbs⟩, run_append.mpr ⟨t, hrun, hrun'⟩⟩

theorem Reaches.keeps {I : S → Prop} (h : Reaches step C s t)
    (hkeep : ∀ s a t, I s → C a → step s a = some t → I t) (hs : I s) : I t := by
  obtain ⟨as, has, hrun⟩ := h
  exact invariant_of_meets (C := fun _ a => C a) hkeep hs ((meets_label hrun).mpr has) hrun

/-- A way of one machine is one of another that can follow each of its steps. -/
theorem Reaches.lift {step' : T → B → Option T} {C' : B → Prop} {R : S → T → Prop}
    (hmatch : ∀ s a s' t, R s t → C a → step s a = some s' → ∃ t', Reaches step' C' t t' ∧ R s' t')
    {s' : S} {t : T} (h : Reaches step C s s') (hR : R s t) : ∃ t', Reaches step' C' t t' ∧ R s' t' := by
  apply h.keeps (I := fun s' => ∃ t', Reaches step' C' t t' ∧ R s' t') _ ⟨t, .refl t, hR⟩
  rintro v a w ⟨t₁, hreaches, hR⟩ hC hstep
  obtain ⟨t₂, hnext, hR'⟩ := hmatch v a w t₁ hR hC hstep
  exact ⟨t₂, hreaches.trans hnext, hR'⟩

end Reaches

end Runs
