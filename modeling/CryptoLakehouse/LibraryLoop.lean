import Mathlib.Data.List.Basic
import Mathlib.Tactic.Common

/-! Loops whose body may raise: the first exception ends the loop and keeps the state it was raised in. A
body is described by the items it takes without raising and by what such an item appends to the state's
output; a loop over such a body is then described the same way. -/

namespace Loop

variable {S A B E : Type*}

def forEach (body : S → A → S × Option E) : S → List A → S × Option E
  | s, [] => (s, none)
  | s, a :: as =>
      match body s a with
      | (t, none) => forEach body t as
      | (t, some e) => (t, some e)

/-- What a body does: on a benign item it appends to the output and keeps the invariant; on any other it
raises. -/
structure Handles (output : S → List B) (I : S → Prop) (body : S → A → S × Option E) (benign : A → Prop)
    (produced : A → List B) : Prop where
  takes : ∀ s a, benign a →
    ∃ t, body s a = (t, none) ∧ output t = output s ++ produced a ∧ (I s → I t)
  raises : ∀ s a, ¬ benign a → ∃ t e, body s a = (t, some e)

/-- The loop rule. -/
theorem Handles.forEach {output : S → List B} {I : S → Prop} {body : S → A → S × Option E}
    {benign : A → Prop} {produced : A → List B} (h : Handles output I body benign produced) :
    Handles output I (forEach body) (fun as => ∀ a ∈ as, benign a) (fun as => as.flatMap produced) := by
  constructor
  case takes =>
    intro s as hall
    induction as generalizing s with
    | nil => exact ⟨s, rfl, (List.append_nil _).symm, id⟩
    | cons a as ih =>
        rw [List.forall_mem_cons] at hall
        obtain ⟨t, hbody, hout, hkeep⟩ := h.takes s a hall.1
        obtain ⟨u, hrest, hout', hkeep'⟩ := ih t hall.2
        refine ⟨u, ?_, ?_, hkeep' ∘ hkeep⟩
        · rw [Loop.forEach, hbody]
          exact hrest
        · rw [hout', hout, List.append_assoc, List.flatMap_cons]
  case raises =>
    intro s as hbad
    induction as generalizing s with
    | nil => exact absurd (fun a ha => absurd ha List.not_mem_nil) hbad
    | cons a as ih =>
        by_cases hfirst : benign a
        · obtain ⟨t, hbody, -, -⟩ := h.takes s a hfirst
          rw [Loop.forEach, hbody]
          exact ih t fun hrest => hbad (List.forall_mem_cons.mpr ⟨hfirst, hrest⟩)
        · obtain ⟨t, e, hbody⟩ := h.raises s a hfirst
          exact ⟨t, e, by rw [Loop.forEach, hbody]⟩

/-- An item that a loop comes to: everything in front of it is benign. -/
def Reached (benign : A → Prop) (as : List A) (a : A) : Prop :=
  ∃ before after, as = before ++ a :: after ∧ ∀ b ∈ before, benign b

theorem not_reached_nil (benign : A → Prop) (x : A) : ¬ Reached benign [] x := by
  rintro ⟨before, after, hsplit, -⟩
  simp at hsplit

theorem reached_cons {benign : A → Prop} {a x : A} {as : List A} :
    Reached benign (a :: as) x ↔ a = x ∨ benign a ∧ Reached benign as x := by
  constructor
  · rintro ⟨before, after, hsplit, hbefore⟩
    cases before with
    | nil => exact .inl (List.cons.inj hsplit).1
    | cons first before =>
        obtain ⟨rfl, hrest⟩ := List.cons.inj hsplit
        rw [List.forall_mem_cons] at hbefore
        exact .inr ⟨hbefore.1, before, after, hrest, hbefore.2⟩
  · rintro (rfl | ⟨hfirst, before, after, hsplit, hbefore⟩)
    · exact ⟨[], as, rfl, by simp⟩
    · exact ⟨a :: before, after, by rw [hsplit, List.cons_append], List.forall_mem_cons.mpr ⟨hfirst, hbefore⟩⟩

/-- What a body may add to the output, whether it raises or not. -/
def Emits (output : S → List B) (body : S → A → S × Option E) (emitted : A → B → Prop) : Prop :=
  ∀ s a, ∃ new, output (body s a).1 = output s ++ new ∧ ∀ b, b ∈ new ↔ emitted a b

/-- A loop adds what its body adds for the items that it comes to. -/
theorem Emits.forEach {output : S → List B} {I : S → Prop} {body : S → A → S × Option E} {benign : A → Prop}
    {produced : A → List B} {emitted : A → B → Prop} (hbody : Handles output I body benign produced)
    (h : Emits output body emitted) :
    Emits output (forEach body) fun as b => ∃ a, Reached benign as a ∧ emitted a b := by
  intro s as
  induction as generalizing s with
  | nil => exact ⟨[], (List.append_nil _).symm, by simp [not_reached_nil]⟩
  | cons a as ih =>
      obtain ⟨new, hnew, hmem⟩ := h s a
      simp only [reached_cons, or_and_right, exists_or, exists_eq_left']
      by_cases hfirst : benign a
      · obtain ⟨t, hstep, -, -⟩ := hbody.takes s a hfirst
        obtain ⟨new', hnew', hmem'⟩ := ih t
        refine ⟨new ++ new', ?_, fun b => ?_⟩
        · rw [Loop.forEach, hstep]
          rw [hstep] at hnew
          rw [hnew', hnew, List.append_assoc]
        · rw [List.mem_append, hmem, hmem']
          simp [hfirst]
      · obtain ⟨t, e, hstep⟩ := hbody.raises s a hfirst
        refine ⟨new, ?_, fun b => ?_⟩
        · rw [Loop.forEach, hstep]
          rw [hstep] at hnew
          exact hnew
        · rw [hmem]
          simp [hfirst]

end Loop
