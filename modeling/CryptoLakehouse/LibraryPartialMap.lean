import Mathlib.Data.List.Basic
import Mathlib.Tactic.Common

/-! Mapping a partial function over a list, where one undefined element leaves no result. -/

namespace PartialMap

variable {A B K : Type*} {f : A → Option B} {as : List A} {bs : List B}

theorem mapM_cons_eq_some {a : A} :
    (a :: as).mapM f = some bs ↔ ∃ b, f a = some b ∧ ∃ rest, as.mapM f = some rest ∧ b :: rest = bs := by
  simp only [List.mapM_cons, Option.bind_eq_bind, Option.bind_eq_some_iff, Option.pure_def,
    Option.some.injEq]

theorem mem_of_mapM (h : as.mapM f = some bs) {b : B} : b ∈ bs ↔ ∃ a ∈ as, f a = some b := by
  induction as generalizing bs with
  | nil =>
      obtain rfl : [] = bs := Option.some.inj h
      simp
  | cons a as ih =>
      obtain ⟨first, hfirst, rest, hrest, rfl⟩ := mapM_cons_eq_some.mp h
      rw [List.mem_cons, ih hrest, List.exists_mem_cons_iff, hfirst, Option.some.injEq, eq_comm (a := first)]

theorem exists_mapM (h : ∀ a ∈ as, (f a).isSome) : ∃ bs, as.mapM f = some bs := by
  induction as with
  | nil => exact ⟨[], rfl⟩
  | cons a as ih =>
      obtain ⟨b, hb⟩ := Option.isSome_iff_exists.mp (h a List.mem_cons_self)
      obtain ⟨bs, hbs⟩ := ih fun a' ha' => h a' (List.mem_cons_of_mem a ha')
      exact ⟨b :: bs, mapM_cons_eq_some.mpr ⟨b, hb, bs, hbs, rfl⟩⟩

theorem isSome_of_mapM (h : as.mapM f = some bs) : ∀ a ∈ as, (f a).isSome := by
  induction as generalizing bs with
  | nil => simp
  | cons a as ih =>
      obtain ⟨first, hfirst, rest, hrest, rfl⟩ := mapM_cons_eq_some.mp h
      rw [List.forall_mem_cons]
      exact ⟨Option.isSome_iff_exists.mpr ⟨first, hfirst⟩, ih hrest⟩

theorem length_of_mapM (h : as.mapM f = some bs) : bs.length = as.length := by
  induction as generalizing bs with
  | nil =>
      obtain rfl : [] = bs := Option.some.inj h
      rfl
  | cons a as ih =>
      obtain ⟨first, -, rest, hrest, rfl⟩ := mapM_cons_eq_some.mp h
      rw [List.length_cons, List.length_cons, ih hrest]

/-- A key read off before the map is the key read off after it. -/
theorem map_key_of_mapM {key : A → Option K} {key' : B → K}
    (hkey : ∀ a b, f a = some b → key a = some (key' b)) (h : as.mapM f = some bs) :
    bs.map key' = as.filterMap key := by
  induction as generalizing bs with
  | nil =>
      obtain rfl : [] = bs := Option.some.inj h
      rfl
  | cons a as ih =>
      obtain ⟨b, hb, rest, hrest, rfl⟩ := mapM_cons_eq_some.mp h
      rw [List.map_cons, List.filterMap_cons_some (hkey a b hb), ih hrest]

/-- What is mapped over the results may be mapped over one by one. -/
theorem map_mapM {C : Type*} (g : B → C) (as : List A) :
    (as.mapM f).map (List.map g) = as.mapM fun a => (f a).map g := by
  induction as with
  | nil => rfl
  | cons a as ih =>
      rw [List.mapM_cons, List.mapM_cons, ← ih]
      cases f a with
      | none => rfl
      | some b => cases as.mapM f <;> rfl

theorem mapM_congr {g : A → Option B} (h : ∀ a ∈ as, f a = g a) : as.mapM f = as.mapM g := by
  induction as with
  | nil => rfl
  | cons a as ih =>
      rw [List.forall_mem_cons] at h
      rw [List.mapM_cons, List.mapM_cons, h.1, ih h.2]

theorem mapM_map {C : Type*} (g : C → A) (cs : List C) : (cs.map g).mapM f = cs.mapM (f ∘ g) := by
  induction cs with
  | nil => rfl
  | cons c cs ih =>
      rw [List.map_cons, List.mapM_cons, List.mapM_cons, ih]
      rfl

/-- The order of the list is the order of the results, and nothing more. -/
theorem mapM_perm {as' : List A} (h : as.Perm as') : Option.Rel List.Perm (as.mapM f) (as'.mapM f) := by
  cases hmap : as.mapM f with
  | none =>
      cases hmap' : as'.mapM f with
      | none => exact .none
      | some bs' =>
          obtain ⟨bs, hbs⟩ := exists_mapM fun a ha => isSome_of_mapM hmap' a (h.mem_iff.mp ha)
          cases hmap.symm.trans hbs
  | some bs =>
      obtain ⟨bs', hmap'⟩ := exists_mapM fun a ha => isSome_of_mapM hmap a (h.mem_iff.mpr ha)
      rw [hmap']
      refine .some ?_
      have hsome : ∀ {as : List A} {bs : List B}, as.mapM f = some bs → as.filterMap f = bs := by
        intro as bs hbs
        have hself : ∀ a b, f a = some b → f a = some (id b) := fun _ _ hb => hb
        have hkeys := map_key_of_mapM hself hbs
        rw [← hkeys, List.map_id]
      rw [← hsome hmap, ← hsome hmap']
      exact h.filterMap f

end PartialMap
