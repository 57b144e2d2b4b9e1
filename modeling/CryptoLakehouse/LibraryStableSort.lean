import Mathlib.Data.List.Sort

/-! A stable sort by a key. Items with equal keys keep the order they came in, so that the sorted list is
the same for every order of the items exactly when no two items share a key. -/

namespace StableSort

variable {A K : Type*} [LinearOrder K] (key : A → K)

def sortByKey (items : List A) : List A := items.insertionSort fun a b => key a ≤ key b

theorem perm_sortByKey (items : List A) : (sortByKey key items).Perm items := List.perm_insertionSort _ _

theorem pairwise_sortByKey (items : List A) : (sortByKey key items).Pairwise fun a b => key a ≤ key b := by
  have htotal : Std.Total fun a b => key a ≤ key b := ⟨fun a b => le_total _ _⟩
  have htrans : IsTrans A fun a b => key a ≤ key b := ⟨fun _ _ _ => le_trans⟩
  exact List.pairwise_insertionSort _ _

/-- Stability: the items of one key stand in their old order. -/
theorem filter_sortByKey (k : K) (items : List A) :
    (sortByKey key items).filter (fun a => key a = k) = items.filter fun a => key a = k := by
  have hequal : (items.filter fun a => key a = k).Pairwise fun a b => key a ≤ key b := by
    refine List.pairwise_of_forall_mem_list fun a ha b hb => ?_
    have hka : key a = k := of_decide_eq_true (List.mem_filter.mp ha).2
    have hkb : key b = k := of_decide_eq_true (List.mem_filter.mp hb).2
    exact (hka.trans hkb.symm).le
  have hsublist := (List.sublist_insertionSort hequal List.filter_sublist).filter fun a => key a = k
  rw [List.filter_filter] at hsublist
  simp only [Bool.and_self] at hsublist
  exact (hsublist.eq_of_length_le ((perm_sortByKey key items).filter _).length_eq.le).symm

/-- No two of the items share a key. -/
def Separates (items : List A) : Prop := ∀ a ∈ items, ∀ b ∈ items, key a = key b → a = b

variable {key} {items items' : List A}

theorem Separates.sortByKey_eq (h : Separates key items) (hperm : items'.Perm items) :
    sortByKey key items' = sortByKey key items := by
  have hsorted : (sortByKey key items').Perm (sortByKey key items) :=
    (perm_sortByKey key items').trans (hperm.trans (perm_sortByKey key items).symm)
  refine hsorted.eq_of_pairwise (fun a b ha hb hle hge => ?_) (pairwise_sortByKey key items')
    (pairwise_sortByKey key items)
  have hitems : a ∈ items := hperm.mem_iff.mp ((perm_sortByKey key items').mem_iff.mp ha)
  exact h a hitems b ((perm_sortByKey key items).mem_iff.mp hb) (le_antisymm hle hge)

theorem separates_of_sortByKey_eq (h : ∀ items' : List A, items'.Perm items →
    sortByKey key items' = sortByKey key items) : Separates key items := by
  classical
  intro a ha b hb hkey
  by_contra hne
  -- `a` and `b` in front, one way round and the other
  obtain ⟨rest, hrest⟩ : ∃ rest, (a :: b :: rest).Perm items := by
    have hb' : b ∈ items.erase a := (List.mem_erase_of_ne (Ne.symm hne)).mpr hb
    refine ⟨(items.erase a).erase b, ?_⟩
    exact ((List.perm_cons_erase hb').symm.cons a).trans (List.perm_cons_erase ha).symm
  have hsame : sortByKey key (a :: b :: rest) = sortByKey key (b :: a :: rest) :=
    (h _ hrest).trans (h _ ((List.Perm.swap a b rest).trans hrest)).symm
  have hfilter := congrArg (List.filter fun item => key item = key a) hsame
  rw [filter_sortByKey, filter_sortByKey, List.filter_cons_of_pos (by simp),
    List.filter_cons_of_pos (a := b) (l := a :: rest) (by simp [hkey])] at hfilter
  exact hne (List.head_eq_of_cons_eq hfilter)

/-- The sort gives one list for all orders of the items if and only if their keys are distinct. -/
theorem sortByKey_eq_iff : (∀ items' : List A, items'.Perm items →
    sortByKey key items' = sortByKey key items) ↔ Separates key items :=
  ⟨separates_of_sortByKey_eq, fun h _ hperm => h.sortByKey_eq hperm⟩

end StableSort
