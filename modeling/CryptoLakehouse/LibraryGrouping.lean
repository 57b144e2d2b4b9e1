import CryptoLakehouse.LibraryKeyedTable
import Mathlib.Data.List.Dedup

/-! Grouping by a key with one result row for each group, and when replacing the groups recomputed from a
filtered input amounts to grouping the whole input again. -/

namespace Grouping

variable {R K A : Type*} [DecidableEq K] (key : R → K) (agg : K → List R → A)

def group (rows : List R) (k : K) : List R := rows.filter fun row => key row = k

/-- `select key, agg from rows group by key` -/
def groupBy (rows : List R) : List A := (rows.map key).dedup.map fun k => agg k (group key rows k)

/-- The result row of one group, when the group has rows. -/
def aggregateAt (rows : List R) (k : K) : Option A :=
  if group key rows k = [] then none else some (agg k (group key rows k))

section GroupBy

variable {key agg}

theorem mem_group {rows : List R} {k : K} {row : R} : row ∈ group key rows k ↔ row ∈ rows ∧ key row = k := by
  rw [group, List.mem_filter, decide_eq_true_eq]

theorem group_ne_nil {rows : List R} {k : K} : group key rows k ≠ [] ↔ k ∈ rows.map key := by
  constructor
  · intro hrows
    obtain ⟨row, hrow⟩ := List.exists_mem_of_ne_nil _ hrows
    exact List.mem_map.mpr ⟨row, mem_group.mp hrow⟩
  · intro hk
    obtain ⟨row, hrow⟩ := List.mem_map.mp hk
    exact List.ne_nil_of_mem (mem_group.mpr hrow)

theorem mem_groupBy {rows : List R} {a : A} :
    a ∈ groupBy key agg rows ↔ ∃ k ∈ rows.map key, agg k (group key rows k) = a := by
  rw [groupBy, List.mem_map]
  exact exists_congr fun k => and_congr_left' List.mem_dedup

/-- Rows of one key make one group. -/
theorem groupBy_eq_singleton {rows : List R} {k : K} (hne : rows ≠ []) (h : ∀ row ∈ rows, key row = k) :
    groupBy key agg rows = [agg k rows] := by
  have hkeys : rows.map key = List.replicate rows.length k := by
    rw [List.map_congr_left h, List.map_const']
  have hgroup : group key rows k = rows := by
    rw [group, List.filter_eq_self]
    exact fun row hrow => decide_eq_true (h row hrow)
  rw [groupBy, hkeys, List.replicate_dedup (List.length_eq_zero_iff.not.mpr hne), List.map_singleton, hgroup]

variable {keyOf : A → K}

theorem map_groupBy (hkey : ∀ k rows, keyOf (agg k rows) = k) (rows : List R) :
    (groupBy key agg rows).map keyOf = (rows.map key).dedup := by
  rw [groupBy, List.map_map]
  exact (List.map_congr_left fun k _ => hkey k _).trans (List.map_id _)

theorem represents_groupBy (hkey : ∀ k rows, keyOf (agg k rows) = k) (rows : List R) :
    KeyedTable.Represents keyOf (groupBy key agg rows) (aggregateAt key agg rows) := by
  refine ⟨map_groupBy hkey rows ▸ List.nodup_dedup _, fun k a => ?_⟩
  rw [aggregateAt, mem_groupBy]
  constructor
  · intro h
    split_ifs at h with hempty
    obtain rfl := Option.some.inj h
    exact ⟨⟨k, group_ne_nil.mp hempty, rfl⟩, hkey k _⟩
  · rintro ⟨⟨k', hk', rfl⟩, hk⟩
    obtain rfl : k' = k := (hkey k' _).symm.trans hk
    rw [if_neg (group_ne_nil.mpr hk')]

end GroupBy

section Content

variable {key agg} {S : Type*}

/-- A result row depends on the rows of its group, not on their order. -/
theorem groupBy_perm {rows rows' : List R} (hagg : ∀ k, ∀ group group' : List R, group.Perm group' →
    agg k group = agg k group') (h : rows.Perm rows') :
    (groupBy key agg rows).Perm (groupBy key agg rows') := by
  have hgroups : ∀ k, agg k (group key rows k) = agg k (group key rows' k) :=
    fun k => hagg k _ _ (h.filter _)
  calc groupBy key agg rows
      = (rows.map key).dedup.map fun k => agg k (group key rows' k) := List.map_congr_left fun k _ => hgroups k
    List.Perm _ (groupBy key agg rows') := ((h.map key).dedup).map _

/-- Columns that neither the key nor the aggregate reads play no part. -/
theorem groupBy_map {f : S → R} {key' : S → K} {agg' : K → List S → A} (hkey : ∀ s, key (f s) = key' s)
    (hagg : ∀ k group, agg k (group.map f) = agg' k group) (rows : List S) :
    groupBy key agg (rows.map f) = groupBy key' agg' rows := by
  have hkeys : (rows.map f).map key = rows.map key' := by
    rw [List.map_map]
    exact List.map_congr_left fun s _ => hkey s
  have hgroup : ∀ k, group key (rows.map f) k = (group key' rows k).map f := by
    intro k
    rw [group, List.filter_map, group]
    exact congrArg (List.map f) (List.filter_congr fun s _ => by rw [Function.comp_apply, hkey])
  rw [groupBy, groupBy, hkeys]
  refine List.map_congr_left fun k _ => ?_
  rw [hgroup, hagg]

end Content

section Partition

variable {key} {p : R → Bool}

theorem group_filter (rows : List R) (k : K) : group key (rows.filter p) k = (group key rows k).filter p := by
  rw [group, group, List.filter_comm]

/-- A filter that lets the whole of a group through leaves the group alone. -/
theorem group_filter_eq {rows : List R} {k : K} (h : ∀ row ∈ group key rows k, p row = true) :
    group key (rows.filter p) k = group key rows k := by
  rw [group_filter, List.filter_eq_self.mpr h]

/-- The groups of distinct keys that cover the rows hold every row as often as it is there. -/
theorem flatMap_group_perm {keys : List K} {rows : List R} (hnodup : keys.Nodup)
    (hall : ∀ row ∈ rows, key row ∈ keys) : (keys.flatMap (group key rows)).Perm rows := by
  induction keys generalizing rows with
  | nil =>
      have hempty : rows = [] := List.eq_nil_iff_forall_not_mem.mpr fun row hrow =>
        List.not_mem_nil (hall row hrow)
      rw [hempty, List.flatMap_nil]
  | cons k keys ih =>
      obtain ⟨hk, hkeys⟩ := List.nodup_cons.mp hnodup
      have hothers : keys.flatMap (group key rows) =
          keys.flatMap (group key (rows.filter fun row => !decide (key row = k))) := by
        refine List.flatMap_congr fun k' hk' => (group_filter_eq fun row hrow => ?_).symm
        have hne : key row ≠ k := fun heq => hk (heq ▸ (mem_group.mp hrow).2 ▸ hk')
        simpa using hne
      have hrest : (keys.flatMap (group key rows)).Perm (rows.filter fun row => !decide (key row = k)) := by
        rw [hothers]
        refine ih hkeys fun row hrow => ?_
        obtain ⟨hmem, hne⟩ := List.mem_filter.mp hrow
        obtain heq | hmem' := List.mem_cons.mp (hall row hmem)
        · simp [heq] at hne
        · exact hmem'
      rw [List.flatMap_cons]
      exact (hrest.append_left _).trans (List.filter_append_perm _ rows)

end Partition

section Incremental

variable {key agg} {old new : List R} {p : R → Bool}

/-- The filter keeps a group whole, or none of it while nothing was added to it. -/
def Covered (key : R → K) (p : R → Bool) (old new : List R) (k : K) : Prop :=
  (∀ row ∈ group key (old ++ new) k, p row = true) ∨
    ((∀ row ∈ group key (old ++ new) k, p row = false) ∧ group key new k = [])

theorem group_append (k : K) : group key (old ++ new) k = group key old k ++ group key new k :=
  List.filter_append old new

/-- For an aggregate that tells groups of different sizes apart, the merge of one group is right exactly
when the group is covered. -/
theorem merge_eq_iff (hcount : ∀ k rows rows', agg k rows = agg k rows' → rows.length = rows'.length)
    (k : K) :
    (aggregateAt key agg ((old ++ new).filter p) k).or (aggregateAt key agg old k) =
        aggregateAt key agg (old ++ new) k ↔ Covered key p old new k := by
  rw [aggregateAt, group_filter, Covered]
  by_cases hkept : (group key (old ++ new) k).filter p = []
  · have hnone : ∀ row ∈ group key (old ++ new) k, p row = false := by
      simpa using List.filter_eq_nil_iff.mp hkept
    have hnew : aggregateAt key agg old k = aggregateAt key agg (old ++ new) k ↔ group key new k = [] := by
      rw [aggregateAt, aggregateAt, group_append]
      constructor
      · intro heq
        by_cases hold : group key old k = []
        · by_contra hadded
          simp [hold, hadded] at heq
        · rw [if_neg hold, if_neg (by simp [hold]), Option.some.injEq] at heq
          have hlength := hcount k _ _ heq
          rw [List.length_append] at hlength
          exact List.eq_nil_of_length_eq_zero (by omega)
      · intro hadded
        rw [hadded, List.append_nil]
    rw [if_pos hkept, Option.none_or, hnew]
    constructor
    · exact fun hadded => .inr ⟨hnone, hadded⟩
    · rintro (hall | ⟨-, hadded⟩)
      · rw [List.filter_eq_self.mpr hall, group_append, List.append_eq_nil_iff] at hkept
        exact hkept.2
      · exact hadded
  · have hgroup : group key (old ++ new) k ≠ [] := fun hempty => hkept (by rw [hempty, List.filter_nil])
    rw [if_neg hkept, Option.some_or, aggregateAt, if_neg hgroup, Option.some.injEq]
    constructor
    · intro heq
      exact .inl (List.length_filter_eq_length_iff.mp (hcount k _ _ heq))
    · rintro (hall | ⟨hnone, -⟩)
      · rw [List.filter_eq_self.mpr hall]
      · exact absurd (List.filter_eq_nil_iff.mpr (by simpa using hnone)) hkept

end Incremental

end Grouping
