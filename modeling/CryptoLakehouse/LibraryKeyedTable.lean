import Mathlib.Data.List.Nodup
import Mathlib.Data.List.Perm.Basic
import Mathlib.Tactic.Common

/-! Tables as lists of rows under a key: insertion that skips the keys already present (rows without a
key never conflict), and replacement of the rows whose key occurs in a new result. -/

namespace KeyedTable

variable {R K : Type*} [DecidableEq K]

section InsertAbsent

variable (key : R → Option K)

/-- A row conflicts when it has a key and the table holds it. -/
def Conflicts (table : List R) (row : R) : Prop := key row ≠ none ∧ key row ∈ table.map key

instance (table : List R) (row : R) : Decidable (Conflicts key table row) :=
  inferInstanceAs (Decidable (_ ∧ _))

/-- Insert the rows in order, skipping each that conflicts with the table or with an earlier row. -/
def insertAbsent (table : List R) : List R → List R
  | [] => table
  | row :: rows =>
      if Conflicts key table row then insertAbsent table rows else insertAbsent (table ++ [row]) rows

theorem table_isPrefix_insertAbsent (table rows : List R) : table <+: insertAbsent key table rows := by
  induction rows generalizing table with
  | nil => exact List.prefix_rfl
  | cons row rows ih =>
      rw [insertAbsent]
      split
      · exact ih table
      · exact (List.prefix_append table [row]).trans (ih (table ++ [row]))

omit [DecidableEq K] in
theorem Conflicts.mono {table table' : List R} {row : R} (hsub : table ⊆ table')
    (h : Conflicts key table row) : Conflicts key table' row := ⟨h.1, List.map_subset key hsub h.2⟩

/-- Every row offered is in the result, or a row with its key is. -/
theorem represented_insertAbsent (table rows : List R) {row : R} (h : row ∈ rows) :
    row ∈ insertAbsent key table rows ∨ Conflicts key (insertAbsent key table rows) row := by
  induction rows generalizing table with
  | nil => cases h
  | cons first rows ih =>
      rw [insertAbsent]
      rcases List.mem_cons.mp h with rfl | hmem
      · split
        · rename_i hconflict
          exact .inr (hconflict.mono key (table_isPrefix_insertAbsent key table rows).subset)
        · have hlast : row ∈ table ++ [row] := List.mem_append_right _ (List.mem_singleton.mpr rfl)
          exact .inl ((table_isPrefix_insertAbsent key _ rows).subset hlast)
      · split <;> exact ih _ hmem

/-- A row of the result was in the table or was offered. -/
theorem mem_insertAbsent {table rows : List R} {row : R} (h : row ∈ insertAbsent key table rows) :
    row ∈ table ∨ row ∈ rows := by
  induction rows generalizing table with
  | nil => exact .inl h
  | cons first rows ih =>
      rw [insertAbsent] at h
      split at h
      · exact (ih h).imp_right (List.mem_cons_of_mem first)
      · rcases ih h with htable | hrows
        · rcases List.mem_append.mp htable with hold | hfirst
          · exact .inl hold
          · rw [List.mem_singleton.mp hfirst]
            exact .inr List.mem_cons_self
        · exact .inr (List.mem_cons_of_mem first hrows)

/-- No two rows share a key; rows without a key do not count. -/
def KeyUnique (table : List R) : Prop := (table.filterMap key).Nodup

theorem keyUnique_insertAbsent {table : List R} (rows : List R) (h : KeyUnique key table) :
    KeyUnique key (insertAbsent key table rows) := by
  induction rows generalizing table with
  | nil => exact h
  | cons row rows ih =>
      rw [insertAbsent]
      split
      · exact ih h
      · rename_i hfree
        apply ih
        rw [KeyUnique, List.filterMap_append, List.nodup_append]
        refine ⟨h, ?_, ?_⟩
        · cases hkey : key row <;> simp [hkey]
        · intro k hk k' hk' heq
          obtain ⟨old, hold, hkold⟩ := List.mem_filterMap.mp hk
          obtain ⟨new, hnew, hknew⟩ := List.mem_filterMap.mp hk'
          rw [List.mem_singleton.mp hnew] at hknew
          refine hfree ⟨by simp [hknew], List.mem_map.mpr ⟨old, hold, ?_⟩⟩
          rw [hkold, hknew, heq]

omit [DecidableEq K] in
/-- In a table without shared keys a key determines its row. -/
theorem KeyUnique.eq_of_key {table : List R} {row row' : R} {k : K} (h : KeyUnique key table)
    (hrow : row ∈ table) (hrow' : row' ∈ table) (hk : key row = some k) (hk' : key row' = some k) :
    row = row' := by
  induction table with
  | nil => cases hrow
  | cons first table ih =>
      have hrest : KeyUnique key table := h.sublist ((List.sublist_cons_self first table).filterMap key)
      have hfirst : key first = some k → ∀ r ∈ table, key r ≠ some k := by
        intro hkey r hr hkr
        rw [KeyUnique, List.filterMap_cons_some hkey, List.nodup_cons] at h
        exact h.1 (List.mem_filterMap.mpr ⟨r, hr, hkr⟩)
      rcases List.mem_cons.mp hrow with rfl | hmem <;> rcases List.mem_cons.mp hrow' with rfl | hmem'
      · rfl
      · exact absurd hk' (hfirst hk row' hmem')
      · exact absurd hk (hfirst hk' row hmem)
      · exact ih hrest hmem hmem'

omit [DecidableEq K] in
/-- Where every row has a key no row is there twice. -/
theorem KeyUnique.nodup {table : List R} (h : KeyUnique key table) (hkeys : ∀ row ∈ table, key row ≠ none) :
    table.Nodup := by
  induction table with
  | nil => exact List.nodup_nil
  | cons first table ih =>
      rw [List.forall_mem_cons] at hkeys
      obtain ⟨k, hk⟩ := Option.ne_none_iff_exists'.mp hkeys.1
      rw [KeyUnique, List.filterMap_cons_some hk, List.nodup_cons] at h
      refine List.nodup_cons.mpr ⟨fun hmem => ?_, ih h.2 hkeys.2⟩
      exact h.1 (List.mem_filterMap.mpr ⟨first, hmem, hk⟩)

/-- Nothing is skipped when no key is shared. -/
theorem insertAbsent_eq_append {table rows : List R} (h : KeyUnique key (table ++ rows)) :
    insertAbsent key table rows = table ++ rows := by
  induction rows generalizing table with
  | nil => rw [insertAbsent, List.append_nil]
  | cons row rows ih =>
      have hfree : ¬ Conflicts key table row := by
        rintro ⟨hnull, hmem⟩
        obtain ⟨k, hk⟩ := Option.ne_none_iff_exists'.mp hnull
        obtain ⟨old, hold, hkold⟩ := List.mem_map.mp hmem
        rw [KeyUnique, List.filterMap_append, List.nodup_append] at h
        refine h.2.2 k (List.mem_filterMap.mpr ⟨old, hold, hkold.trans hk⟩) k ?_ rfl
        exact List.mem_filterMap.mpr ⟨row, List.mem_cons_self, hk⟩
      rw [insertAbsent, if_neg hfree, ih (by simpa using h), List.append_assoc, List.singleton_append]

theorem insertAbsent_append (table rows rows' : List R) :
    insertAbsent key table (rows ++ rows') = insertAbsent key (insertAbsent key table rows) rows' := by
  induction rows generalizing table with
  | nil => rfl
  | cons row rows ih =>
      rw [List.cons_append, insertAbsent, insertAbsent]
      split <;> exact ih _

/-- Nothing is added exactly when every row conflicts with the table as it is. -/
theorem insertAbsent_eq_self_iff {table rows : List R} :
    insertAbsent key table rows = table ↔ ∀ row ∈ rows, Conflicts key table row := by
  induction rows with
  | nil => simp [insertAbsent]
  | cons row rows ih =>
      rw [insertAbsent, List.forall_mem_cons]
      split_ifs with hrow
      · rw [ih, and_iff_right hrow]
      · refine iff_of_false (fun heq => ?_) (fun h => hrow h.1)
        have hlength := (table_isPrefix_insertAbsent key (table ++ [row]) rows).length_le
        rw [heq, List.length_append, List.length_singleton] at hlength
        omega

theorem exists_insertAbsent_eq_append (table rows : List R) :
    ∃ added, added ⊆ rows ∧ insertAbsent key table rows = table ++ added := by
  induction rows generalizing table with
  | nil => exact ⟨[], List.Subset.refl [], (List.append_nil table).symm⟩
  | cons row rows ih =>
      rw [insertAbsent]
      split_ifs with hrow
      · obtain ⟨added, hsub, heq⟩ := ih table
        exact ⟨added, List.subset_cons_of_subset row hsub, heq⟩
      · obtain ⟨added, hsub, heq⟩ := ih (table ++ [row])
        refine ⟨row :: added, List.cons_subset_cons row hsub, ?_⟩
        rw [heq, List.append_assoc, List.singleton_append]

/-- The rows that `insertAbsent` adds. -/
def inserted (table : List R) : List R → List R
  | [] => []
  | row :: rows =>
      if Conflicts key table row then inserted table rows else row :: inserted (table ++ [row]) rows

theorem insertAbsent_eq_append_inserted (table rows : List R) :
    insertAbsent key table rows = table ++ inserted key table rows := by
  induction rows generalizing table with
  | nil => exact (List.append_nil table).symm
  | cons row rows ih =>
      rw [insertAbsent, inserted]
      split_ifs with hrow
      · exact ih table
      · rw [ih, List.append_assoc, List.singleton_append]

theorem length_inserted_le (table rows : List R) : (inserted key table rows).length ≤ rows.length := by
  induction rows generalizing table with
  | nil => exact Nat.le_refl 0
  | cons row rows ih =>
      rw [inserted]
      split_ifs with hrow
      · exact Nat.le_succ_of_le (ih table)
      · exact Nat.succ_le_succ (ih (table ++ [row]))

/-- The first row with a key stays the first: of the table, and else of the rows offered. -/
theorem find?_insertAbsent (table rows : List R) (k : K) :
    (insertAbsent key table rows).find? (fun row => key row = some k) =
      (table.find? fun row => key row = some k).or (rows.find? fun row => key row = some k) := by
  induction rows generalizing table with
  | nil => exact (Option.or_none).symm
  | cons row rows ih =>
      rw [insertAbsent]
      split_ifs with hrow
      · rw [ih]
        by_cases hkey : key row = some k
        · -- the conflicting row is hidden behind the row of the table it conflicts with
          obtain ⟨old, hold, heq⟩ := List.mem_map.mp hrow.2
          have hfound : (table.find? fun r => key r = some k).isSome := by
            rw [List.find?_isSome]
            exact ⟨old, hold, decide_eq_true (heq.trans hkey)⟩
          obtain ⟨first, hfirst⟩ := Option.isSome_iff_exists.mp hfound
          rw [hfirst, Option.some_or, Option.some_or]
        · rw [List.find?_cons_of_neg (by simpa using hkey)]
      · rw [ih, List.find?_append, Option.or_assoc, ← List.find?_append, List.singleton_append]

/-- Rows without a key are all added. -/
theorem filter_insertAbsent (table rows : List R) :
    (insertAbsent key table rows).filter (fun row => key row = none) =
      table.filter (fun row => key row = none) ++ rows.filter (fun row => key row = none) := by
  induction rows generalizing table with
  | nil => exact (List.append_nil _).symm
  | cons row rows ih =>
      rw [insertAbsent]
      split_ifs with hrow
      · rw [ih, List.filter_cons_of_neg (by simpa using hrow.1)]
      · rw [ih, List.filter_append, List.append_assoc, ← List.filter_append, List.singleton_append]

omit [DecidableEq K] in
theorem conflicts_map {S : Type*} (f : S → R) (table : List S) (row : S) :
    Conflicts key (table.map f) (f row) ↔ Conflicts (fun s => key (f s)) table row := by
  rw [Conflicts, Conflicts, List.map_map]
  rfl

/-- Columns that the key does not read play no part. -/
theorem map_insertAbsent {S : Type*} (f : S → R) (table rows : List S) :
    (insertAbsent (fun s => key (f s)) table rows).map f = insertAbsent key (table.map f) (rows.map f) := by
  induction rows generalizing table with
  | nil => rfl
  | cons row rows ih =>
      rw [insertAbsent, List.map_cons, insertAbsent]
      simp only [conflicts_map]
      split_ifs with hrow
      · exact ih table
      · rw [ih, List.map_append, List.map_singleton]

end InsertAbsent

section FirstWins

variable {M : Type*} (payload : R → M) (id : M → Option K)

/-- The table holds, for each key of the messages seen, the first message with it. -/
structure FirstWins (table : List R) (seen : List M) : Prop where
  unique : KeyUnique (fun row => id (payload row)) table
  first : ∀ row ∈ table, ∀ k, id (payload row) = some k →
    seen.find? (fun m => id m = some k) = some (payload row)
  present : ∀ m ∈ seen, ∀ k, id m = some k → ∃ row ∈ table, id (payload row) = some k

variable {payload id} {table : List R} {seen : List M}

theorem FirstWins.empty : FirstWins payload id [] [] :=
  ⟨List.nodup_nil, fun _ hrow => absurd hrow List.not_mem_nil, fun _ hm => absurd hm List.not_mem_nil⟩

/-- A row whose message was seen before changes nothing that has a key. -/
theorem FirstWins.insert_seen (h : FirstWins payload id table seen) {row : R} (hrow : payload row ∈ seen) :
    FirstWins payload id (insertAbsent (fun row => id (payload row)) table [row]) seen := by
  have hunique := keyUnique_insertAbsent (fun row => id (payload row)) [row] h.unique
  refine ⟨hunique, fun other hother k hk => ?_, fun m hm k hk => ?_⟩
  · rw [insertAbsent] at hother
    split at hother <;> rename_i hconflict
    · exact h.first other hother k hk
    · rcases List.mem_append.mp hother with hold | hnew
      · exact h.first other hold k hk
      · obtain rfl := List.mem_singleton.mp hnew
        obtain ⟨old, hold, hkold⟩ := h.present _ hrow k hk
        refine absurd ⟨by simp [hk], ?_⟩ hconflict
        exact List.mem_map.mpr ⟨old, hold, hkold.trans hk.symm⟩
  · obtain ⟨old, hold, hkold⟩ := h.present m hm k hk
    exact ⟨old, (table_isPrefix_insertAbsent _ _ _).subset hold, hkold⟩

/-- A row with a new message: it wins its key when it is the first with it. -/
theorem FirstWins.insert_new (h : FirstWins payload id table seen) (row : R) :
    FirstWins payload id (insertAbsent (fun row => id (payload row)) table [row]) (seen ++ [payload row]) := by
  have hunique := keyUnique_insertAbsent (fun row => id (payload row)) [row] h.unique
  have hkept : ∀ other ∈ table, ∀ k, id (payload other) = some k →
      (seen ++ [payload row]).find? (fun m => id m = some k) = some (payload other) := by
    intro other hother k hk
    rw [List.find?_append, h.first other hother k hk, Option.some_or]
  refine ⟨hunique, fun other hother k hk => ?_, fun m hm k hk => ?_⟩
  · rw [insertAbsent] at hother
    split at hother <;> rename_i hconflict
    · exact hkept other hother k hk
    · rcases List.mem_append.mp hother with hold | hnew
      · exact hkept other hold k hk
      · obtain rfl := List.mem_singleton.mp hnew
        have hfresh : seen.find? (fun m => id m = some k) = none := by
          refine List.find?_eq_none.mpr fun m hm hmk => ?_
          obtain ⟨old, hold, hkold⟩ := h.present m hm k (of_decide_eq_true hmk)
          refine absurd ⟨by simp [hk], ?_⟩ hconflict
          exact List.mem_map.mpr ⟨old, hold, hkold.trans hk.symm⟩
        rw [List.find?_append, hfresh, Option.none_or]
        simp [hk]
  · rcases List.mem_append.mp hm with hold | hnew
    · obtain ⟨old, hrow, hkold⟩ := h.present m hold k hk
      exact ⟨old, (table_isPrefix_insertAbsent _ _ _).subset hrow, hkold⟩
    · obtain rfl := List.mem_singleton.mp hnew
      rcases represented_insertAbsent (fun row => id (payload row)) table _ (List.mem_singleton_self row) with
        hmem | ⟨-, hmem⟩
      · exact ⟨row, hmem, hk⟩
      · obtain ⟨old, hold, hkold⟩ := List.mem_map.mp hmem
        exact ⟨old, hold, hkold.trans hk⟩

theorem FirstWins.insertAll_seen (h : FirstWins payload id table seen) (rows : List R)
    (hrows : ∀ row ∈ rows, payload row ∈ seen) :
    FirstWins payload id (insertAbsent (fun row => id (payload row)) table rows) seen := by
  induction rows generalizing table with
  | nil => exact h
  | cons row rows ih =>
      rw [List.forall_mem_cons] at hrows
      rw [← List.singleton_append, insertAbsent_append]
      exact ih (h.insert_seen hrows.1) hrows.2

theorem FirstWins.insertAll_new (h : FirstWins payload id table seen) (rows : List R) :
    FirstWins payload id (insertAbsent (fun row => id (payload row)) table rows)
      (seen ++ rows.map payload) := by
  induction rows generalizing table seen with
  | nil => simpa [insertAbsent] using h
  | cons row rows ih =>
      rw [← List.singleton_append, insertAbsent_append, List.map_append, ← List.append_assoc]
      exact ih (h.insert_new row)

/-- Rows that continue a part of the messages seen: the old ones among them are skipped. -/
theorem FirstWins.insertAll (h : FirstWins payload id table seen) {before added : List M} {rows : List R}
    (hbefore : before <+: seen) (hseen : seen <+: added) (hrows : before ++ rows.map payload <+: added) :
    ∃ seen', before ++ rows.map payload <+: seen' ∧ seen <+: seen' ∧ seen' <+: added ∧
      FirstWins payload id (insertAbsent (fun row => id (payload row)) table rows) seen' := by
  rcases List.prefix_or_prefix_of_prefix hrows hseen with hold | hnew
  · refine ⟨seen, hold, List.prefix_rfl, hseen, h.insertAll_seen rows fun row hrow => hold.subset ?_⟩
    exact List.mem_append_right _ (List.mem_map_of_mem hrow)
  · obtain ⟨old, rfl⟩ := hbefore
    obtain ⟨new, hnew⟩ := (List.prefix_append_right_inj before).mp hnew
    have hsplit : rows.map payload = (rows.take old.length).map payload ++ (rows.drop old.length).map payload := by
      rw [← List.map_append, List.take_append_drop]
    have htake : (rows.take old.length).map payload = old := by
      rw [List.map_take, ← hnew, List.take_left]
    have hdone := h.insertAll_seen (rows.take old.length) fun row hrow =>
      List.mem_append_right _ (htake ▸ List.mem_map_of_mem hrow)
    have hall := hdone.insertAll_new (rows.drop old.length)
    rw [← insertAbsent_append, List.take_append_drop, List.append_assoc] at hall
    have hlist : old ++ (rows.drop old.length).map payload = rows.map payload := by
      rw [hsplit, htake]
    rw [hlist] at hall
    refine ⟨_, List.prefix_rfl, ?_, hrows, hall⟩
    rw [← hlist, ← List.append_assoc]
    exact List.prefix_append _ _

end FirstWins

section ReplaceByKey

variable (key : R → K)

/-- The rows whose key occurs in the new result are replaced by it, the others stay. -/
def replaceByKey (old new : List R) : List R :=
  old.filter (fun row => key row ∉ new.map key) ++ new

theorem mem_replaceByKey {old new : List R} {row : R} :
    row ∈ replaceByKey key old new ↔ (row ∈ old ∧ key row ∉ new.map key) ∨ row ∈ new := by
  simp [replaceByKey]

theorem nodup_replaceByKey {old new : List R} (hold : (old.map key).Nodup) (hnew : (new.map key).Nodup) :
    ((replaceByKey key old new).map key).Nodup := by
  rw [replaceByKey, List.map_append, List.nodup_append]
  refine ⟨hold.sublist (List.filter_sublist.map key), hnew, ?_⟩
  intro k hk k' hk' heq
  obtain ⟨row, hrow, rfl⟩ := List.mem_map.mp hk
  have hfree := (List.mem_filter.mp hrow).2
  rw [decide_eq_true_eq] at hfree
  exact hfree (heq ▸ hk')

/-- Replacing changes nothing exactly when the new rows are there already. -/
theorem replaceByKey_perm_self_iff {old new : List R} (hold : (old.map key).Nodup)
    (hnew : (new.map key).Nodup) : (replaceByKey key old new).Perm old ↔ new ⊆ old := by
  constructor
  · intro hperm row hrow
    exact hperm.mem_iff.mp ((mem_replaceByKey key).mpr (.inr hrow))
  · intro hsub
    rw [List.perm_ext_iff_of_nodup (nodup_replaceByKey key hold hnew).of_map hold.of_map]
    intro row
    rw [mem_replaceByKey]
    constructor
    · rintro (⟨hrow, -⟩ | hrow)
      · exact hrow
      · exact hsub hrow
    · intro hrow
      by_cases hreplaced : key row ∈ new.map key
      · obtain ⟨other, hother, hkey⟩ := List.mem_map.mp hreplaced
        obtain rfl := List.inj_on_of_nodup_map hold (hsub hother) hrow hkey
        exact .inr hother
      · exact .inl ⟨hrow, hreplaced⟩

theorem replaceByKey_nil (table : List R) : replaceByKey key table [] = table := by
  simp [replaceByKey]

/-- No key is lost. -/
theorem map_subset_replaceByKey (old new : List R) : old.map key ⊆ (replaceByKey key old new).map key := by
  intro k hk
  obtain ⟨row, hrow, rfl⟩ := List.mem_map.mp hk
  by_cases hreplaced : key row ∈ new.map key
  · exact List.map_subset key (fun r hr => (mem_replaceByKey key).mpr (.inr hr)) hreplaced
  · exact List.mem_map_of_mem ((mem_replaceByKey key).mpr (.inl ⟨hrow, hreplaced⟩))

end ReplaceByKey

/-- The table read as a partial function of its key. -/
structure Represents (key : R → K) (table : List R) (f : K → Option R) : Prop where
  nodup : (table.map key).Nodup
  lookup : ∀ k row, f k = some row ↔ row ∈ table ∧ key row = k

section Represents

variable {key : R → K} {table table' : List R} {f f' : K → Option R}

omit [DecidableEq K] in
theorem Represents.mem (h : Represents key table f) {row : R} : row ∈ table ↔ f (key row) = some row := by
  rw [h.lookup, and_iff_left rfl]

omit [DecidableEq K] in
theorem Represents.of_perm (h : Represents key table f) (hperm : table.Perm table') :
    Represents key table' f :=
  ⟨(hperm.map key).nodup_iff.mp h.nodup, fun k row => by rw [h.lookup, hperm.mem_iff]⟩

omit [DecidableEq K] in
/-- Two tables have the same rows when they are the same function. -/
theorem Represents.perm_iff (h : Represents key table f) (h' : Represents key table' f') :
    table.Perm table' ↔ f = f' := by
  rw [List.perm_ext_iff_of_nodup h.nodup.of_map h'.nodup.of_map]
  constructor
  · intro hmem
    ext k row
    rw [h.lookup, h'.lookup, hmem]
  · rintro rfl row
    rw [h.mem, h'.mem]

theorem Represents.replaceByKey (h : Represents key table f) (h' : Represents key table' f') :
    Represents key (replaceByKey key table table') fun k => (f' k).or (f k) := by
  refine ⟨nodup_replaceByKey key h.nodup h'.nodup, fun k row => ?_⟩
  rw [mem_replaceByKey]
  cases hnew : f' k with
  | none =>
      have hfree : ∀ r ∈ table', key r ≠ k := fun r hr hk => by
        rw [(h'.lookup k r).mpr ⟨hr, hk⟩] at hnew
        cases hnew
      rw [Option.none_or, h.lookup]
      constructor
      · rintro ⟨hrow, rfl⟩
        refine ⟨.inl ⟨hrow, fun hmem => ?_⟩, rfl⟩
        obtain ⟨r, hr, hk⟩ := List.mem_map.mp hmem
        exact hfree r hr hk
      · rintro ⟨⟨hrow, -⟩ | hrow, hk⟩
        · exact ⟨hrow, hk⟩
        · exact absurd hk (hfree row hrow)
  | some new =>
      have hmem := (h'.lookup k new).mp hnew
      rw [Option.some_or, ← hnew, h'.lookup]
      constructor
      · exact fun hrow => ⟨.inr hrow.1, hrow.2⟩
      · rintro ⟨⟨-, hfree⟩ | hrow, hk⟩
        · exact absurd (List.mem_map.mpr ⟨new, hmem.1, hmem.2.trans hk.symm⟩) hfree
        · exact ⟨hrow, hk⟩

end Represents

end KeyedTable
