import CryptoLakehouse.InfraMigrate

/-! What the order of the directory listing does to the migrations. `glob` gives the names in the order of
the file system, and the sort of `get_migration_files` is stable, so two files that share a number come in
the order of the listing. -/

namespace CryptoLakehouse.Migrate

open StableSort

variable (digit : Char → Option Nat)

section Machine

variable {T : Type} [DecidableEq T]

def applyFiles (r : T) : List String → List (Action T)
  | [] => []
  | _ :: rest => .execute r :: .record r :: .commit r :: applyFiles r rest

/-- The undisturbed run of a single runner on a database without migrations. -/
def freshRun (r : T) (listing : List String) : List (Action T) :=
  .launch r :: .ensureTable r :: .readApplied r listing :: applyFiles r (getMigrationFiles digit listing)

variable {s : State T} {r : T} (directory : List String)

theorem run_applyFile {versions rest : List String} {version : String}
    (hpc : s.pc r = .looping [] (version :: rest)) (hclosed : s.transaction r = [])
    (htable : s.db.schemaMigrations = some versions) (hnew : version ∉ versions) :
    ∃ t, Runs.run (step digit directory) s [.execute r, .record r, .commit r] = some t ∧
      t.pc r = .looping [] rest ∧ t.transaction r = [] ∧ t.db.schemaMigrations = some (versions ++ [version]) ∧
      t.db.executed = s.db.executed ++ [version] := by
  obtain ⟨u, hexecute, hupc, hsql, hudb⟩ : ∃ u, step digit directory s (.execute r) = some u ∧
      u.pc r = .executed [] version rest ∧ u.transaction r = [.sql version] ∧ u.db = s.db := by
    refine ⟨(s.send r (.sql version)).goto r (.executed [] version rest), by simp [step, hpc], ?_, ?_, rfl⟩
    · rw [goto_pc, if_pos rfl]
    · rw [goto_transaction, send_transaction, hclosed, List.nil_append]
  obtain ⟨v, hrecord, hvpc, hpair, hvdb⟩ : ∃ v, step digit directory u (.record r) = some v ∧
      v.pc r = .recorded [] version rest ∧ v.transaction r = [.sql version, .record version] ∧ v.db = s.db := by
    refine ⟨(u.send r (.record version)).goto r (.recorded [] version rest), by simp [step, hupc], ?_, ?_, hudb⟩
    · rw [goto_pc, if_pos rfl]
    · rw [goto_transaction, send_transaction, hsql]
      rfl
  have hdb : v.db.commit (v.transaction r) =
      some ⟨some (versions ++ [version]), s.db.executed ++ [version]⟩ := by
    simp [hvdb, hpair, Database.commit, Database.apply, htable, hnew]
  obtain ⟨t, hcommit, htpc, htclosed, htdb⟩ : ∃ t, step digit directory v (.commit r) = some t ∧
      t.pc r = .looping [] rest ∧ t.transaction r = [] ∧
      t.db = ⟨some (versions ++ [version]), s.db.executed ++ [version]⟩ := by
    refine ⟨({ v with db := ⟨some (versions ++ [version]), s.db.executed ++ [version]⟩ }.close r).goto r
      (.looping [] rest), by simp only [step, hvpc, hdb, Option.map_some], ?_, ?_, rfl⟩
    · rw [goto_pc, if_pos rfl]
    · rw [goto_transaction, close_transaction]
  refine ⟨t, ?_, htpc, htclosed, by rw [htdb], by rw [htdb]⟩
  rw [Runs.run_cons]
  exact ⟨_, hexecute, Runs.run_cons.mpr ⟨_, hrecord, Runs.run_cons.mpr ⟨_, hcommit, rfl⟩⟩⟩

/-- The files are applied one after the other. -/
theorem run_applyFiles {files versions : List String} (hpc : s.pc r = .looping [] files)
    (hclosed : s.transaction r = []) (htable : s.db.schemaMigrations = some versions) (hnodup : files.Nodup)
    (hnew : ∀ version ∈ files, version ∉ versions) :
    ∃ t, Runs.run (step digit directory) s (applyFiles r files) = some t ∧
      t.db.executed = s.db.executed ++ files := by
  induction files generalizing s versions with
  | nil => exact ⟨s, rfl, (List.append_nil _).symm⟩
  | cons version rest ih =>
      obtain ⟨hrest, hnodup'⟩ := List.nodup_cons.mp hnodup
      obtain ⟨t, hrun, hpc', hclosed', htable', hexecuted⟩ :=
        run_applyFile digit directory hpc hclosed htable (hnew version List.mem_cons_self)
      have hnew' : ∀ name ∈ rest, name ∉ versions ++ [version] := by
        intro name hname hmem
        rw [List.mem_append, List.mem_singleton] at hmem
        obtain hold | rfl := hmem
        · exact hnew name (List.mem_cons_of_mem _ hname) hold
        · exact hrest hname
      obtain ⟨u, hrun', hexecuted'⟩ := ih hpc' hclosed' htable' hnodup' hnew'
      refine ⟨u, ?_, ?_⟩
      · exact Runs.run_append.mpr ⟨t, hrun, hrun'⟩
      · rw [hexecuted', hexecuted, List.append_assoc, List.singleton_append]

variable {directory} in
/-- The migrations of a fresh database are the files as listed. -/
theorem run_freshRun (r : T) {listing : List String} (hset : directory.Nodup) (hperm : listing.Perm directory) :
    ∃ s : State T, Runs.run (step digit directory) init (freshRun digit r listing) = some s ∧
      s.db.executed = getMigrationFiles digit listing := by
  have hnodup : (getMigrationFiles digit listing).Nodup := by
    rw [getMigrationFiles_eq, (perm_sortByKey _ _).nodup_iff]
    exact (hperm.nodup_iff.mpr hset).filter _
  have hstart : ∃ s : State T, Runs.run (step digit directory) init
      [.launch r, .ensureTable r, .readApplied r listing] = some s ∧
        s.pc r = .looping [] (getMigrationFiles digit listing) ∧ s.transaction r = [] ∧
        s.db.schemaMigrations = some [] ∧ s.db.executed = [] := by
    simp [Runs.run, step, init, hperm, State.goto, Database.versions]
  obtain ⟨s, hrun, hpc, hclosed, htable, hexecuted⟩ := hstart
  obtain ⟨t, hrun', hexecuted'⟩ := run_applyFiles digit directory hpc hclosed htable hnodup (by simp)
  refine ⟨t, Runs.run_append.mpr ⟨s, hrun, hrun'⟩, ?_⟩
  rw [hexecuted', hexecuted, List.nil_append]

end Machine

variable (directory : List String)

/-- The migrations of a directory, whatever order it is listed in. -/
structure ListingFree : Prop where
  exactly : ∀ listing, listing.Perm directory →
    (getMigrationFiles digit listing).Perm (directory.filter (isMigrationFile digit))
  inOrder : ∀ listing, listing.Perm directory → (getMigrationFiles digit listing).Pairwise
    fun name name' => numericPrefix digit name ≤ numericPrefix digit name'
  same : ∀ listing listing', listing.Perm directory → listing'.Perm directory →
    getMigrationFiles digit listing = getMigrationFiles digit listing'
  machines : ∃ migrations, ∀ listing, listing.Perm directory → ∃ s : State Unit,
    Runs.run (step digit directory) init (freshRun digit () listing) = some s ∧ s.db.executed = migrations

/-- No two migrations have one number. -/
def DistinctNumbers : Prop :=
  ∀ name ∈ directory, ∀ name' ∈ directory, isMigrationFile digit name → isMigrationFile digit name' →
    numericPrefix digit name = numericPrefix digit name' → name = name'

variable {directory}

theorem distinctNumbers_iff :
    DistinctNumbers digit directory ↔
      Separates (numericPrefix digit) (directory.filter (isMigrationFile digit)) := by
  simp only [DistinctNumbers, Separates, List.mem_filter]
  constructor
  · intro h name hname name' hname'
    exact h name hname.1 name' hname'.1 hname.2 hname'.2
  · intro h name hmem name' hmem' hfile hfile'
    exact h name ⟨hmem, hfile⟩ name' ⟨hmem', hfile'⟩

/-- The order of the listing never matters if and only if no two migrations have one number. -/
theorem listingFree_iff (hset : directory.Nodup) :
    ListingFree digit directory ↔ DistinctNumbers digit directory := by
  rw [distinctNumbers_iff, ← sortByKey_eq_iff]
  constructor
  · intro h files hfiles
    -- the other names of the directory may stand behind the migrations
    have hperm : (files ++ directory.filter fun name => !isMigrationFile digit name).Perm directory :=
      (hfiles.append_right _).trans (List.filter_append_perm _ _)
    have hall : files.filter (isMigrationFile digit) = files :=
      List.filter_eq_self.mpr fun name hname => (List.mem_filter.mp (hfiles.mem_iff.mp hname)).2
    have hsame := h.same _ _ hperm (List.Perm.refl directory)
    rw [getMigrationFiles_eq, getMigrationFiles_eq, List.filter_append, hall, List.filter_filter] at hsame
    simpa using hsame
  · intro hsorted
    have hfiles : ∀ listing, listing.Perm directory →
        getMigrationFiles digit listing = getMigrationFiles digit directory := by
      intro listing hperm
      rw [getMigrationFiles_eq, getMigrationFiles_eq]
      exact hsorted _ (hperm.filter _)
    refine ⟨fun listing hperm => ?_, fun listing _ => pairwise_getMigrationFiles digit listing,
      fun listing listing' hperm hperm' => (hfiles listing hperm).trans (hfiles listing' hperm').symm,
      getMigrationFiles digit directory, fun listing hperm => ?_⟩
    · rw [getMigrationFiles_eq]
      exact (perm_sortByKey _ _).trans (hperm.filter _)
    · obtain ⟨s, hrun, hexecuted⟩ := run_freshRun digit () hset hperm
      exact ⟨s, hrun, hexecuted.trans (hfiles listing hperm)⟩

theorem listingFree_twoFiles :
    ListingFree asciiDigit ["001_bronze_schema.sql", "002_bronze_trade_id_index.sql"] := by
  have hdistinct : DistinctNumbers asciiDigit ["001_bronze_schema.sql", "002_bronze_trade_id_index.sql"] := by
    unfold DistinctNumbers
    decide +kernel
  exact (listingFree_iff asciiDigit (by decide +kernel)).mpr hdistinct

/-- Two files with one number change places with the listing. -/
theorem shared_number_depends_on_listing :
    ¬ ListingFree asciiDigit ["003_silver_schema.sql", "003_gold_schema.sql"] := by
  intro h
  have hsame := h.same ["003_silver_schema.sql", "003_gold_schema.sql"]
    ["003_gold_schema.sql", "003_silver_schema.sql"] (List.Perm.refl _) (List.Perm.swap ..)
  exact absurd hsame (by decide +kernel)

end CryptoLakehouse.Migrate
