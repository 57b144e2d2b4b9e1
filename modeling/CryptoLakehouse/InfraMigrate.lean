import CryptoLakehouse.LibraryRuns
import CryptoLakehouse.LibraryStableSort
import Mathlib.Logic.Function.Basic

/-! `infra/migrate.py`: any number of runners on one database, each of which may fail or be killed at any
step. A runner decides by the versions that it read at its start. What it sends for a file is in its open
transaction until the commit, and the primary key of `schema_migrations` refuses a version that is there. -/

namespace CryptoLakehouse.Migrate

section Files

-- the characters that `\d` matches, and what `int` makes of them
variable (digit : Char → Option Nat)

/-- What `^(\d+)` matches. -/
def leadingDigits : List Char → List Nat
  | [] => []
  | c :: rest =>
      match digit c with
      | some d => d :: leadingDigits rest
      | none => []

def numericPrefix (name : String) : Int :=
  match leadingDigits digit name.toList with
  | [] => -1
  | digits => (digits.foldl (fun n d => 10 * n + d) 0 : Nat)

/-- The names of the `.sql` files that begin with a digit, sorted by their numbers. -/
def getMigrationFiles (listing : List String) : List String :=
  (listing.filter fun name => ".sql".toList.isSuffixOf name.toList &&
    !(leadingDigits digit name.toList).isEmpty).insertionSort
      fun name name' => numericPrefix digit name ≤ numericPrefix digit name'

/-- A `.sql` file whose name begins with a digit. -/
def isMigrationFile (name : String) : Bool :=
  ".sql".toList.isSuffixOf name.toList && !(leadingDigits digit name.toList).isEmpty

theorem getMigrationFiles_eq (listing : List String) : getMigrationFiles digit listing =
    StableSort.sortByKey (numericPrefix digit) (listing.filter (isMigrationFile digit)) :=
  rfl

end Files

/-- `executed` lists the files whose SQL is committed, in the order of the commits. -/
structure Database where
  schemaMigrations : Option (List String)
  executed : List String

def Database.versions (db : Database) : List String := db.schemaMigrations.getD []

/-- The SQL of a file, or `RECORD_MIGRATION`. -/
inductive Statement where
  | sql (file : String)
  | record (version : String)
  deriving DecidableEq

/-- Where a runner stands in `run_migrations`. -/
inductive Pc where
  | off
  | starting
  | reading
  | looping (applied rest : List String)
  | executed (applied : List String) (version : String) (rest : List String)
  | recorded (applied : List String) (version : String) (rest : List String)

/-- `transaction` has what a runner has sent since its last commit; nobody else sees it. -/
structure State (T : Type) where
  db : Database
  pc : T → Pc
  transaction : T → List Statement

/-- `commitUnseen` is a commit that raises although the server committed; `stop` is the end of a runner, by
its last statement, an error or a kill, and its open transaction is rolled back. -/
inductive Action (T : Type) where
  | launch (r : T)
  | ensureTable (r : T)
  | readApplied (r : T) (listing : List String)
  | skip (r : T)
  | execute (r : T)
  | record (r : T)
  | commit (r : T)
  | commitUnseen (r : T)
  | stop (r : T)

section Code

variable {T : Type} [DecidableEq T] (digit : Char → Option Nat) (directory : List String)

def init : State T := ⟨⟨none, []⟩, fun _ => .off, fun _ => []⟩

def State.goto (s : State T) (r : T) (pc : Pc) : State T := { s with pc := Function.update s.pc r pc }

/-- `cur.execute` -/
def State.send (s : State T) (r : T) (statement : Statement) : State T :=
  { s with transaction := Function.update s.transaction r (s.transaction r ++ [statement]) }

/-- The transaction is over. -/
def State.close (s : State T) (r : T) : State T := { s with transaction := Function.update s.transaction r [] }

@[simp] theorem goto_db (s : State T) (r : T) (pc : Pc) : (s.goto r pc).db = s.db := rfl
@[simp] theorem goto_transaction (s : State T) (r : T) (pc : Pc) : (s.goto r pc).transaction = s.transaction := rfl
theorem goto_pc (s : State T) (r r' : T) (pc : Pc) : (s.goto r pc).pc r' = if r' = r then pc else s.pc r' :=
  Function.update_apply ..

theorem send_transaction (s : State T) (r : T) (statement : Statement) :
    (s.send r statement).transaction r = s.transaction r ++ [statement] := Function.update_self ..
theorem close_transaction (s : State T) (r : T) : (s.close r).transaction r = [] := Function.update_self ..

/-- What a statement does once it is committed; `none` where the table is missing or the primary key has the
version. -/
def Database.apply (db : Database) : Statement → Option Database
  | .sql file => some { db with executed := db.executed ++ [file] }
  | .record version =>
      match db.schemaMigrations with
      | none => none
      | some versions =>
          if version ∈ versions then none else some { db with schemaMigrations := some (versions ++ [version]) }

/-- All of a transaction, or nothing. -/
def Database.commit (db : Database) (transaction : List Statement) : Option Database :=
  transaction.foldlM Database.apply db

/-- The directory may be listed in any order. -/
def step (s : State T) : Action T → Option (State T)
  | .launch r =>
      match s.pc r with
      | .off => some (s.goto r .starting)
      | _ => none
  | .ensureTable r =>
      match s.pc r with
      | .starting => some ({ s with db := { s.db with schemaMigrations := some s.db.versions } }.goto r .reading)
      | _ => none
  | .readApplied r listing =>
      match s.pc r, s.db.schemaMigrations with
      | .reading, some applied =>
          if listing.Perm directory then some (s.goto r (.looping applied (getMigrationFiles digit listing)))
          else none
      | _, _ => none
  | .skip r =>
      match s.pc r with
      | .looping applied (version :: rest) =>
          if version ∈ applied then some (s.goto r (.looping applied rest)) else none
      | _ => none
  | .execute r =>
      match s.pc r with
      | .looping applied (version :: rest) =>
          if version ∈ applied then none else some ((s.send r (.sql version)).goto r (.executed applied version rest))
      | _ => none
  | .record r =>
      match s.pc r with
      | .executed applied version rest =>
          some ((s.send r (.record version)).goto r (.recorded applied version rest))
      | _ => none
  | .commit r =>
      match s.pc r with
      | .recorded applied _ rest =>
          (s.db.commit (s.transaction r)).map fun db => ({ s with db := db }.close r).goto r (.looping applied rest)
      | _ => none
  | .commitUnseen r =>
      match s.pc r with
      | .recorded _ _ _ => (s.db.commit (s.transaction r)).map fun db => ({ s with db := db }.close r).goto r .off
      | _ => none
  | .stop r => some ((s.close r).goto r .off)

end Code

section Steps

variable {T : Type} [DecidableEq T] (digit : Char → Option Nat) (directory : List String)

/-- What each action needs, and where it leads. -/
inductive Transition (s : State T) : Action T → State T → Prop where
  | launch (r : T) (hpc : s.pc r = .off) : Transition s (.launch r) (s.goto r .starting)
  | ensureTable (r : T) (hpc : s.pc r = .starting) : Transition s (.ensureTable r)
      ({ s with db := { s.db with schemaMigrations := some s.db.versions } }.goto r .reading)
  | readApplied (r : T) (listing applied : List String) (hpc : s.pc r = .reading)
      (htable : s.db.schemaMigrations = some applied) (hlisting : listing.Perm directory) :
      Transition s (.readApplied r listing) (s.goto r (.looping applied (getMigrationFiles digit listing)))
  | skip (r : T) (applied : List String) (version : String) (rest : List String)
      (hpc : s.pc r = .looping applied (version :: rest)) (hmem : version ∈ applied) :
      Transition s (.skip r) (s.goto r (.looping applied rest))
  | execute (r : T) (applied : List String) (version : String) (rest : List String)
      (hpc : s.pc r = .looping applied (version :: rest)) (hnew : version ∉ applied) :
      Transition s (.execute r) ((s.send r (.sql version)).goto r (.executed applied version rest))
  | record (r : T) (applied : List String) (version : String) (rest : List String)
      (hpc : s.pc r = .executed applied version rest) :
      Transition s (.record r) ((s.send r (.record version)).goto r (.recorded applied version rest))
  | commit (r : T) (applied : List String) (version : String) (rest : List String) (db : Database)
      (hpc : s.pc r = .recorded applied version rest) (hcommit : s.db.commit (s.transaction r) = some db) :
      Transition s (.commit r) (({ s with db := db }.close r).goto r (.looping applied rest))
  | commitUnseen (r : T) (applied : List String) (version : String) (rest : List String) (db : Database)
      (hpc : s.pc r = .recorded applied version rest) (hcommit : s.db.commit (s.transaction r) = some db) :
      Transition s (.commitUnseen r) (({ s with db := db }.close r).goto r .off)
  | stop (r : T) : Transition s (.stop r) ((s.close r).goto r .off)

variable {digit directory} {s t : State T}

theorem transition_iff {a : Action T} : Transition digit directory s a t ↔ step digit directory s a = some t := by
  constructor
  · intro h
    cases h with
    | launch r hpc => simp only [step, hpc]
    | ensureTable r hpc => simp only [step, hpc]
    | readApplied r listing applied hpc htable hlisting => simp only [step, hpc, htable, if_pos hlisting]
    | skip r applied version rest hpc hmem => simp only [step, hpc, if_pos hmem]
    | execute r applied version rest hpc hnew => simp only [step, hpc, if_neg hnew]
    | record r applied version rest hpc => simp only [step, hpc]
    | commit r applied version rest db hpc hcommit => simp only [step, hpc, hcommit, Option.map_some]
    | commitUnseen r applied version rest db hpc hcommit => simp only [step, hpc, hcommit, Option.map_some]
    | stop r => rfl
  · intro h
    cases a with
    | launch r =>
        simp only [step] at h
        split at h <;> cases h
        exact .launch r ‹_›
    | ensureTable r =>
        simp only [step] at h
        split at h <;> cases h
        exact .ensureTable r ‹_›
    | readApplied r listing =>
        simp only [step] at h
        split at h
        · split_ifs at h with hlisting
          cases h
          exact .readApplied r listing _ ‹_› ‹_› hlisting
        · cases h
    | skip r =>
        simp only [step] at h
        split at h
        · split_ifs at h with hmem
          cases h
          exact .skip r _ _ _ ‹_› hmem
        · cases h
    | execute r =>
        simp only [step] at h
        split at h
        · split_ifs at h with hmem
          cases h
          exact .execute r _ _ _ ‹_› hmem
        · cases h
    | record r =>
        simp only [step] at h
        split at h <;> cases h
        exact .record r _ _ _ ‹_›
    | commit r =>
        simp only [step] at h
        split at h
        · obtain ⟨db, hcommit, rfl⟩ := Option.map_eq_some_iff.mp h
          exact .commit r _ _ _ db ‹_› hcommit
        · cases h
    | commitUnseen r =>
        simp only [step] at h
        split at h
        · obtain ⟨db, hcommit, rfl⟩ := Option.map_eq_some_iff.mp h
          exact .commitUnseen r _ _ _ db ‹_› hcommit
        · cases h
    | stop r =>
        cases h
        exact .stop r

end Steps

section Order

variable {digit : Char → Option Nat} {directory : List String}

variable (digit) in
theorem pairwise_getMigrationFiles (listing : List String) :
    (getMigrationFiles digit listing).Pairwise
      fun name name' => numericPrefix digit name ≤ numericPrefix digit name' := by
  rw [getMigrationFiles_eq]
  exact StableSort.pairwise_sortByKey _ _

/-- With distinct numbers the order of the listing does not matter. -/
theorem getMigrationFiles_perm {listing : List String} (hperm : listing.Perm directory)
    (hdistinct : ((getMigrationFiles digit directory).map (numericPrefix digit)).Nodup) :
    getMigrationFiles digit listing = getMigrationFiles digit directory := by
  have hseparates : StableSort.Separates (numericPrefix digit) (directory.filter (isMigrationFile digit)) := by
    intro name hname name' hname' hnumber
    rw [getMigrationFiles_eq] at hdistinct
    rw [← (StableSort.perm_sortByKey (numericPrefix digit) _).mem_iff] at hname hname'
    exact List.inj_on_of_nodup_map hdistinct hname hname' hnumber
  rw [getMigrationFiles_eq, getMigrationFiles_eq]
  exact hseparates.sortByKey_eq (hperm.filter _)

/-- The next file of a runner that has only files in front of it to commit continues the prefix that is
committed. -/
theorem eq_of_prefix_of_subset {files versions done rest : List String} {version : String}
    (hnodup : files.Nodup) (hversions : versions <+: files) (hfiles : done ++ version :: rest = files)
    (hdone : done ⊆ versions) (hnew : version ∉ versions) : versions = done := by
  have hprefix : done <+: files := ⟨version :: rest, hfiles⟩
  rcases List.prefix_or_prefix_of_prefix hprefix hversions with ⟨more, rfl⟩ | ⟨more, rfl⟩
  · cases more with
    | nil => rw [List.append_nil]
    | cons next more =>
        rw [← hfiles, List.prefix_append_right_inj, List.cons_prefix_cons] at hversions
        exact absurd (by simp [hversions.1]) hnew
  · cases more with
    | nil => rw [List.append_nil]
    | cons next more =>
        have hnext := hdone (List.mem_append_right versions (List.mem_cons_self (a := next) (l := more)))
        rw [← hfiles, List.append_assoc, List.nodup_append] at hnodup
        exact absurd rfl (hnodup.2.2 next hnext next (by simp))

end Order

/-- Every file that a runner has behind it is committed. -/
def Ahead (files versions rest : List String) : Prop := ∃ done, done ++ rest = files ∧ done ⊆ versions

/-- What a runner knows where it stands; what it has read may be out of date. -/
def Position (files versions : List String) : Pc → Prop
  | .looping applied rest => applied ⊆ versions ∧ Ahead files versions rest
  | .executed applied version rest | .recorded applied version rest =>
      applied ⊆ versions ∧ Ahead files versions (version :: rest)
  | .off | .starting | .reading => True

theorem Position.mono {files versions versions' : List String} (hgrows : versions ⊆ versions') {pc : Pc}
    (h : Position files versions pc) : Position files versions' pc := by
  have hahead : ∀ rest, Ahead files versions rest → Ahead files versions' rest :=
    fun rest ⟨done, hfiles, hdone⟩ => ⟨done, hfiles, fun _ hmem => hgrows (hdone hmem)⟩
  cases pc with
  | off | starting | reading => trivial
  | looping applied rest => exact ⟨fun _ hmem => hgrows (h.1 hmem), hahead _ h.2⟩
  | executed applied version rest | recorded applied version rest =>
      exact ⟨fun _ hmem => hgrows (h.1 hmem), hahead _ h.2⟩

/-- What is in the transaction of a runner that stands there. -/
def Pc.sent : Pc → List Statement
  | .executed _ version _ => [.sql version]
  | .recorded _ version _ => [.sql version, .record version]
  | .off | .starting | .reading | .looping _ _ => []

structure Inv {T : Type} (files : List String) (s : State T) : Prop where
  committed : s.db.executed = s.db.versions
  inOrder : s.db.versions <+: files
  runners : ∀ r, Position files s.db.versions (s.pc r)
  opened : ∀ r, s.transaction r = (s.pc r).sent

section Invariant

variable {T : Type} [DecidableEq T] {digit : Char → Option Nat} {directory files : List String}
  {s t : State T} {a : Action T}

omit [DecidableEq T] in
theorem inv_init (files : List String) : Inv files (init : State T) :=
  ⟨rfl, List.nil_prefix, fun _ => trivial, fun _ => rfl⟩

theorem Inv.goto (h : Inv files s) (r : T) {pc : Pc} {sent : List Statement} (hsent : sent = pc.sent)
    (hpc : Position files s.db.versions pc) :
    Inv files ({ s with transaction := Function.update s.transaction r sent }.goto r pc) := by
  refine ⟨h.committed, h.inOrder, fun other => ?_, fun other => ?_⟩
  · rw [goto_pc, goto_db]
    split_ifs
    · exact hpc
    · exact h.runners other
  · show Function.update s.transaction r sent other = (Function.update s.pc r pc other).sent
    rw [Function.update_apply, Function.update_apply]
    split_ifs
    · exact hsent
    · exact h.opened other

/-- A step that sends nothing. -/
theorem Inv.pass (h : Inv files s) (r : T) {pc : Pc} (hsent : (s.pc r).sent = pc.sent)
    (hpc : Position files s.db.versions pc) : Inv files (s.goto r pc) := by
  have hgoto := h.goto r ((h.opened r).trans hsent) hpc
  rwa [Function.update_eq_self] at hgoto

omit [DecidableEq T] in
theorem Inv.position (h : Inv files s) {r : T} {pc : Pc} (hpc : s.pc r = pc) :
    Position files s.db.versions pc := by
  rw [← hpc]
  exact h.runners r

/-- The SQL of a file and its record, in one transaction. -/
theorem commit_pair {db db' : Database} {version : String}
    (h : db.commit [.sql version, .record version] = some db') :
    version ∉ db.versions ∧ db'.versions = db.versions ++ [version] ∧ db'.executed = db.executed ++ [version] := by
  obtain ⟨schemaMigrations, executed⟩ := db
  cases schemaMigrations with
  | none => cases h
  | some versions =>
      simp only [Database.commit, List.foldlM_cons, List.foldlM_nil, Database.apply, Option.bind_eq_bind,
        Option.bind_some, Option.pure_def, Option.bind_fun_some] at h
      split_ifs at h with hthere
      obtain rfl := Option.some.inj h
      exact ⟨hthere, rfl, rfl⟩

omit [DecidableEq T] in
/-- A commit appends the next file in order, whatever other runners have committed meanwhile. -/
theorem Inv.commit (h : Inv files s) (hnodup : files.Nodup) {r : T} {applied rest : List String}
    {version : String} (hpc : s.pc r = .recorded applied version rest) {db : Database}
    (hcommit : s.db.commit (s.transaction r) = some db) :
    Inv files { s with db := db } ∧ Position files db.versions (.looping applied rest) := by
  rw [h.opened, hpc] at hcommit
  obtain ⟨hthere, hrecorded, hexecuted⟩ := commit_pair hcommit
  obtain ⟨happlied, done, hfiles, hdone⟩ := h.position hpc
  have hversions := eq_of_prefix_of_subset hnodup h.inOrder hfiles hdone hthere
  have hgrows : s.db.versions ⊆ db.versions := by
    rw [hrecorded]
    exact List.subset_append_left _ _
  refine ⟨⟨?_, ?_, fun other => (h.runners other).mono hgrows, h.opened⟩, fun _ hmem => hgrows (happlied hmem), ?_⟩
  · show db.executed = db.versions
    rw [hexecuted, hrecorded, h.committed]
  · show db.versions <+: files
    exact ⟨rest, by rw [hrecorded, hversions, List.append_assoc, List.singleton_append, hfiles]⟩
  · refine ⟨done ++ [version], by rw [List.append_assoc, List.singleton_append, hfiles], ?_⟩
    rw [hrecorded, hversions]
    exact List.Subset.refl _

theorem inv_step (h : Inv files s) (hnodup : files.Nodup)
    (hfiles : ∀ listing : List String, listing.Perm directory → getMigrationFiles digit listing = files)
    (hstep : step digit directory s a = some t) : Inv files t := by
  cases transition_iff.mpr hstep with
  | launch r hpc => exact h.pass r (by rw [hpc]; rfl) trivial
  | ensureTable r hpc =>
      have hsame : Inv files { s with db := { s.db with schemaMigrations := some s.db.versions } } :=
        ⟨h.committed, h.inOrder, h.runners, h.opened⟩
      exact hsame.pass r (by rw [hpc]; rfl) trivial
  | readApplied r listing applied hpc htable hlisting =>
      have happlied : applied ⊆ s.db.versions := by
        rw [Database.versions, htable]
        exact List.Subset.refl _
      rw [hfiles listing hlisting]
      exact h.pass r (by rw [hpc]; rfl) ⟨happlied, [], rfl, List.nil_subset _⟩
  | skip r applied version rest hpc hmem =>
      obtain ⟨happlied, done, hall, hdone⟩ := h.position hpc
      refine h.pass r (by rw [hpc]; rfl)
        ⟨happlied, done ++ [version], by rw [List.append_assoc, List.singleton_append, hall], ?_⟩
      exact List.append_subset.mpr ⟨hdone, by simpa using happlied hmem⟩
  | execute r applied version rest hpc hnew =>
      have hposition := h.position hpc
      exact h.goto r (by rw [h.opened, hpc]; rfl) hposition
  | record r applied version rest hpc =>
      have hposition := h.position hpc
      exact h.goto r (by rw [h.opened, hpc]; rfl) hposition
  | commit r applied version rest db hpc hcommit =>
      obtain ⟨hinv, hposition⟩ := h.commit hnodup hpc hcommit
      exact hinv.goto r rfl hposition
  | commitUnseen r applied version rest db hpc hcommit => exact (h.commit hnodup hpc hcommit).1.goto r rfl trivial
  | stop r => exact h.goto r rfl trivial

end Invariant

/-- A version is recorded exactly when its SQL is committed, no SQL is committed twice, and with a file all
files with smaller numbers are committed. -/
structure OnceInOrder (digit : Char → Option Nat) (directory : List String) (db : Database) : Prop where
  recorded_iff : ∀ version, version ∈ db.versions ↔ version ∈ db.executed
  once : db.executed.Nodup
  ordered : ∀ version ∈ db.executed, ∀ name ∈ getMigrationFiles digit directory,
    numericPrefix digit name < numericPrefix digit version → name ∈ db.executed

theorem Inv.onceInOrder {T : Type} {digit : Char → Option Nat} {directory : List String} {s : State T}
    (h : Inv (getMigrationFiles digit directory) s) (hnodup : (getMigrationFiles digit directory).Nodup) :
    OnceInOrder digit directory s.db where
  recorded_iff version := by rw [h.committed]
  once := by
    rw [h.committed]
    exact hnodup.sublist h.inOrder.sublist
  ordered version hversion name hname hlt := by
    rw [h.committed] at hversion ⊢
    have hsorted := pairwise_getMigrationFiles digit directory
    obtain ⟨rest, hrest⟩ := h.inOrder
    rw [← hrest] at hname hsorted
    rcases List.mem_append.mp hname with hmem | hlater
    · exact hmem
    · exact absurd hlt (not_lt.mpr ((List.pairwise_append.mp hsorted).2.2 version hversion name hlater))

/-- **Migrations take effect once and in order**, whatever runners do, fail at or are killed at. -/
theorem migrations_once_in_order {T : Type} [DecidableEq T] {digit : Char → Option Nat}
    {directory : List String}
    (hdistinct : ((getMigrationFiles digit directory).map (numericPrefix digit)).Nodup)
    {as : List (Action T)} {s : State T} (hrun : Runs.run (step digit directory) init as = some s) :
    OnceInOrder digit directory s.db := by
  have hnodup : (getMigrationFiles digit directory).Nodup := hdistinct.of_map
  have hfiles : ∀ listing : List String, listing.Perm directory →
      getMigrationFiles digit listing = getMigrationFiles digit directory :=
    fun listing hperm => getMigrationFiles_perm hperm hdistinct
  have hinv := Runs.invariant (fun _ _ _ h hstep => inv_step h hnodup hfiles hstep)
    (inv_init (getMigrationFiles digit directory)) hrun
  exact hinv.onceInOrder hnodup

def asciiDigit (c : Char) : Option Nat := if c.isDigit then some (c.toNat - 48) else none

/-- The second runner starts while the first one is inside the first file, and its commit of that file is
refused; the first one is killed in the second file. -/
def twoRunners : List (Action Bool) :=
  [.launch true, .ensureTable true, .launch false,
    .readApplied true ["002_bronze_trade_id_index.sql", "001_bronze_schema.sql"], .execute true, .ensureTable false,
    .readApplied false ["001_bronze_schema.sql", "002_bronze_trade_id_index.sql"], .record true, .execute false,
    .record false, .commit true, .execute true, .stop false, .stop true]

theorem migrations_once_in_order_twoRunners :
    ∃ s, Runs.run (step asciiDigit ["001_bronze_schema.sql", "002_bronze_trade_id_index.sql"]) init twoRunners =
        some s ∧ s.db.executed = ["001_bronze_schema.sql"] ∧
      OnceInOrder asciiDigit ["001_bronze_schema.sql", "002_bronze_trade_id_index.sql"] s.db := by
  have hrun : (Runs.run (step asciiDigit ["001_bronze_schema.sql", "002_bronze_trade_id_index.sql"]) init
      twoRunners).any (fun s => decide (s.db.executed = ["001_bronze_schema.sql"])) = true := by
    decide +kernel
  obtain ⟨s, hs, hexecuted⟩ := (Option.any_eq_true _ _).mp hrun
  exact ⟨s, hs, of_decide_eq_true hexecuted, migrations_once_in_order (by decide +kernel) hs⟩

end CryptoLakehouse.Migrate
