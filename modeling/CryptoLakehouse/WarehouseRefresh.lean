import CryptoLakehouse.LibraryRuns
import CryptoLakehouse.WarehouseSilver
import Mathlib.Data.List.Induction
import Mathlib.Logic.Function.Basic

/-! Inserts of any number of consumers interleaved with `dbt run` of `stg_trades`. An insert takes its
stamp when it begins and becomes visible when it commits; a row that an open transaction already holds
makes a second insert of its trade id wait, so conflicts are resolved in commit order. -/

namespace CryptoLakehouse.Refresh

/-- A transaction of `insert_batch`, or of `insert_one` with a single trade. -/
structure Insert where
  receivedAt : Instant
  trades : List Dict

/-- `seen` is the length of bronze at the last run of dbt; the warehouse keeps no record of it. -/
structure State where
  bronze : Bronze
  inserts : Nat → Option Insert
  silver : Option (List SilverTrade)
  seen : Nat

inductive Action where
  | begin (transaction : Nat) (insert : Insert)
  | commit (transaction : Nat)
  | abort (transaction : Nat)
  | dbtRun

variable (pg : Postgres)

def init : State := ⟨[], fun _ => none, none, 0⟩

/-- A `dbtRun` that raises changes nothing and is no step. -/
def step (s : State) : Action → Option State
  | .begin k insert =>
      match s.inserts k with
      | none => some { s with inserts := Function.update s.inserts k (some insert) }
      | some _ => none
  | .commit k =>
      (s.inserts k).map fun insert =>
        { s with
          bronze := insertBatch pg s.bronze insert.receivedAt insert.trades
          inserts := Function.update s.inserts k none }
  | .abort k => (s.inserts k).map fun _ => { s with inserts := Function.update s.inserts k none }
  | .dbtRun => (runStgTrades pg s.silver s.bronze).map fun table =>
      { s with silver := some table, seen := s.bronze.length }

/-- An incremental run meets the rows that were committed since the last one, and have a trade id, with
stamps above its watermark. -/
def Timely (s : State) : Action → Prop
  | .dbtRun => ∀ table, s.silver = some table →
      ∀ row ∈ s.bronze.drop s.seen, row.tradeId pg ≠ none → watermark table < row.receivedAt
  | _ => True

/-- `silver.stg_trades` holds what a full refresh over bronze would produce. -/
def FullyRefreshed (s : State) : Prop :=
  ∃ table full, s.silver = some table ∧ stgTrades pg none s.bronze = some full ∧ table.Perm full

section Invariant

variable {pg} {s t : State} {a : Action}

structure WellFormed (pg : Postgres) (s : State) : Prop where
  unique : KeyedTable.KeyUnique (RawTrade.tradeId pg) s.bronze
  seen : s.seen ≤ s.bronze.length

/-- Nothing was skipped so far. -/
def InSync (pg : Postgres) (s : State) : Prop :=
  match s.silver with
  | none => s.seen = 0
  | some table => Mirrors pg (s.bronze.take s.seen) table

/-- A trade was skipped, and the watermark is past it. -/
def Missed (pg : Postgres) (s : State) : Prop :=
  ∃ table row i, s.silver = some table ∧ row ∈ s.bronze.take s.seen ∧ row.tradeId pg = some i ∧
    i ∉ table.map SilverTrade.tradeId ∧ row.receivedAt ≤ watermark table

/-- A step is a run of dbt, or at most adds rows to bronze. -/
theorem step_cases (h : step pg s a = some t) :
    (a ≠ .dbtRun ∧ s.bronze <+: t.bronze ∧ t.silver = s.silver ∧ t.seen = s.seen ∧
        (KeyedTable.KeyUnique (RawTrade.tradeId pg) s.bronze →
          KeyedTable.KeyUnique (RawTrade.tradeId pg) t.bronze)) ∨
      (a = .dbtRun ∧ ∃ table, runStgTrades pg s.silver s.bronze = some table ∧
        t = { s with silver := some table, seen := s.bronze.length }) := by
  cases a with
  | begin k insert =>
      rw [step] at h
      split at h
      · obtain rfl := Option.some.inj h
        exact .inl ⟨by simp, List.prefix_rfl, rfl, rfl, id⟩
      · cases h
  | commit k =>
      obtain ⟨insert, -, rfl⟩ := Option.map_eq_some_iff.mp h
      exact .inl ⟨by simp, KeyedTable.table_isPrefix_insertAbsent _ _ _, rfl, rfl,
        KeyedTable.keyUnique_insertAbsent _ _⟩
  | abort k =>
      obtain ⟨insert, -, rfl⟩ := Option.map_eq_some_iff.mp h
      exact .inl ⟨by simp, List.prefix_rfl, rfl, rfl, id⟩
  | dbtRun =>
      obtain ⟨table, htable, rfl⟩ := Option.map_eq_some_iff.mp h
      exact .inr ⟨rfl, table, htable, rfl⟩

theorem wellFormed_step (hs : WellFormed pg s) (h : step pg s a = some t) : WellFormed pg t := by
  rcases step_cases h with ⟨-, hgrows, -, hseen, hunique⟩ | ⟨-, table, -, rfl⟩
  · exact ⟨hunique hs.unique, hseen ▸ hs.seen.trans hgrows.length_le⟩
  · exact ⟨hs.unique, le_rfl⟩

theorem take_seen (hs : WellFormed pg s) (hgrows : s.bronze <+: t.bronze) (hseen : t.seen = s.seen) :
    t.bronze.take t.seen = s.bronze.take s.seen := by
  obtain ⟨rows, hrows⟩ := hgrows
  rw [hseen, ← hrows, List.take_append_of_le_length hs.seen]

/-- An old part and a new part that together hold every trade make the whole. -/
theorem mirrors_replaceByKey {bronze old new : Bronze} {table rows : List SilverTrade}
    (hunique : KeyedTable.KeyUnique (RawTrade.tradeId pg) bronze) (hold : Mirrors pg old table)
    (hnew : Mirrors pg new rows) (hsub : old ⊆ bronze) (hsub' : new ⊆ bronze)
    (hcover : ∀ row ∈ bronze, row.tradeId pg ≠ none → row ∈ old ∨ row ∈ new) :
    Mirrors pg bronze (KeyedTable.replaceByKey SilverTrade.tradeId table rows) := by
  refine ⟨KeyedTable.nodup_replaceByKey _ hold.ids hnew.ids, fun x => ?_, fun row hrow hid => ?_⟩
  · rw [KeyedTable.mem_replaceByKey]
    constructor
    · rintro (⟨hx, -⟩ | hx)
      · obtain ⟨row, hrow, hparsed⟩ := (hold.mem x).mp hx
        exact ⟨row, hsub hrow, hparsed⟩
      · obtain ⟨row, hrow, hparsed⟩ := (hnew.mem x).mp hx
        exact ⟨row, hsub' hrow, hparsed⟩
    · rintro ⟨row, hrow, hparsed⟩
      by_cases hreplaced : x.tradeId ∈ rows.map SilverTrade.tradeId
      · obtain ⟨y, hy, hxy⟩ := List.mem_map.mp hreplaced
        obtain ⟨row', hrow', hparsed'⟩ := (hnew.mem y).mp hy
        -- a trade id names one row of bronze, so the replacing row is the row itself
        obtain rfl := hunique.eq_of_key _ hrow (hsub' hrow') (parsed_tradeId hparsed)
          (hxy ▸ parsed_tradeId hparsed')
        exact .inr ((hnew.mem x).mpr ⟨row, hrow', hparsed⟩)
      · rcases hcover row hrow (by simp [parsed_tradeId hparsed]) with hmem | hmem
        · exact .inl ⟨(hold.mem x).mpr ⟨row, hmem, hparsed⟩, hreplaced⟩
        · exact .inr ((hnew.mem x).mpr ⟨row, hmem, hparsed⟩)
  · rcases hcover row hrow hid with hmem | hmem
    · exact hold.casts row hmem hid
    · exact hnew.casts row hmem hid

theorem mirrors_dbtRun {table : List SilverTrade} (hs : WellFormed pg s) (hsync : InSync pg s)
    (htimely : Timely pg s .dbtRun) (h : runStgTrades pg s.silver s.bronze = some table) :
    Mirrors pg s.bronze table := by
  cases hsilver : s.silver with
  | none =>
      rw [hsilver] at h
      exact mirrors_sourceData.mp (mirrors_stgTrades hs.unique h)
  | some old =>
      rw [hsilver] at h
      rw [InSync, hsilver] at hsync
      obtain ⟨rows, hrows, rfl⟩ := Option.map_eq_some_iff.mp h
      refine mirrors_replaceByKey hs.unique hsync (mirrors_stgTrades hs.unique hrows)
        (List.take_subset _ _) (fun row hrow => (mem_sourceData.mp hrow).1) fun row hrow hid => ?_
      rw [← List.take_append_drop s.seen s.bronze, List.mem_append] at hrow
      refine hrow.imp_right fun hmem => mem_sourceData.mpr ⟨List.drop_subset _ _ hmem, hid, ?_⟩
      intro since hsince
      rw [← Option.some.inj hsince]
      exact htimely old hsilver row hmem hid

/-- A trade that is absent and not above the watermark stays so through an incremental run. -/
theorem absent_replaceByKey {bronze : Bronze} {table rows : List SilverTrade} {row : RawTrade} {i : String}
    (hunique : KeyedTable.KeyUnique (RawTrade.tradeId pg) bronze)
    (hrows : stgTrades pg (some (watermark table)) bronze = some rows) (hrow : row ∈ bronze)
    (hid : row.tradeId pg = some i) (habsent : i ∉ table.map SilverTrade.tradeId)
    (hlate : row.receivedAt ≤ watermark table) :
    i ∉ (KeyedTable.replaceByKey SilverTrade.tradeId table rows).map SilverTrade.tradeId ∧
      row.receivedAt ≤ watermark (KeyedTable.replaceByKey SilverTrade.tradeId table rows) := by
  have hmirrors := mirrors_stgTrades hunique hrows
  have hnew : ∀ x ∈ rows, watermark table < x.ingestedAt := by
    intro x hx
    obtain ⟨row', hrow', hparsed⟩ := (hmirrors.mem x).mp hx
    rw [parsed_ingestedAt hparsed]
    exact (mem_sourceData.mp hrow').2.2 _ rfl
  refine ⟨fun hmem => ?_, hlate.trans (watermark_replaceByKey hnew)⟩
  obtain ⟨x, hx, rfl⟩ := List.mem_map.mp hmem
  rcases (KeyedTable.mem_replaceByKey _).mp hx with ⟨hx, -⟩ | hx
  · exact habsent (List.mem_map_of_mem hx)
  · obtain ⟨row', hrow', hparsed⟩ := (hmirrors.mem x).mp hx
    obtain rfl := hunique.eq_of_key _ hrow (mem_sourceData.mp hrow').1 hid (parsed_tradeId hparsed)
    have hlt := hnew x hx
    rw [parsed_ingestedAt hparsed] at hlt
    exact absurd hlate (not_le.mpr hlt)

/-- A run that is not timely skips a trade. -/
theorem absent_of_not_timely {table : List SilverTrade} (hs : WellFormed pg s)
    (hsilver : s.silver = some table) (hsync : InSync pg s) (h : ¬ Timely pg s .dbtRun) :
    ∃ row ∈ s.bronze, ∃ i, row.tradeId pg = some i ∧ i ∉ table.map SilverTrade.tradeId ∧
      row.receivedAt ≤ watermark table := by
  rw [InSync, hsilver] at hsync
  simp only [Timely, hsilver, Option.some.injEq, not_forall, not_lt] at h
  obtain ⟨_, rfl, row, hrow, hid, hlate⟩ := h
  obtain ⟨i, hi⟩ := Option.ne_none_iff_exists'.mp hid
  refine ⟨row, List.drop_subset _ _ hrow, i, hi, fun hmem => ?_, hlate⟩
  obtain ⟨x, hx, rfl⟩ := List.mem_map.mp hmem
  obtain ⟨row', hrow', hparsed⟩ := (hsync.mem x).mp hx
  have hdisjoint := hs.unique
  rw [KeyedTable.KeyUnique, ← List.take_append_drop s.seen s.bronze, List.filterMap_append,
    List.nodup_append] at hdisjoint
  exact hdisjoint.2.2 _ (List.mem_filterMap.mpr ⟨row', hrow', parsed_tradeId hparsed⟩) _
    (List.mem_filterMap.mpr ⟨row, hrow, hi⟩) rfl

theorem inSync_step (hs : WellFormed pg s) (hsync : InSync pg s) (htimely : Timely pg s a)
    (h : step pg s a = some t) : InSync pg t := by
  rcases step_cases h with ⟨-, hgrows, hsilver, hseen, -⟩ | ⟨rfl, table, htable, rfl⟩
  · rw [InSync, hsilver, take_seen hs hgrows hseen, hseen]
    exact hsync
  · rw [InSync, List.take_length]
    exact mirrors_dbtRun hs hsync htimely htable

theorem missed_step (hs : WellFormed pg s) (hmissed : Missed pg s) (h : step pg s a = some t) :
    Missed pg t := by
  obtain ⟨table, row, i, hsilver, hrow, hid, habsent, hlate⟩ := hmissed
  rcases step_cases h with ⟨-, hgrows, hsilver', hseen, -⟩ | ⟨rfl, table', htable, rfl⟩
  · exact ⟨table, row, i, hsilver'.trans hsilver, take_seen hs hgrows hseen ▸ hrow, hid, habsent, hlate⟩
  · rw [hsilver] at htable
    obtain ⟨rows, hrows, rfl⟩ := Option.map_eq_some_iff.mp htable
    have hbronze := List.take_subset _ _ hrow
    obtain ⟨habsent', hlate'⟩ := absent_replaceByKey hs.unique hrows hbronze hid habsent hlate
    exact ⟨_, row, i, rfl, by rwa [List.take_length], hid, habsent', hlate'⟩

theorem missed_of_not_timely (hs : WellFormed pg s) (hsync : InSync pg s) (hlate : ¬ Timely pg s a)
    (h : step pg s a = some t) : Missed pg t := by
  rcases step_cases h with ⟨hother, -⟩ | ⟨rfl, table', htable, rfl⟩
  · cases a with
    | dbtRun => exact absurd rfl hother
    | begin | commit | abort => exact absurd trivial hlate
  · cases hsilver : s.silver with
    | none => exact absurd (fun _ hnone => by rw [hsilver] at hnone; cases hnone) hlate
    | some table =>
        obtain ⟨row, hrow, i, hid, habsent, hbelow⟩ := absent_of_not_timely hs hsilver hsync hlate
        rw [hsilver] at htable
        obtain ⟨rows, hrows, rfl⟩ := Option.map_eq_some_iff.mp htable
        obtain ⟨habsent', hbelow'⟩ := absent_replaceByKey hs.unique hrows hrow hid habsent hbelow
        exact ⟨_, row, i, rfl, by rwa [List.take_length], hid, habsent', hbelow'⟩

/-- A history either met every trade in time and lost none, or lost one for good. -/
theorem inSync_or_missed (as : List Action) (h : Runs.run (step pg) init as = some s) :
    WellFormed pg s ∧ ((Runs.Meets (step pg) (Timely pg) init as ∧ InSync pg s) ∨
      (¬ Runs.Meets (step pg) (Timely pg) init as ∧ Missed pg s)) := by
  induction as using List.reverseRecOn generalizing s with
  | nil =>
      obtain rfl := Option.some.inj h
      exact ⟨⟨List.nodup_nil, le_rfl⟩, .inl ⟨trivial, rfl⟩⟩
  | append_singleton as a ih =>
      obtain ⟨v, hv, hstep⟩ := Runs.run_snoc.mp h
      obtain ⟨hwell, hcases⟩ := ih hv
      refine ⟨wellFormed_step hwell hstep, ?_⟩
      rw [Runs.meets_snoc hv]
      rcases hcases with ⟨hmeets, hsync⟩ | ⟨hlate, hmissed⟩
      · by_cases htimely : Timely pg v a
        · exact .inl ⟨⟨hmeets, htimely⟩, inSync_step hwell hsync htimely hstep⟩
        · exact .inr ⟨fun h => htimely h.2, missed_of_not_timely hwell hsync htimely hstep⟩
      · exact .inr ⟨fun h => hlate h.1, missed_step hwell hmissed hstep⟩

theorem not_mirrors_of_missed {table : List SilverTrade} (hsilver : s.silver = some table)
    (hmissed : Missed pg s) : ¬ Mirrors pg s.bronze table := by
  rintro hmirrors
  obtain ⟨_, row, i, hsilver', hrow, hid, habsent, -⟩ := hmissed
  obtain rfl := Option.some.inj (hsilver.symm.trans hsilver')
  have hbronze := List.take_subset _ _ hrow
  obtain ⟨x, hx⟩ := Option.isSome_iff_exists.mp (hmirrors.casts row hbronze (by simp [hid]))
  refine habsent (List.mem_map.mpr ⟨x, (hmirrors.mem x).mpr ⟨row, hbronze, hx⟩, ?_⟩)
  exact Option.some.inj ((parsed_tradeId hx).symm.trans hid)

end Invariant

/-- **Incremental silver is the full refresh exactly when no run met a late trade.** After any history
that ends in a run of dbt, whether or not inserts are in progress; the table then has one row for each
trade id of bronze. -/
theorem fullyRefreshed_iff_timely (as : List Action) (s : State)
    (h : Runs.run (step pg) init (as ++ [.dbtRun]) = some s) :
    (FullyRefreshed pg s ↔ Runs.Meets (step pg) (Timely pg) init (as ++ [.dbtRun])) ∧
      (FullyRefreshed pg s → ∀ table, s.silver = some table → (table.map SilverTrade.tradeId).Nodup ∧
        ∀ i, i ∈ table.map SilverTrade.tradeId ↔ ∃ row ∈ s.bronze, row.tradeId pg = some i) := by
  obtain ⟨v, -, hstep⟩ := Runs.run_snoc.mp h
  obtain ⟨table, -, rfl⟩ := Option.map_eq_some_iff.mp hstep
  obtain ⟨hwell, hcases⟩ := inSync_or_missed _ h
  have hiff : FullyRefreshed pg { v with silver := some table, seen := v.bronze.length } ↔
      Mirrors pg v.bronze table := by
    rw [mirrors_iff_perm hwell.unique]
    constructor
    · rintro ⟨_, full, htable, hfull⟩
      obtain rfl := Option.some.inj htable
      exact ⟨full, hfull⟩
    · rintro ⟨full, hfull⟩
      exact ⟨table, full, rfl, hfull⟩
  rw [hiff]
  refine ⟨?_, fun hmirrors => ?_⟩
  · rcases hcases with ⟨hmeets, hsync⟩ | ⟨hlate, hmissed⟩
    · rw [InSync, List.take_length] at hsync
      exact iff_of_true hsync hmeets
    · have hnot := not_mirrors_of_missed rfl hmissed
      exact iff_of_false hnot hlate
  · rintro _ htable
    obtain rfl := Option.some.inj htable
    refine ⟨hmirrors.ids, fun i => ⟨fun hi => ?_, ?_⟩⟩
    · obtain ⟨x, hx, rfl⟩ := List.mem_map.mp hi
      obtain ⟨row, hrow, hparsed⟩ := (hmirrors.mem x).mp hx
      exact ⟨row, hrow, parsed_tradeId hparsed⟩
    · rintro ⟨row, hrow, hid⟩
      obtain ⟨x, hx⟩ := Option.isSome_iff_exists.mp (hmirrors.casts row hrow (by simp [hid]))
      refine List.mem_map.mpr ⟨x, (hmirrors.mem x).mpr ⟨row, hrow, hx⟩, ?_⟩
      exact Option.some.inj ((parsed_tradeId hx).symm.trans hid)

/-- A payload of the producer. -/
def samplePayload (tradeId : String) : Dict :=
  [("trade_id", .str tradeId), ("price", .str "1"), ("size", .str "1"), ("side", .str "buy"),
    ("time", .str "1970-01-01T00:00:00Z")]

/-- Postgres on the texts of `samplePayload`. -/
def samplePostgres : Postgres := ⟨fun _ => "", fun _ => some 1, fun _ => some 0⟩

/-- Two consumers: the first takes its stamp before the second and commits after it. -/
def overtaken : List Action :=
  [.begin 0 ⟨1, [samplePayload "a"]⟩, .begin 1 ⟨2, [samplePayload "b"]⟩, .commit 1, .dbtRun, .commit 0,
    .dbtRun]

/-- Both inserts are over when the last run starts; trade `a` is committed but not in silver. -/
theorem overtaken_trade_missing :
    ∃ s, Runs.run (step samplePostgres) init overtaken = some s ∧
      s.inserts 0 = none ∧ s.inserts 1 = none ∧
      s.bronze.map (RawTrade.tradeId samplePostgres) = [some "b", some "a"] ∧
      s.silver.map (List.map SilverTrade.tradeId) = some ["b"] ∧ ¬ FullyRefreshed samplePostgres s := by
  have hrun : (Runs.run (step samplePostgres) init overtaken).any (fun s =>
      (s.inserts 0).isNone && (s.inserts 1).isNone &&
        decide (s.bronze.map (RawTrade.tradeId samplePostgres) = [some "b", some "a"]) &&
        decide (s.silver.map (List.map SilverTrade.tradeId) = some ["b"]) &&
        decide ((stgTrades samplePostgres none s.bronze).map List.length = some 2)) = true := by
    decide +kernel
  obtain ⟨s, hs, hcolumns⟩ := (Option.any_eq_true _ _).mp hrun
  simp only [Bool.and_eq_true, decide_eq_true_eq, Option.isNone_iff_eq_none] at hcolumns
  obtain ⟨⟨⟨⟨hfirst, hsecond⟩, hbronze⟩, hsilver⟩, hlength⟩ := hcolumns
  refine ⟨s, hs, hfirst, hsecond, hbronze, hsilver, ?_⟩
  rintro ⟨table, full, htable, hfull, hperm⟩
  rw [htable, Option.map_some, Option.some.injEq] at hsilver
  rw [hfull, Option.map_some, Option.some.injEq] at hlength
  have hsame := hperm.length_eq
  rw [hlength, ← List.length_map SilverTrade.tradeId, hsilver] at hsame
  exact absurd hsame (by decide)

/-- Both inserts are met in time. -/
def timelyHistory : List Action :=
  [.begin 0 ⟨1, [samplePayload "a"]⟩, .commit 0, .dbtRun, .begin 1 ⟨2, [samplePayload "b"]⟩, .commit 1]

theorem fullyRefreshed_iff_timely_sample :
    ∃ s, Runs.run (step samplePostgres) init (timelyHistory ++ [.dbtRun]) = some s ∧
      s.silver.map (List.map SilverTrade.tradeId) = some ["a", "b"] ∧
      Runs.Meets (step samplePostgres) (Timely samplePostgres) init (timelyHistory ++ [.dbtRun]) ∧
      FullyRefreshed samplePostgres s ∧
      ∀ table, s.silver = some table → (table.map SilverTrade.tradeId).Nodup ∧
        ∀ i, i ∈ table.map SilverTrade.tradeId ↔ ∃ row ∈ s.bronze, row.tradeId samplePostgres = some i := by
  have hrun : (Runs.run (step samplePostgres) init timelyHistory).any (fun v =>
      (v.silver.all fun table => ∀ row ∈ v.bronze.drop v.seen, watermark table < row.receivedAt) ∧
        (step samplePostgres v .dbtRun).any fun s =>
          s.silver.map (List.map SilverTrade.tradeId) = some ["a", "b"]) = true := by
    decide +kernel
  obtain ⟨v, hv, hcolumns⟩ := (Option.any_eq_true _ _).mp hrun
  obtain ⟨hlate, hnext⟩ := of_decide_eq_true hcolumns
  obtain ⟨s, hstep, hids⟩ := (Option.any_eq_true _ _).mp hnext
  have hmeets : Runs.Meets (step samplePostgres) (Timely samplePostgres) init timelyHistory := by
    refine ⟨trivial, fun _ hbegin => ⟨trivial, fun _ hcommit => ⟨fun table htable => ?_, fun _ _ =>
      ⟨trivial, fun _ _ => ⟨trivial, fun _ _ => trivial⟩⟩⟩⟩⟩
    cases hbegin
    cases hcommit
    cases htable
  have htimely : Timely samplePostgres v .dbtRun := by
    intro table htable row hrow _
    rw [htable] at hlate
    exact of_decide_eq_true hlate row hrow
  have hall := (Runs.meets_snoc hv).mpr ⟨hmeets, htimely⟩
  have hs := Runs.run_snoc.mpr ⟨v, hv, hstep⟩
  obtain ⟨hiff, hkeys⟩ := fullyRefreshed_iff_timely samplePostgres timelyHistory s hs
  exact ⟨s, hs, of_decide_eq_true hids, hall, hiff.mpr hall, hkeys (hiff.mpr hall)⟩

end CryptoLakehouse.Refresh
