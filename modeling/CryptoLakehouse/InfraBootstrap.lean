import CryptoLakehouse.LibraryBroker
import Mathlib.Data.List.Induction
import Mathlib.Tactic.IntervalCases

/-! `infra/rabbitmq_setup.py`: the declarations, and one run of `main` with its connection attempts and
its exit code. The exchange is of the type `direct`. -/

namespace CryptoLakehouse.Bootstrap

open Broker (Declaration QueueArgs)

def EXCHANGE : String := "crypto.trades.exchange"
def QUEUE : String := "crypto.trades.queue"
def DLQ : String := "crypto.trades.dlq"
def ROUTING_KEY : String := "trades.raw"
def DLQ_ROUTING_KEY : String := "trades.dead"

def QUEUE_ARGS : QueueArgs String String where
  deadLetterExchange := some EXCHANGE
  deadLetterRoutingKey := some DLQ_ROUTING_KEY
  messageTtl := some 1800000
  maxLength := some 100000
  maxLengthBytes := some 524288000

def CONNECT_RETRIES : Nat := 5
def CONNECT_DELAY_S : Nat := 5

abbrev Topology := List (Declaration String String)

/-- The calls of `declare_topology`, in order. -/
def declareTopology : Topology :=
  [.exchange EXCHANGE true,
    .queue DLQ true ⟨none, none, none, none, none⟩,
    .binding DLQ EXCHANGE DLQ_ROUTING_KEY,
    .queue QUEUE true QUEUE_ARGS,
    .binding QUEUE EXCHANGE ROUTING_KEY]

/-- How `pika.BlockingConnection` ends; `refused` is an `AMQPConnectionError`. -/
inductive Connect where
  | opened
  | refused
  | raised
  deriving DecidableEq

/-- How a call on the connection ends. A call that fails may have reached the broker. -/
inductive Fate where
  | ok
  | amqpError (applied : Bool)
  | raised (applied : Bool)
  deriving DecidableEq

/-- `isOpen` is `connection.is_open` in the `finally` clause. -/
structure Env where
  amqpUrl : Option String
  connect : Nat → Connect
  channel : Fate
  declare : Nat → Fate
  isOpen : Bool
  close : Fate

inductive Call where
  | connect
  | sleep (seconds : Nat)
  | channel
  | declare (d : Declaration String String)
  | close
  deriving DecidableEq

section Code

variable (env : Env)

/-- The loop of `get_connection`. -/
def connectLoop : List Nat → List Call × Connect
  | [] => ([], .refused)
  | attempt :: rest =>
      match env.connect attempt with
      | .opened => ([.connect], .opened)
      | .raised => ([.connect], .raised)
      | .refused =>
          let later := connectLoop rest
          if attempt < CONNECT_RETRIES then (.connect :: .sleep CONNECT_DELAY_S :: later.1, later.2)
          else (.connect :: later.1, later.2)

/-- An unset `AMQP_URL` exits as a connection that was refused throughout does. -/
def getConnection : List Call × Connect :=
  if env.amqpUrl.getD "" = "" then ([], .refused) else connectLoop env (List.range' 1 CONNECT_RETRIES)

/-- What a failed call may have left behind. -/
def applied (topology : Topology) (d : Declaration String String) (reached : Bool) : Topology :=
  if reached then (Provision.declare Broker.refuses topology d).getD topology else topology

/-- `declare_topology` from the `i`-th call on: the calls, whether all of them returned, and the topology. -/
def declareAll : Nat → Topology → Topology → List Call × Bool × Topology
  | _, [], topology => ([], true, topology)
  | i, d :: ds, topology =>
      match env.declare i, Provision.declare Broker.refuses topology d with
      | .ok, some topology =>
          let later := declareAll (i + 1) ds topology
          (.declare d :: later.1, later.2)
      | .ok, none => ([.declare d], false, topology)
      | .amqpError reached, _ | .raised reached, _ => ([.declare d], false, applied topology d reached)

/-- The `try` block of `main`. -/
def declares (topology : Topology) : List Call × Bool × Topology :=
  match env.channel with
  | .ok =>
      let rest := declareAll env 0 declareTopology topology
      (.channel :: rest.1, rest.2)
  | _ => ([.channel], false, topology)

structure Outcome where
  calls : List Call
  exitCode : Nat
  topology : Topology

/-- `sys.exit(1)` and an exception that nobody catches have the same exit code. -/
def main (topology : Topology) : Outcome :=
  match getConnection env with
  | (calls, .opened) =>
      let tried := declares env topology
      if env.isOpen then
        ⟨calls ++ tried.1 ++ [.close], if tried.2.1 ∧ env.close = .ok then 0 else 1, tried.2.2⟩
      else ⟨calls ++ tried.1, if tried.2.1 then 0 else 1, tried.2.2⟩
  | (calls, _) => ⟨calls, 1, topology⟩

end Code

section Plan

theorem feasible_declareTopology : Provision.Feasible Broker.refuses declareTopology := by
  refine ⟨by decide +kernel, fun k d hd => ?_⟩
  have hk : k < 5 := (List.getElem?_eq_some_iff.mp hd).1
  interval_cases k <;> cases hd <;> decide +kernel

/-- A topology that some of the calls have built. -/
def Begun (topology : Topology) : Prop := ∃ m, topology = declareTopology.take m

theorem declare_begun {m k : Nat} {d : Declaration String String} (hk : k ≤ m) (hd : declareTopology[k]? = some d) :
    ∃ m', k + 1 ≤ m' ∧ m ≤ m' ∧
      Provision.declare Broker.refuses (declareTopology.take m) d = some (declareTopology.take m') := by
  rcases feasible_declareTopology.declare_take hk hd with ⟨hlt, hsame⟩ | ⟨rfl, hnext⟩
  · exact ⟨m, hlt, le_rfl, hsame⟩
  · exact ⟨k + 1, le_rfl, Nat.le_succ k, hnext⟩

end Plan

section Runs

variable {env : Env}

/-- A failed call leaves what was there, or what the call would have made. -/
theorem applied_begun {m k : Nat} {d : Declaration String String} (hk : k ≤ m) (hd : declareTopology[k]? = some d)
    (reached : Bool) : Begun (applied (declareTopology.take m) d reached) := by
  obtain ⟨m', -, -, hdeclare⟩ := declare_begun hk hd
  cases reached with
  | false => exact ⟨m, rfl⟩
  | true =>
      refine ⟨m', ?_⟩
      rw [applied, if_pos rfl, hdeclare, Option.getD_some]

/-- The rest of the calls, when the ones before them are made: none is refused, so that only the connection
ends them early. -/
theorem declareAll_spec {k m : Nat} (hk : k ≤ m) {ds : Topology} (hds : declareTopology.drop k = ds) :
    Begun (declareAll env k ds (declareTopology.take m)).2.2 ∧
      ((declareAll env k ds (declareTopology.take m)).2.1 = true ↔
        ∀ i, k ≤ i → i < declareTopology.length → env.declare i = .ok) ∧
      ((declareAll env k ds (declareTopology.take m)).2.1 = true →
        (declareAll env k ds (declareTopology.take m)).2.2 = declareTopology) := by
  induction ds generalizing k m with
  | nil =>
      have hlength := List.drop_eq_nil_iff.mp hds
      refine ⟨⟨m, rfl⟩, iff_of_true rfl fun i hi hlt => ?_, fun _ => ?_⟩
      · exact absurd hlt (not_lt.mpr (hlength.trans hi))
      · exact List.take_of_length_le (hlength.trans hk)
  | cons d ds ih =>
      have hlt : k < declareTopology.length := by
        by_contra hge
        rw [List.drop_eq_nil_iff.mpr (not_lt.mp hge)] at hds
        cases hds
      rw [List.drop_eq_getElem_cons hlt, List.cons.injEq] at hds
      obtain ⟨hhead, hrest⟩ := hds
      have hd : declareTopology[k]? = some d := List.getElem?_eq_some_iff.mpr ⟨hlt, hhead⟩
      obtain ⟨m', hk', -, hdeclare⟩ := declare_begun hk hd
      have hfails : ∀ reached, env.declare k ≠ .ok →
          Begun (applied (declareTopology.take m) d reached) ∧
            (false = true ↔ ∀ i, k ≤ i → i < declareTopology.length → env.declare i = .ok) ∧
            (false = true → applied (declareTopology.take m) d reached = declareTopology) :=
        fun reached hfate => ⟨applied_begun hk hd reached,
          iff_of_false Bool.false_ne_true fun hall => hfate (hall k le_rfl hlt), fun h => by cases h⟩
      rw [declareAll, hdeclare]
      cases hfate : env.declare k with
      | amqpError reached => exact hfails reached (by simp [hfate])
      | raised reached => exact hfails reached (by simp [hfate])
      | ok =>
          obtain ⟨hbegun, hiff, hdone⟩ := ih hk' hrest
          refine ⟨hbegun, hiff.trans ⟨fun hall i hi hi' => ?_, fun hall i hi hi' => ?_⟩, hdone⟩
          · rcases Nat.eq_or_lt_of_le hi with rfl | hlt'
            · exact hfate
            · exact hall i hlt' hi'
          · exact hall i (Nat.le_of_succ_le hi) hi'

theorem declares_spec (m : Nat) :
    Begun (declares env (declareTopology.take m)).2.2 ∧
      ((declares env (declareTopology.take m)).2.1 = true ↔
        env.channel = .ok ∧ ∀ i < declareTopology.length, env.declare i = .ok) ∧
      ((declares env (declareTopology.take m)).2.1 = true →
        (declares env (declareTopology.take m)).2.2 = declareTopology) := by
  rw [declares]
  cases hchannel : env.channel with
  | amqpError | raised => exact ⟨⟨m, rfl⟩, by simp, by simp⟩
  | ok =>
      obtain ⟨hbegun, hiff, hdone⟩ := @declareAll_spec env 0 m (Nat.zero_le m) _ List.drop_zero
      refine ⟨hbegun, hiff.trans ?_, hdone⟩
      simp only [Nat.zero_le, true_imp_iff, true_and]

/-- With everything declared nothing more is. -/
theorem declares_done : (declares env declareTopology).2.2 = declareTopology := by
  have hsame : ∀ ds k, ds ⊆ declareTopology → (declareAll env k ds declareTopology).2.2 = declareTopology := by
    intro ds
    induction ds with
    | nil => exact fun k _ => rfl
    | cons d ds ih =>
        intro k hsub
        obtain ⟨hd, hds⟩ := List.cons_subset.mp hsub
        have hdeclare : Provision.declare Broker.refuses declareTopology d = some declareTopology :=
          Provision.declare_of_mem hd
        rw [declareAll, hdeclare]
        cases env.declare k with
        | ok => exact ih (k + 1) hds
        | amqpError reached | raised reached => cases reached <;> simp [applied, hdeclare]
  rw [declares]
  cases env.channel with
  | ok => exact hsame _ 0 (List.Subset.refl _)
  | amqpError | raised => rfl

/-- So many attempts, with a pause between two of them. -/
def paced : Nat → List Call
  | 0 => []
  | 1 => [.connect]
  | n + 2 => .connect :: .sleep CONNECT_DELAY_S :: paced (n + 1)

/-- An attempt in time is answered, after attempts that were refused. -/
def Connects (env : Env) (first : Nat) : Prop :=
  ∃ n, first ≤ n ∧ n ≤ CONNECT_RETRIES ∧ env.connect n = .opened ∧
    ∀ j, first ≤ j → j < n → env.connect j = .refused

theorem connects_step {first : Nat} (hfirst : first ≤ CONNECT_RETRIES) : Connects env first ↔
    env.connect first = .opened ∨ env.connect first = .refused ∧ Connects env (first + 1) := by
  constructor
  · rintro ⟨n, hn, hlast, hopened, hrefused⟩
    rcases Nat.eq_or_lt_of_le hn with rfl | hlt
    · exact Or.inl hopened
    · exact Or.inr ⟨hrefused first le_rfl hlt, n, hlt, hlast, hopened, fun j hj => hrefused j (by omega)⟩
  · rintro (hopened | ⟨hrefused, n, hn, hlast, hopened, hbefore⟩)
    · exact ⟨first, le_rfl, hfirst, hopened, fun j hj hlt => absurd hlt (not_lt.mpr hj)⟩
    · refine ⟨n, Nat.le_of_succ_le hn, hlast, hopened, fun j hj hlt => ?_⟩
      rcases Nat.eq_or_lt_of_le hj with rfl | hlt'
      · exact hrefused
      · exact hbefore j hlt' hlt

theorem connectLoop_spec {first count : Nat} (hlast : first + count = CONNECT_RETRIES + 1) :
    (∃ n ≤ count, (connectLoop env (List.range' first count)).1 = paced n ∧ (0 < count → 0 < n)) ∧
      ((connectLoop env (List.range' first count)).2 = .opened ↔ Connects env first) := by
  induction count generalizing first with
  | zero =>
      refine ⟨⟨0, le_rfl, rfl, id⟩, iff_of_false (by simp [connectLoop]) ?_⟩
      rintro ⟨n, hn, hn', -⟩
      omega
  | succ count ih =>
      have hlast' : first + 1 + count = CONNECT_RETRIES + 1 := by omega
      obtain ⟨⟨n, hn, hcalls, hsome⟩, hopened⟩ := ih hlast'
      rw [List.range'_succ, connectLoop, connects_step (by omega)]
      cases hconnect : env.connect first with
      | opened => exact ⟨⟨1, by omega, rfl, fun _ => one_pos⟩, by simp⟩
      | raised => exact ⟨⟨1, by omega, rfl, fun _ => one_pos⟩, by simp⟩
      | refused =>
          simp only [hcalls]
          split_ifs with hmore
          · obtain ⟨n, rfl⟩ : ∃ n', n = n' + 1 := Nat.exists_eq_succ_of_ne_zero (hsome (by omega)).ne'
            refine ⟨⟨n + 2, by omega, rfl, fun _ => by omega⟩, ?_⟩
            simpa using hopened
          · obtain rfl : count = 0 := by omega
            obtain rfl : n = 0 := by omega
            refine ⟨⟨1, le_rfl, rfl, fun _ => one_pos⟩, ?_⟩
            simpa using hopened

end Runs

/-- The topology that earlier runs have left. -/
def restarts (envs : List Env) : Topology := envs.foldl (fun topology env => (main env topology).topology) []

/-- What a run of `main` does, and what it leaves behind. -/
structure Bootstraps (env : Env) (topology : Topology) (o : Outcome) : Prop where
  paced : ∃ n ≤ CONNECT_RETRIES, ∃ rest, o.calls = Bootstrap.paced n ++ rest ∧ ∀ call ∈ rest,
    call ≠ .connect ∧ ∀ seconds, call ≠ .sleep seconds
  exit_zero : o.exitCode = 0 ↔ env.amqpUrl.getD "" ≠ "" ∧ Connects env 1 ∧ env.channel = .ok ∧
    (∀ i < declareTopology.length, env.declare i = .ok) ∧ (env.isOpen = true → env.close = .ok)
  closed : env.amqpUrl.getD "" ≠ "" → Connects env 1 → env.isOpen = true → o.calls.getLast? = some .close
  begun : Begun o.topology
  done : o.exitCode = 0 ∨ topology = declareTopology → o.topology = declareTopology

section Restarts

variable {env : Env}

theorem call_ne_of_declares (topology : Topology) : ∀ call ∈ (declares env topology).1,
    call ≠ .connect ∧ ∀ seconds, call ≠ .sleep seconds := by
  have hall : ∀ ds k topology, ∀ call ∈ (declareAll env k ds topology).1,
      call ≠ .connect ∧ ∀ seconds, call ≠ .sleep seconds := by
    intro ds
    induction ds with
    | nil => exact fun k topology call hcall => absurd hcall List.not_mem_nil
    | cons d ds ih =>
        intro k topology call hcall
        rw [declareAll] at hcall
        split at hcall <;> try (obtain rfl := List.mem_singleton.mp hcall; simp)
        rcases List.mem_cons.mp hcall with rfl | hcall
        · simp
        · exact ih _ _ call hcall
  intro call hcall
  rw [declares] at hcall
  split at hcall
  · rcases List.mem_cons.mp hcall with rfl | hcall
    · simp
    · exact hall _ _ _ call hcall
  · obtain rfl := List.mem_singleton.mp hcall
    simp

theorem bootstraps_main {topology : Topology} (h : Begun topology) :
    Bootstraps env topology (main env topology) := by
  obtain ⟨m, rfl⟩ := h
  by_cases hurl : env.amqpUrl.getD "" = ""
  · have hmain : main env (declareTopology.take m) = ⟨[], 1, declareTopology.take m⟩ := by
      rw [main, getConnection, if_pos hurl]
    rw [hmain]
    exact ⟨⟨0, Nat.zero_le _, [], rfl, by simp⟩, by simp [hurl], by simp [hurl], ⟨m, rfl⟩, by simp⟩
  · obtain ⟨⟨n, hn, hcalls, -⟩, hopened⟩ := @connectLoop_spec env 1 CONNECT_RETRIES rfl
    obtain ⟨hbegun, hiff, hdone⟩ := @declares_spec env m
    have hrest := @call_ne_of_declares env (declareTopology.take m)
    have hkeep : declareTopology.take m = declareTopology →
        (declares env (declareTopology.take m)).2.2 = declareTopology := by
      intro htake
      rw [htake]
      exact declares_done
    rw [main, getConnection, if_neg hurl]
    cases hloop : connectLoop env (List.range' 1 CONNECT_RETRIES) with
    | mk calls connect =>
        rw [hloop] at hcalls hopened
        obtain rfl : calls = Bootstrap.paced n := hcalls
        cases connect with
        | refused | raised =>
            have hnot : ¬ Connects env 1 := fun h => by cases hopened.mpr h
            exact ⟨⟨n, hn, [], (List.append_nil _).symm, by simp⟩, by simp [hnot], fun _ h => absurd h hnot,
              ⟨m, rfl⟩, by simp⟩
        | opened =>
            have hconnects : Connects env 1 := hopened.mp rfl
            cases hopen : env.isOpen with
            | false =>
                simp only [Bool.false_eq_true, if_false]
                refine ⟨⟨n, hn, _, rfl, hrest⟩, ?_, by simp [hopen], hbegun, ?_⟩
                · simp [hurl, hconnects, hopen, hiff]
                · rintro (hzero | htake)
                  · exact hdone (by simpa using hzero)
                  · exact hkeep htake
            | true =>
                simp only [if_true]
                refine ⟨⟨n, hn, _, List.append_assoc _ _ _, ?_⟩, ?_, by simp, hbegun, ?_⟩
                · intro call hcall
                  rcases List.mem_append.mp hcall with hcall | hcall
                  · exact hrest call hcall
                  · obtain rfl := List.mem_singleton.mp hcall
                    simp
                · simp [hurl, hconnects, hopen, hiff, and_assoc]
                · rintro (hzero | htake)
                  · have hboth : (declares env (declareTopology.take m)).2.1 = true ∧ env.close = .ok := by
                      simpa using hzero
                    exact hdone hboth.1
                  · exact hkeep htake

/-- Every run of `main` after any others is paced, closes what it opens, exits with 0 exactly when nothing
failed, and leaves a topology that the next run can complete. -/
theorem bootstraps_restarts (envs : List Env) (env : Env) :
    Begun (restarts envs) ∧ Bootstraps env (restarts envs) (main env (restarts envs)) := by
  have hbegun : Begun (restarts envs) := by
    induction envs using List.reverseRecOn with
    | nil => exact ⟨0, rfl⟩
    | append_singleton envs last ih =>
        rw [restarts, List.foldl_append]
        exact (bootstraps_main ih).begun
  exact ⟨hbegun, bootstraps_main hbegun⟩

end Restarts

end CryptoLakehouse.Bootstrap
