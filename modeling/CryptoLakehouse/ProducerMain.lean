import CryptoLakehouse.ProducerPublisher
import Mathlib.Data.List.Induction

/-! The shutdown of `producer/main.py`: what `_stream` published, then `_drain_retry_queue`, then
`close`. The process has one thread, so during the drain nobody calls `publish`. -/

namespace CryptoLakehouse.ProducerMain

variable {M : Type}

/-- `DRAIN_TIMEOUT_SECONDS`, in milliseconds as the clock readings below. -/
def DRAIN_TIMEOUT : Int := 30000

/-- The `while` loop, over the readings of `time.monotonic()` that it makes. The body only logs and
sleeps. `none` is a loop that is still waiting when the readings end. -/
def drainLoop (publisher : Publisher M) (start : Int) : List Int → Option (Publisher M)
  | [] => if publisher.retryQueue.items = [] then some publisher else none
  | now :: readings =>
      if publisher.retryQueue.items = [] then some publisher
      else if DRAIN_TIMEOUT ≤ now - start then some publisher
      else drainLoop publisher start readings

/-- `_drain_retry_queue` -/
def drainRetryQueue (publisher : Publisher M) (start : Int) (readings : List Int) : Option (Publisher M) :=
  if publisher.retryQueue.items = [] then some publisher else drainLoop publisher start readings

section Drain

variable {publisher drained : Publisher M} {start : Int} {readings : List Int}

theorem drainLoop_eq (h : drainLoop publisher start readings = some drained) : drained = publisher := by
  induction readings with
  | nil =>
      rw [drainLoop] at h
      split_ifs at h
      exact (Option.some.inj h).symm
  | cons now readings ih =>
      rw [drainLoop] at h
      split_ifs at h
      · exact (Option.some.inj h).symm
      · exact (Option.some.inj h).symm
      · exact ih h

/-- The drain hands back the publisher it was given: it waits for a queue that nobody empties. -/
theorem drainRetryQueue_eq (h : drainRetryQueue publisher start readings = some drained) :
    drained = publisher := by
  rw [drainRetryQueue] at h
  split_ifs at h
  · exact (Option.some.inj h).symm
  · exact drainLoop_eq h

/-- A reading at or past the timeout ends the drain. -/
theorem drainRetryQueue_returns (publisher : Publisher M) {now : Int} (hnow : now ∈ readings)
    (hlate : start + DRAIN_TIMEOUT ≤ now) :
    drainRetryQueue publisher start readings = some publisher := by
  have hloop : drainLoop publisher start readings = some publisher := by
    induction readings with
    | nil => exact absurd hnow List.not_mem_nil
    | cons reading readings ih =>
        rw [drainLoop]
        split_ifs with hempty hexpired
        · rfl
        · rfl
        · rcases List.mem_cons.mp hnow with rfl | hrest
          · omega
          · exact ih hrest
  rw [drainRetryQueue, hloop, ite_self]

end Drain

section Outage

/-- Every call of `publish` reaches a confirm within its attempts, before any loss of the connection. -/
def Uninterrupted (events : List (PublisherEvent M)) : Prop :=
  ∀ before message replies after, events = before ++ .publish message replies :: after →
    .disconnect ∉ before ∧ Confirms replies 1 MAX_ATTEMPTS

theorem uninterrupted_nil : Uninterrupted ([] : List (PublisherEvent M)) := by
  intro before message replies after h
  simp at h

theorem Uninterrupted.of_snoc {events : List (PublisherEvent M)} {e : PublisherEvent M}
    (h : Uninterrupted (events ++ [e])) : Uninterrupted events := by
  rintro before message replies after rfl
  exact h before message replies (after ++ [e]) (by simp)

/-- A publish after which the channel is still open keeps the run uninterrupted. -/
theorem uninterrupted_snoc_publish {events : List (PublisherEvent M)} {message : M}
    {replies : Nat → Reply} (h : Uninterrupted events) :
    Uninterrupted (events ++ [.publish message replies]) ↔
      .disconnect ∉ events ∧ Confirms replies 1 MAX_ATTEMPTS := by
  constructor
  · exact fun hall => hall events message replies [] rfl
  intro hlast before message' replies' after heq
  rcases List.eq_nil_or_concat after with rfl | ⟨after, e, rfl⟩
  · obtain ⟨rfl, hpublish⟩ := List.append_inj' heq rfl
    cases hpublish
    exact hlast
  · rw [List.concat_eq_append, ← List.cons_append, ← List.append_assoc] at heq
    exact h before message' replies' after (List.append_inj' heq rfl).1

theorem uninterrupted_snoc_disconnect {events : List (PublisherEvent M)} (h : Uninterrupted events) :
    Uninterrupted (events ++ [.disconnect]) := by
  intro before message replies after heq
  rcases List.eq_nil_or_concat after with rfl | ⟨after, e, rfl⟩
  · cases (List.append_inj' heq rfl).2
  · rw [List.concat_eq_append, ← List.cons_append, ← List.append_assoc] at heq
    exact h before message replies after (List.append_inj' heq rfl).1

/-- What is true of the publisher after an uninterrupted run. -/
structure Delivered (events : List (PublisherEvent M)) (p : Publisher M) : Prop where
  queue : p.retryQueue.items = []
  isOpen : p.isOpen = true ↔ .disconnect ∉ events
  confirmed : ∀ message replies, .publish message replies ∈ events → message ∈ p.confirmed

theorem delivered_snoc_disconnect {events : List (PublisherEvent M)} {p : Publisher M}
    (h : Delivered events p) : Delivered (events ++ [.disconnect]) (p.handle .disconnect) := by
  refine ⟨h.queue, ?_, fun message replies hmem => ?_⟩
  · simp [Publisher.handle]
  · rcases List.mem_append.mp hmem with hold | hnew
    · exact h.confirmed message replies hold
    · cases List.mem_singleton.mp hnew

theorem delivered_snoc_publish {events : List (PublisherEvent M)} {p : Publisher M} {message : M}
    {replies : Nat → Reply} (h : Delivered events p) (hopen : .disconnect ∉ events)
    (hconfirms : Confirms replies 1 MAX_ATTEMPTS) :
    Delivered (events ++ [.publish message replies]) (p.handle (.publish message replies)) := by
  obtain ⟨offers, hrun⟩ := Publisher.publish_of_confirms message (h.isOpen.mpr hopen) hconfirms
  rw [Publisher.handle, hrun]
  refine ⟨h.queue, ?_, fun message' replies' hmem => List.mem_append.mpr ?_⟩
  · simp [h.isOpen]
  · rcases List.mem_append.mp hmem with hold | hnew
    · exact .inl (h.confirmed message' replies' hold)
    · cases List.mem_singleton.mp hnew
      exact .inr (List.mem_singleton_self _)

/-- After a run that is not uninterrupted a message is held, for good. -/
theorem delivered_or_held (events : List (PublisherEvent M)) :
    (Uninterrupted events ∧ Delivered events (Publisher.init.run events)) ∨
      (¬ Uninterrupted events ∧ (Publisher.init.run events).retryQueue.items ≠ []) := by
  induction events using List.reverseRecOn with
  | nil =>
      refine .inl ⟨uninterrupted_nil, rfl, by simp [Publisher.init, Publisher.run], fun message replies hmem => ?_⟩
      cases hmem
  | append_singleton events e ih =>
      rw [Publisher.run_snoc]
      rcases ih with ⟨hevents, hdelivered⟩ | ⟨hevents, hheld⟩
      · cases e with
        | disconnect =>
            exact .inl ⟨uninterrupted_snoc_disconnect hevents, delivered_snoc_disconnect hdelivered⟩
        | publish message replies =>
            rw [uninterrupted_snoc_publish hevents]
            by_cases hlast : .disconnect ∉ events ∧ Confirms replies 1 MAX_ATTEMPTS
            · exact .inl ⟨hlast, delivered_snoc_publish hdelivered hlast.1 hlast.2⟩
            · rw [← hdelivered.isOpen] at hlast
              exact .inr ⟨by rwa [← hdelivered.isOpen], Publisher.handle_publish_ne_nil hlast⟩
      · exact .inr ⟨fun hall => hevents hall.of_snoc, Publisher.handle_ne_nil hheld e⟩

/-- **The shutdown keeps every trade exactly when no publish was interrupted.** The drain returns once a
reading is past the timeout; then the queue is empty and every message is confirmed iff each publish
reached its confirm in its own call. What the broker accepts afterwards plays no part. -/
theorem drained_iff_uninterrupted (events : List (PublisherEvent M)) (start : Int) (readings : List Int) :
    ((∃ now ∈ readings, start + DRAIN_TIMEOUT ≤ now) →
        (drainRetryQueue (Publisher.init.run events) start readings).isSome) ∧
      ∀ p, drainRetryQueue (Publisher.init.run events) start readings = some p →
        ((p.retryQueue.items = [] ∧
            ∀ message replies, .publish message replies ∈ events → message ∈ p.confirmed) ↔
          Uninterrupted events) := by
  constructor
  · rintro ⟨now, hnow, hlate⟩
    rw [drainRetryQueue_returns _ hnow hlate]
    rfl
  · intro p hdrain
    rw [drainRetryQueue_eq hdrain]
    rcases delivered_or_held events with ⟨hall, hdelivered⟩ | ⟨hnot, hheld⟩
    · exact iff_of_true ⟨hdelivered.queue, hdelivered.confirmed⟩ hall
    · exact iff_of_false (fun hdone => hheld hdone.1) hnot

/-- The connection is lost during the first publish; from the second on the broker accepts whatever is
published on an open channel. Both messages are still in the queue when the drain returns. -/
theorem outage_strands_messages :
    ∃ (events : List (PublisherEvent Nat)) (p : Publisher Nat),
      events.length ≤ RETRY_QUEUE_MAX ∧
      (∀ message replies, .publish message replies ∈ events.drop 1 → ∀ k, replies k = .confirm) ∧
      drainRetryQueue (Publisher.init.run events) 0 [0, 15000, 30000] = some p ∧
      p.retryQueue.items = [1, 2] ∧ p.confirmed = [] ∧
      ¬ (p.retryQueue.items = [] ∧
        ∀ message replies, .publish message replies ∈ events → message ∈ p.confirmed) := by
  refine ⟨[.publish 1 fun _ => .lost, .publish 2 fun _ => .confirm], _, by decide, ?_, rfl, rfl, rfl, ?_⟩
  · intro message replies hmem k
    cases List.mem_singleton.mp hmem
    rfl
  · exact fun hdone => absurd hdone.1 (by decide)

end Outage

end CryptoLakehouse.ProducerMain
