import CryptoLakehouse.ProducerPublisher

/-! What becomes of the messages given to `publish`. A call that is not confirmed puts its message into the
retry queue, which pushes out its oldest message when it is full; nothing takes a message out again. -/

namespace CryptoLakehouse.Publisher

variable {M : Type}

/-- A message is offered until the first confirm, and at most `limit` times. -/
def OfferedUntilConfirmed (limit : Nat) (outcomes : List (Except AMQPError Unit)) : Prop :=
  (∃ failed, failed.length < limit ∧ .ok () ∉ failed ∧ outcomes = failed ++ [.ok ()]) ∨
    outcomes.length = limit ∧ .ok () ∉ outcomes

/-- What the broker has confirmed of the offers in a log. -/
def acceptedOffers (offers : List (M × Except AMQPError Unit)) : List M :=
  (offers.filter fun offer => offer.2.isOk).map Prod.fst

section Attempts

variable (replies : Nat → Reply) (message : M) (p : Publisher M)

/-- One call is one entry of the log. -/
theorem basicPublish_offers (reply : Reply) : (basicPublish reply message p).2.offers =
    p.offers ++ [(message, (basicPublish reply message p).1)] := by
  obtain ⟨retryQueue, isOpen, confirmed, offers⟩ := p
  cases isOpen with
  | false => rfl
  | true => cases reply <;> rfl

/-- The loop logs the calls that it makes: it returns at the one that is confirmed, and only there. -/
theorem attempts_offers (ks : List Nat) : ∃ outcomes : List (Except AMQPError Unit),
    (attempts replies message ks p).2.offers = p.offers ++ outcomes.map (message, ·) ∧
      OfferedUntilConfirmed ks.length outcomes ∧ ((attempts replies message ks p).1 = true ↔ .ok () ∈ outcomes) := by
  induction ks generalizing p with
  | nil => exact ⟨[], (List.append_nil _).symm, .inr ⟨rfl, List.not_mem_nil⟩, by simp [attempts]⟩
  | cons k ks ih =>
      have hlog := basicPublish_offers message p (replies k)
      rw [attempts]
      cases hcall : basicPublish (replies k) message p with
      | mk result q =>
          rw [hcall] at hlog
          cases result with
          | ok _ => exact ⟨[.ok ()], hlog, .inl ⟨[], Nat.succ_pos _, List.not_mem_nil, rfl⟩, by simp⟩
          | error e =>
              obtain ⟨outcomes, hoffers, huntil, hreturns⟩ := ih q
              have hrest : (attempts replies message ks q).2.offers =
                  p.offers ++ (.error e :: outcomes).map (message, ·) := by
                rw [hoffers, hlog, List.append_assoc]
                rfl
              have hlonger : OfferedUntilConfirmed (k :: ks).length (.error e :: outcomes) := by
                rcases huntil with ⟨failed, hlt, hnone, rfl⟩ | ⟨hlength, hnone⟩
                · exact .inl ⟨.error e :: failed, Nat.succ_lt_succ hlt, by simpa using hnone, rfl⟩
                · exact .inr ⟨congrArg (· + 1) hlength, by simpa using hnone⟩
              refine ⟨.error e :: outcomes, ?_, hlonger, ?_⟩
              · cases e <;> exact hrest
              · cases e <;> simpa using hreturns

theorem publish_offers : ∃ outcomes : List (Except AMQPError Unit),
    (p.publish replies message).2.offers = p.offers ++ outcomes.map (message, ·) ∧
      OfferedUntilConfirmed MAX_ATTEMPTS outcomes ∧
      ((p.publish replies message).1 = true ↔ .ok () ∈ outcomes) := by
  have hloop := attempts_offers replies message p (List.range' 1 MAX_ATTEMPTS)
  rw [List.length_range'] at hloop
  rw [publish]
  cases hrun : attempts replies message (List.range' 1 MAX_ATTEMPTS) p with
  | mk result q =>
      rw [hrun] at hloop
      cases result <;> exact hloop

end Attempts

section Log

variable {p : Publisher M}

/-- The broker has confirmed what the log says. -/
def Logged (p : Publisher M) : Prop := p.confirmed = acceptedOffers p.offers

theorem acceptedOffers_snoc (offers : List (M × Except AMQPError Unit)) (message : M)
    (outcome : Except AMQPError Unit) : acceptedOffers (offers ++ [(message, outcome)]) =
      acceptedOffers offers ++ if outcome.isOk then [message] else [] := by
  rw [acceptedOffers, List.filter_append, List.map_append, acceptedOffers]
  cases outcome <;> rfl

theorem Logged.basicPublish (h : Logged p) (reply : Reply) (message : M) :
    Logged (Publisher.basicPublish reply message p).2 := by
  obtain ⟨retryQueue, isOpen, confirmed, offers⟩ := p
  obtain rfl : confirmed = acceptedOffers offers := h
  cases isOpen with
  | false => simp [Publisher.basicPublish, Logged, acceptedOffers_snoc, Except.isOk, Except.toBool]
  | true =>
      cases reply <;> simp [Publisher.basicPublish, Logged, acceptedOffers_snoc, Except.isOk, Except.toBool]

theorem Logged.attempts (h : Logged p) (replies : Nat → Reply) (message : M) (ks : List Nat) :
    Logged (Publisher.attempts replies message ks p).2 := by
  induction ks generalizing p with
  | nil => exact h
  | cons k ks ih =>
      have hnext := h.basicPublish (replies k) message
      rw [Publisher.attempts]
      cases hcall : Publisher.basicPublish (replies k) message p with
      | mk result q =>
          rw [hcall] at hnext
          cases result with
          | ok _ => exact hnext
          | error e => cases e <;> exact ih hnext

theorem Logged.handle (h : Logged p) (e : PublisherEvent M) : Logged (p.handle e) := by
  cases e with
  | disconnect => exact h
  | publish message replies =>
      have hloop := h.attempts replies message (List.range' 1 MAX_ATTEMPTS)
      rw [Publisher.handle, publish]
      cases hrun : Publisher.attempts replies message (List.range' 1 MAX_ATTEMPTS) p with
      | mk result q =>
          rw [hrun, Logged] at hloop
          rw [Logged]
          cases result <;> exact hloop

theorem Logged.run (h : Logged p) (events : List (PublisherEvent M)) : Logged (p.run events) := by
  induction events generalizing p with
  | nil => exact h
  | cons e events ih => exact ih (h.handle e)

end Log

section Returns

/-- The whole effect of a call, by what it returns. -/
theorem publish_cases (replies : Nat → Reply) (message : M) (p : Publisher M) :
    (∃ offers, p.publish replies message =
        (true, { p with confirmed := p.confirmed ++ [message], offers := offers })) ∨
      ∃ isOpen offers, p.publish replies message = (false, { p with
        isOpen := isOpen, retryQueue := p.retryQueue.append message, offers := offers }) := by
  by_cases hconfirms : p.isOpen = true ∧ Confirms replies 1 MAX_ATTEMPTS
  · exact .inl (publish_of_confirms message hconfirms.1 hconfirms.2)
  · exact .inr (publish_of_not_confirms message hconfirms)

end Returns

/-- The calls of `publish` with what they return. -/
def results (p : Publisher M) : List (PublisherEvent M) → List (M × Bool)
  | [] => []
  | .publish message replies :: events =>
      (message, (p.publish replies message).1) :: results (p.publish replies message).2 events
  | .disconnect :: events => results (p.handle .disconnect) events

/-- The messages whose calls returned `value`, in call order. -/
def returning (value : Bool) (calls : List (M × Bool)) : List M :=
  (calls.filter fun call => call.2 = value).map Prod.fst

section Returning

variable (message : M) (calls : List (M × Bool))

theorem returning_cons_self (value : Bool) :
    returning value ((message, value) :: calls) = message :: returning value calls := by
  rw [returning, List.filter_cons_of_pos (by simp), List.map_cons, returning]

theorem returning_cons_ne {value result : Bool} (h : result ≠ value) :
    returning value ((message, result) :: calls) = returning value calls := by
  rw [returning, List.filter_cons_of_neg (by simpa using h), returning]

theorem returning_append (value : Bool) (calls' : List (M × Bool)) :
    returning value (calls ++ calls') = returning value calls ++ returning value calls' := by
  rw [returning, List.filter_append, List.map_append, returning, returning]

/-- Every call returns one or the other. -/
theorem length_returning :
    (returning true calls).length + (returning false calls).length = calls.length := by
  induction calls with
  | nil => rfl
  | cons call calls ih =>
      obtain ⟨message, result⟩ := call
      cases result with
      | true =>
          rw [returning_cons_self, returning_cons_ne message calls (by decide), List.length_cons,
            List.length_cons]
          omega
      | false =>
          rw [returning_cons_self, returning_cons_ne message calls (by decide), List.length_cons,
            List.length_cons]
          omega

end Returning

section Run

variable (p : Publisher M) (e : PublisherEvent M) (events : List (PublisherEvent M))

theorem results_cons : p.results (e :: events) = p.results [e] ++ (p.handle e).results events := by
  cases e with
  | disconnect => rfl
  | publish message replies => rfl

/-- What one event does to the retry queue and to the messages confirmed. -/
theorem handle_accounts :
    (p.handle e).retryQueue = (returning false (p.results [e])).foldl BoundedQueue.append p.retryQueue ∧
      (p.handle e).confirmed = p.confirmed ++ returning true (p.results [e]) := by
  cases e with
  | disconnect => simp [handle, results, returning]
  | publish message replies =>
      rw [handle, results, results]
      obtain ⟨offers, hrun⟩ | ⟨isOpen, offers, hrun⟩ := publish_cases replies message p
      · rw [hrun, returning_cons_self, returning_cons_ne message _ Bool.false_ne_true.symm]
        simp [returning]
      · rw [hrun, returning_cons_self, returning_cons_ne message _ Bool.false_ne_true]
        simp [returning]

/-- The retry queue has been given the messages of the calls that returned `False`, and no other. -/
theorem retryQueue_run : (p.run events).retryQueue =
    (returning false (p.results events)).foldl BoundedQueue.append p.retryQueue := by
  induction events generalizing p with
  | nil => rfl
  | cons e events ih =>
      rw [results_cons, returning_append, List.foldl_append, ← (handle_accounts p e).1]
      exact ih (p.handle e)

theorem confirmed_run : (p.run events).confirmed = p.confirmed ++ returning true (p.results events) := by
  induction events generalizing p with
  | nil => exact (List.append_nil _).symm
  | cons e events ih =>
      rw [results_cons, returning_append, ← List.append_assoc, ← (handle_accounts p e).2]
      exact ih (p.handle e)

end Run

section Every

variable {message : M} {p : Publisher M}

/-- An answer of the broker that makes `basic_publish` end in `outcome`. -/
def replyOf : Except AMQPError Unit → Reply
  | .ok () => .confirm
  | .error .unroutableError => .unroutable
  | .error .amqpError => .nack

/-- On an open channel the calls of a `publish` can end in any way whatever. -/
theorem basicPublish_replyOf (hopen : p.isOpen = true) (outcome : Except AMQPError Unit) :
    (basicPublish (replyOf outcome) message p).1 = outcome ∧
      (basicPublish (replyOf outcome) message p).2.isOpen = true := by
  obtain ⟨retryQueue, isOpen, confirmed⟩ := p
  obtain rfl : isOpen = true := hopen
  match outcome with
  | .ok () => exact ⟨rfl, rfl⟩
  | .error .unroutableError => exact ⟨rfl, rfl⟩
  | .error .amqpError => exact ⟨rfl, rfl⟩

end Every

/-- After any calls, the next one makes its offers and returns what they came to; and what is in the retry
queue, what is confirmed, and how many messages are neither there nor confirmed, is known. -/
theorem publisher_accounting (events : List (PublisherEvent M)) :
    (∀ message replies, ∃ outcomes : List (Except AMQPError Unit),
        ((init.run events).publish replies message).2.offers =
            (init.run events).offers ++ outcomes.map (message, ·) ∧
          OfferedUntilConfirmed MAX_ATTEMPTS outcomes ∧
          (((init.run events).publish replies message).1 = true ↔ .ok () ∈ outcomes)) ∧
      (init.run events).retryQueue.items = (returning false (init.results events)).rtake RETRY_QUEUE_MAX ∧
      (init.run events).confirmed = acceptedOffers (init.run events).offers ∧
      (init.run events).confirmed = returning true (init.results events) ∧
      (init.results events).length = (init.run events).confirmed.length +
        (init.run events).retryQueue.items.length +
          ((returning false (init.results events)).length - RETRY_QUEUE_MAX) := by
  have hqueue : (init.run events).retryQueue.items =
      (returning false (init.results events)).rtake RETRY_QUEUE_MAX := by
    rw [retryQueue_run, BoundedQueue.items_foldl_append, init, BoundedQueue.empty, List.nil_append]
  have hconfirmed : (init.run events).confirmed = returning true (init.results events) :=
    confirmed_run init events
  have hlogged : Logged (init : Publisher M) := rfl
  refine ⟨fun message replies => publish_offers replies message _, hqueue, hlogged.run events, hconfirmed, ?_⟩
  have hcalls := length_returning (init.results events)
  rw [hqueue, hconfirmed, List.rtake, List.length_drop]
  omega

/-- A message is confirmed at its second offer, and the next one is given up behind its third. -/
def sampleEvents : List (PublisherEvent Nat) :=
  [.publish 1 fun attempt => if attempt = 2 then .confirm else .nack, .publish 2 fun _ => .unroutable]

theorem publisher_accounting_sample :
    (init.run sampleEvents).offers = [(1, .error .amqpError), (1, .ok ()), (2, .error .unroutableError),
        (2, .error .unroutableError), (2, .error .unroutableError)] ∧
      (init.run sampleEvents).confirmed = [1] ∧
      (init.run sampleEvents).retryQueue.items = (returning false (init.results sampleEvents)).rtake RETRY_QUEUE_MAX ∧
      returning false (init.results sampleEvents) = [2] := by
  refine ⟨rfl, rfl, ?_, rfl⟩
  exact (publisher_accounting sampleEvents).2.1

end CryptoLakehouse.Publisher
