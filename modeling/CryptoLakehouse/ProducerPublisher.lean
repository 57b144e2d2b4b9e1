import CryptoLakehouse.LibraryBoundedQueue

/-! `producer/publisher.py`. A broker answers each `basic_publish` made on an open channel; on a closed
one `basic_publish` raises, and nothing in the source opens a channel again after `__init__`. -/

namespace CryptoLakehouse

def MAX_ATTEMPTS : Nat := 3
def RETRY_QUEUE_MAX : Nat := 1000

/-- What becomes of a `basic_publish` on an open channel. `lost` is a channel or connection that is
closed before the confirm arrives. -/
inductive Reply where
  | confirm
  | unroutable
  | nack
  | lost
  deriving DecidableEq

/-- `pika.exceptions.AMQPError` and its subclass that the source tells apart. -/
inductive AMQPError where
  | unroutableError
  | amqpError
  deriving DecidableEq

/-- `confirmed` is what the broker has confirmed, and `offers` has every call of `basic_publish` with what became
of it; the process keeps no record of them. -/
structure Publisher (M : Type) where
  retryQueue : BoundedQueue M RETRY_QUEUE_MAX
  isOpen : Bool
  confirmed : List M
  offers : List (M × Except AMQPError Unit)

namespace Publisher

variable {M : Type}

def init : Publisher M := ⟨BoundedQueue.empty, true, [], []⟩

def log (p : Publisher M) (message : M) (outcome : Except AMQPError Unit) : Publisher M :=
  { p with offers := p.offers ++ [(message, outcome)] }

@[simp] theorem log_retryQueue (p : Publisher M) (message : M) (outcome : Except AMQPError Unit) :
    (p.log message outcome).retryQueue = p.retryQueue := rfl
@[simp] theorem log_isOpen (p : Publisher M) (message : M) (outcome : Except AMQPError Unit) :
    (p.log message outcome).isOpen = p.isOpen := rfl
@[simp] theorem log_confirmed (p : Publisher M) (message : M) (outcome : Except AMQPError Unit) :
    (p.log message outcome).confirmed = p.confirmed := rfl
@[simp] theorem log_offers (p : Publisher M) (message : M) (outcome : Except AMQPError Unit) :
    (p.log message outcome).offers = p.offers ++ [(message, outcome)] := rfl

/-- `BlockingChannel.basic_publish` with `confirm_delivery` and `mandatory=True`. -/
def basicPublish (reply : Reply) (message : M) (p : Publisher M) : Except AMQPError Unit × Publisher M :=
  match p.isOpen, reply with
  | false, _ => (.error .amqpError, p.log message (.error .amqpError))
  | true, .confirm => (.ok (), { p with confirmed := p.confirmed ++ [message] }.log message (.ok ()))
  | true, .unroutable => (.error .unroutableError, p.log message (.error .unroutableError))
  | true, .nack => (.error .amqpError, p.log message (.error .amqpError))
  | true, .lost => (.error .amqpError, { p with isOpen := false }.log message (.error .amqpError))

/-- The `for` loop of `publish`. Both handlers only log, so the loop goes on. -/
def attempts (replies : Nat → Reply) (message : M) : List Nat → Publisher M → Bool × Publisher M
  | [], p => (false, p)
  | attempt :: rest, p =>
      match basicPublish (replies attempt) message p with
      | (.ok (), p) => (true, p)
      | (.error .unroutableError, p) => attempts replies message rest p
      | (.error .amqpError, p) => attempts replies message rest p

def publish (replies : Nat → Reply) (message : M) (p : Publisher M) : Bool × Publisher M :=
  match attempts replies message (List.range' 1 MAX_ATTEMPTS) p with
  | (true, p) => (true, p)
  | (false, p) => (false, { p with retryQueue := p.retryQueue.append message })

end Publisher

/-- A call of `publish` with the broker's answer to each attempt, or a connection that is lost between
two calls. -/
inductive PublisherEvent (M : Type) where
  | publish (message : M) (replies : Nat → Reply)
  | disconnect

/-- The message of a call. -/
def PublisherEvent.message {M : Type} : PublisherEvent M → Option M
  | .publish message _ => some message
  | .disconnect => none

/-- The attempts `first`, …, `first + count - 1` reach a confirm before the channel is lost. -/
def Confirms (replies : Nat → Reply) (first count : Nat) : Prop :=
  ∃ k, first ≤ k ∧ k < first + count ∧ replies k = .confirm ∧
    ∀ j, first ≤ j → j < k → replies j ≠ .lost

namespace Publisher

variable {M : Type} {replies : Nat → Reply}

def handle (p : Publisher M) : PublisherEvent M → Publisher M
  | .publish message replies => (p.publish replies message).2
  | .disconnect => { p with isOpen := false }

def run (p : Publisher M) (events : List (PublisherEvent M)) : Publisher M := events.foldl handle p

theorem run_snoc (p : Publisher M) (events : List (PublisherEvent M)) (e : PublisherEvent M) :
    p.run (events ++ [e]) = (p.run events).handle e := by
  rw [run, List.foldl_append]
  rfl

section Attempts

theorem not_confirms_zero (first : Nat) : ¬ Confirms replies first 0 := by
  rintro ⟨k, hfirst, hlast, -, -⟩
  omega

theorem confirms_succ (first count : Nat) :
    Confirms replies first (count + 1) ↔
      replies first = .confirm ∨ (replies first ≠ .lost ∧ Confirms replies (first + 1) count) := by
  constructor
  · rintro ⟨k, hfirst, hlast, hk, hbefore⟩
    rcases Nat.eq_or_lt_of_le hfirst with rfl | hlt
    · exact .inl hk
    · refine .inr ⟨hbefore first (Nat.le_refl _) hlt, k, hlt, by omega, hk, fun j hj => hbefore j (by omega)⟩
  · rintro (hconfirm | ⟨hlost, k, hfirst, hlast, hk, hbefore⟩)
    · exact ⟨first, Nat.le_refl _, by omega, hconfirm, fun j hj hlt => absurd hlt (by omega)⟩
    · refine ⟨k, by omega, by omega, hk, fun j hj hlt => ?_⟩
      rcases Nat.eq_or_lt_of_le hj with rfl | hlt'
      · exact hlost
      · exact hbefore j hlt' hlt

theorem basicPublish_closed (reply : Reply) (message : M) {p : Publisher M} (hclosed : p.isOpen = false) :
    basicPublish reply message p = (.error .amqpError, p.log message (.error .amqpError)) := by
  rw [basicPublish.eq_def, hclosed]

/-- On a closed channel every attempt raises, and nothing changes. -/
theorem attempts_closed (replies : Nat → Reply) (message : M) (ks : List Nat) {p : Publisher M}
    (hclosed : p.isOpen = false) : ∃ offers, attempts replies message ks p = (false, { p with offers := offers }) := by
  induction ks generalizing p with
  | nil => exact ⟨p.offers, rfl⟩
  | cons k ks ih =>
      rw [attempts, basicPublish_closed _ message hclosed]
      exact ih (p := p.log message (.error .amqpError)) hclosed

/-- The whole effect of the loop on an open channel, but for the log. -/
theorem attempts_open (message : M) (first count : Nat) (p : Publisher M) (hopen : p.isOpen = true) :
    (Confirms replies first count ∧ ∃ offers, attempts replies message (List.range' first count) p =
        (true, { p with confirmed := p.confirmed ++ [message], offers := offers })) ∨
      (¬ Confirms replies first count ∧ ∃ isOpen offers, attempts replies message (List.range' first count) p =
        (false, { p with isOpen := isOpen, offers := offers })) := by
  induction count generalizing first p with
  | zero => exact .inr ⟨not_confirms_zero first, p.isOpen, p.offers, rfl⟩
  | succ count ih =>
      obtain ⟨retryQueue, isOpen, confirmed, before⟩ := p
      obtain rfl : isOpen = true := hopen
      rw [List.range'_succ, attempts, basicPublish.eq_def, confirms_succ]
      cases hreply : replies first with
      | confirm => exact .inl ⟨.inl rfl, _, rfl⟩
      | unroutable =>
          simpa using ih (first + 1) (log ⟨retryQueue, true, confirmed, before⟩ message (.error .unroutableError)) rfl
      | nack => simpa using ih (first + 1) (log ⟨retryQueue, true, confirmed, before⟩ message (.error .amqpError)) rfl
      | lost =>
          obtain ⟨offers, hrest⟩ := attempts_closed replies message (List.range' (first + 1) count)
            (p := log ⟨retryQueue, false, confirmed, before⟩ message (.error .amqpError)) rfl
          exact .inr ⟨by simp, false, offers, hrest⟩

end Attempts

theorem publish_of_confirms (message : M) {p : Publisher M} (hopen : p.isOpen = true)
    (hconfirms : Confirms replies 1 MAX_ATTEMPTS) : ∃ offers,
    p.publish replies message = (true, { p with confirmed := p.confirmed ++ [message], offers := offers }) := by
  rcases attempts_open message 1 MAX_ATTEMPTS p hopen with ⟨-, offers, hrun⟩ | ⟨hnot, -⟩
  · exact ⟨offers, by rw [publish, hrun]⟩
  · exact absurd hconfirms hnot

theorem publish_of_not_confirms (message : M) {p : Publisher M}
    (hfails : ¬ (p.isOpen = true ∧ Confirms replies 1 MAX_ATTEMPTS)) :
    ∃ isOpen offers, p.publish replies message = (false, { p with
      isOpen := isOpen, retryQueue := p.retryQueue.append message, offers := offers }) := by
  cases hopen : p.isOpen with
  | false =>
      obtain ⟨offers, hrun⟩ := attempts_closed replies message (List.range' 1 MAX_ATTEMPTS) hopen
      exact ⟨p.isOpen, offers, by rw [publish, hrun]⟩
  | true =>
      rcases attempts_open message 1 MAX_ATTEMPTS p hopen with ⟨hconfirms, -⟩ | ⟨-, isOpen, offers, hrun⟩
      · exact absurd ⟨hopen, hconfirms⟩ hfails
      · exact ⟨isOpen, offers, by rw [publish, hrun]⟩

theorem handle_publish_ne_nil {message : M} {p : Publisher M}
    (hfails : ¬ (p.isOpen = true ∧ Confirms replies 1 MAX_ATTEMPTS)) :
    (p.handle (.publish message replies)).retryQueue.items ≠ [] := by
  obtain ⟨isOpen, offers, hrun⟩ := publish_of_not_confirms message hfails
  rw [handle, hrun]
  exact p.retryQueue.append_ne_nil (by decide) message

/-- Nothing takes a message out of the retry queue. -/
theorem handle_ne_nil {p : Publisher M} (hheld : p.retryQueue.items ≠ []) (e : PublisherEvent M) :
    (p.handle e).retryQueue.items ≠ [] := by
  cases e with
  | disconnect => exact hheld
  | publish message replies =>
      by_cases hconfirms : p.isOpen = true ∧ Confirms replies 1 MAX_ATTEMPTS
      · obtain ⟨offers, hrun⟩ := publish_of_confirms message hconfirms.1 hconfirms.2
        rw [handle, hrun]
        exact hheld
      · exact handle_publish_ne_nil hconfirms

end Publisher

end CryptoLakehouse
