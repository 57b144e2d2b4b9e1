import CryptoLakehouse.ProducerReconnect

/-! The pace of the reconnects of `_stream`: what lies between two calls of `connect`, and how many of them
can fail in a row. -/

namespace CryptoLakehouse.Reconnect

/-- The failures since the last successful connect and subscribe. -/
def failures (events : List Event) : Nat :=
  events.foldl (fun k e => match e with
    | .subscribed => 0
    | .failed => k + 1
    | _ => k) 0

/-- A further `connect` is in order: since the last one there was a failure, and a sleep as long as the
backoff for the failures before it. -/
def Rested (events : List Event) : Prop :=
  ∀ before between, events = before ++ .connect :: between → .connect ∉ between →
    ∃ first rest delay, between = first ++ .failed :: .slept delay :: rest ∧
      exponentialBackoff (failures (before ++ .connect :: first)) = some delay

/-- Every `connect` comes rested, and none after the last attempt has failed. -/
def Paced (events : List Event) : Prop :=
  ∀ done, done ++ [.connect] <+: events → Rested done ∧ failures done < MAX_RECONNECT_ATTEMPTS

section Events

variable {events : List Event}

@[simp] theorem failures_snoc (e : Event) : failures (events ++ [e]) =
    match e with
    | .subscribed => 0
    | .failed => failures events + 1
    | _ => failures events := by
  rw [failures, List.foldl_append]
  cases e <;> rfl

theorem paced_nil : Paced [] := by
  intro done hdone
  exact absurd (List.prefix_nil.mp hdone) (by simp)

theorem paced_snoc (e : Event) : Paced (events ++ [e]) ↔
    Paced events ∧ (e = .connect → Rested events ∧ failures events < MAX_RECONNECT_ATTEMPTS) := by
  constructor
  · intro h
    refine ⟨fun done hdone => h done (hdone.trans (List.prefix_append events [e])), ?_⟩
    rintro rfl
    exact h events List.prefix_rfl
  · rintro ⟨hold, hnew⟩ done hdone
    rcases List.prefix_concat_iff.mp hdone with heq | hbefore
    · obtain ⟨rfl, he⟩ := List.append_inj' heq rfl
      exact hnew (List.cons.inj he).1.symm
    · exact hold done hbefore

theorem rested_nil : Rested [] := by
  intro before between h
  simp at h

/-- Where a history that ends in `e` is cut at another event. -/
theorem snoc_eq_cut {before between : List Event} {e c : Event} (hne : e ≠ c)
    (h : events ++ [e] = before ++ c :: between) :
    ∃ init, between = init ++ [e] ∧ events = before ++ c :: init := by
  rcases List.eq_nil_or_concat between with rfl | ⟨init, last, rfl⟩
  · exact absurd (List.cons.inj (List.append_inj' h rfl).2).1 hne
  · have hsplit : events ++ [e] = (before ++ c :: init) ++ [last] := by simpa using h
    obtain ⟨hevents, hlast⟩ := List.append_inj' hsplit rfl
    obtain rfl := (List.cons.inj hlast).1
    exact ⟨init, List.concat_eq_append, hevents⟩

/-- After the backoff of the failure just handled. -/
theorem rested_slept {delay : Int} (hdelay : exponentialBackoff (failures events) = some delay) :
    Rested (events ++ [.failed] ++ [.slept delay]) := by
  intro before between h hnone
  obtain ⟨inner, rfl, hinner⟩ := snoc_eq_cut (by simp) h
  obtain ⟨first, rfl, hfirst⟩ := snoc_eq_cut (by simp) hinner
  refine ⟨first, [], delay, ?_, ?_⟩
  · rw [List.append_assoc, List.singleton_append]
  · rw [← hfirst]
    exact hdelay

variable (events) in
/-- A clean end is no failure and has no sleep behind it. -/
theorem not_rested_ended : ¬Rested (events ++ [.connect, .subscribed, .ended]) := by
  intro h
  obtain ⟨first, rest, delay, heq, -⟩ := h events [.subscribed, .ended] rfl (by simp)
  have hmem : Event.failed ∈ [Event.subscribed, .ended] := by
    rw [heq]
    simp
  simp at hmem

end Events

section Run

variable {Frame Body : Type} {py : Pydantic} {loads : Frame → Except Exn Json} {dump : TradeMessage → Body}

/-- The loop turns behind a stream that the peer ended cleanly, with no shutdown requested. -/
def TurnsAtOnce (s : State Body) : Action Frame → Prop
  | .loop => s.pc = .looping ∧ s.shutdown = false ∧ s.events.getLast? = some .ended
  | _ => False

/-- How the history ends and what `attempt` counts, at each place in the loop. -/
def Shape (s : State Body) : Prop :=
  match s.pc with
  | .looping => s.attempt = failures s.events ∧ s.attempt < MAX_RECONNECT_ATTEMPTS ∧
      (s.shutdown = true ∨ Rested s.events ∧ s.events.getLast? ≠ some .ended ∨
        ∃ events, s.events = events ++ [.connect, .subscribed, .ended])
  | .connecting | .subscribing => s.attempt = failures s.events ∧ s.attempt < MAX_RECONNECT_ATTEMPTS ∧
      ∃ events, s.events = events ++ [.connect]
  | .listening => s.attempt = 0 ∧ failures s.events = 0 ∧ ∃ events, s.events = events ++ [.connect, .subscribed]
  | .handling => ∃ events, s.events = events ++ [.failed] ∧ s.attempt = failures events ∧
      s.attempt < MAX_RECONNECT_ATTEMPTS
  | .sleeping => ∃ events delay, s.events = events ++ [.failed] ++ [.slept delay] ∧
      exponentialBackoff (failures events) = some delay ∧ s.attempt = failures events
  | .returned => True

theorem attempts_pos : 0 < MAX_RECONNECT_ATTEMPTS := by decide

theorem shape_init : Shape (init : State Body) :=
  ⟨rfl, attempts_pos, .inr (.inl ⟨rested_nil, by simp [init]⟩)⟩

/-- A failure counts from the attempts made so far. -/
theorem shape_fail {s : State Body} (hattempt : s.attempt = failures s.events)
    (hlt : s.attempt < MAX_RECONNECT_ATTEMPTS) : Shape s.fail := ⟨s.events, rfl, hattempt, hlt⟩

theorem shape_step {s s' : State Body} {a : Action Frame} (h : Shape s)
    (hstep : step py loads dump s a = some s') : Shape s' := by
  cases transition_of_step hstep with
  | signal =>
      cases hpc : s.pc with
      | looping =>
          simp only [Shape, hpc] at h ⊢
          exact ⟨h.1, h.2.1, .inl trivial⟩
      | connecting | subscribing | listening | handling | sleeping => simpa only [Shape, hpc] using h
      | returned => simp only [Shape]
  | peerCloses i clean => exact h
  | returns hpc hshutdown => trivial
  | connects hpc hrunning =>
      simp only [Shape, hpc] at h ⊢
      exact ⟨by rw [failures_snoc]; exact h.1, h.2.1, s.events, rfl⟩
  | opens hpc =>
      simp only [Shape, hpc] at h ⊢
      exact h
  | refused hpc =>
      simp only [Shape, hpc] at h
      exact shape_fail h.1 h.2.1
  | subscribes hpc =>
      simp only [Shape, hpc] at h ⊢
      obtain ⟨-, -, events, hevents⟩ := h
      refine ⟨trivial, by rw [failures_snoc], events, ?_⟩
      rw [hevents, List.append_assoc, List.singleton_append]
  | unsubscribed hpc =>
      simp only [Shape, hpc] at h
      exact shape_fail h.1 h.2.1
  | takes raw hpc hstays stream => exact h
  | breaks raw hpc hends hshutdown =>
      simp only [Shape, hpc] at h ⊢
      exact ⟨h.1.trans h.2.1.symm, h.1 ▸ attempts_pos, .inl hshutdown⟩
  | raises raw hpc hends stream =>
      simp only [Shape, hpc] at h
      exact shape_fail (s := { s with stream := stream }) (h.1.trans h.2.1.symm) (h.1 ▸ attempts_pos)
  | ends hpc hclosed =>
      simp only [Shape, hpc] at h ⊢
      obtain ⟨hattempt, hfailures, events, hevents⟩ := h
      refine ⟨?_, hattempt ▸ attempts_pos, .inr (.inr ⟨events, ?_⟩)⟩
      · rw [failures_snoc, hattempt, hfailures]
      · rw [hevents, List.append_assoc]
        rfl
  | drops hpc hclosed =>
      simp only [Shape, hpc] at h
      exact shape_fail (h.1.trans h.2.1.symm) (h.1 ▸ attempts_pos)
  | stops hpc hshutdown => trivial
  | sleeps hpc hrunning delay hdelay =>
      simp only [Shape, hpc] at h ⊢
      obtain ⟨events, hevents, hattempt, -⟩ := h
      exact ⟨events, delay, by rw [hevents], hattempt ▸ hdelay, hattempt⟩
  | wakes hpc hmore =>
      simp only [Shape, hpc] at h ⊢
      obtain ⟨events, delay, hevents, hdelay, hattempt⟩ := h
      refine ⟨?_, hmore, .inr (.inl ⟨hevents ▸ rested_slept hdelay, by simp [hevents]⟩)⟩
      rw [hevents, failures_snoc, failures_snoc, hattempt]
  | givesUp hpc hmax => trivial

/-- One step more keeps the pace exactly when it is not a turn right behind a clean end. -/
theorem paced_step {s s' : State Body} {a : Action Frame} (h : Shape s)
    (hstep : step py loads dump s a = some s') : Paced s'.events ↔ Paced s.events ∧ ¬TurnsAtOnce s a := by
  cases transition_of_step hstep with
  | connects hpc hrunning =>
      simp only [Shape, hpc] at h
      obtain ⟨hattempt, hlt, hlast⟩ := h
      rw [paced_snoc]
      refine and_congr_right fun _ => ?_
      rcases hlast with hshutdown | ⟨hrested, hended⟩ | ⟨events, hevents⟩
      · rw [hrunning] at hshutdown
        cases hshutdown
      · exact iff_of_true (fun _ => ⟨hrested, hattempt ▸ hlt⟩) fun hturns => hended hturns.2.2
      · refine iff_of_false (fun hconnect => ?_) fun hnot => hnot ⟨hpc, hrunning, by simp [hevents]⟩
        have hrested := (hconnect rfl).1
        rw [hevents] at hrested
        exact not_rested_ended events hrested
  | returns hpc hshutdown =>
      refine (and_iff_left fun hturns => ?_).symm
      exact absurd hturns.2.1 (by simp [hshutdown])
  | refused | unsubscribed | raises | drops | subscribes | ends | sleeps =>
      refine Iff.trans (paced_snoc _) (and_congr_right fun _ => ?_)
      exact iff_of_true (by simp) id
  | signal | peerCloses | opens | takes | breaks | stops | wakes | givesUp => exact (and_iff_left id).symm

/-- Every `connect` after the first comes behind a failure and a sleep of `exponential_backoff`, and none
after ten failures in a row, exactly when the loop never turns right behind a clean end of the stream. -/
theorem paced_iff {as : List (Action Frame)} {s : State Body}
    (hrun : Runs.run (step py loads dump) init as = some s) :
    Paced s.events ↔ Runs.Meets (step py loads dump) (fun s a => ¬TurnsAtOnce s a) init as :=
  Runs.iff_meets (I := Shape) (P := fun s => Paced s.events) (fun _ _ _ h hstep => shape_step h hstep)
    (fun _ _ _ h hstep => paced_step h hstep) shape_init paced_nil hrun

end Run

example : (List.range 8).map (fun attempt => exponentialBackoff attempt) =
    [some 1, some 2, some 4, some 8, some 16, some 32, some 60, some 60] := by decide

/-- Two refusals, and a session that the network drops. -/
def droppedSession : List (Action Json) :=
  [.loop, .connectRaises, .handle, .wake, .loop, .connectRaises, .handle, .wake, .loop, .connectReturns,
    .subscribeReturns, .peerCloses 0 false, .drops, .handle, .wake, .loop]

theorem paced_iff_droppedSession : ∃ s : State String,
    Runs.run (step Stream.samplePydantic Except.ok TradeMessage.tradeId) init droppedSession = some s ∧
      s.events = [.connect, .failed, .slept 1, .connect, .failed, .slept 2, .connect, .subscribed, .failed,
        .slept 1, .connect] ∧
      (Paced s.events ↔ Runs.Meets (step Stream.samplePydantic Except.ok TradeMessage.tradeId)
        (fun s a => ¬TurnsAtOnce s a) init droppedSession) := by
  obtain ⟨s, hrun, hevents⟩ : ∃ s : State String,
      Runs.run (step Stream.samplePydantic Except.ok TradeMessage.tradeId) init droppedSession = some s ∧
        s.events = [.connect, .failed, .slept 1, .connect, .failed, .slept 2, .connect, .subscribed, .failed,
          .slept 1, .connect] := ⟨_, rfl, rfl⟩
  exact ⟨s, hrun, hevents, paced_iff hrun⟩

/-- A stream that the peer ends cleanly is followed by the next `connect` without a pause. -/
theorem clean_end_reconnects_at_once : ∃ s : State String,
    Runs.run (step Stream.samplePydantic Except.ok TradeMessage.tradeId) init
      [.loop, .connectReturns, .subscribeReturns, .peerCloses 0 true, .ends, .loop] = some s ∧
      s.events = [.connect, .subscribed, .ended, .connect] ∧ ¬Paced s.events := by
  refine ⟨_, rfl, rfl, fun hpaced => ?_⟩
  exact not_rested_ended [] (hpaced [.connect, .subscribed, .ended] List.prefix_rfl).1

end CryptoLakehouse.Reconnect
