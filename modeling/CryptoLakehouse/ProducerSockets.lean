import CryptoLakehouse.ProducerReconnect

/-! Who closes the websockets of `_stream`. The lifecycle contract of `producer/ws_client.py` leaves that to
the caller of `connect`, and `_stream` closes none: a session that does not end by the peer's close leaves
its websocket open behind it. -/

namespace CryptoLakehouse.Reconnect

variable {Frame Body : Type}

/-- The current websocket, the last one opened, is in use. -/
def Pc.InSession : Pc → Prop
  | .subscribing | .listening => True
  | _ => False

def Opened (s : State Body) (i : Nat) : Prop := s.websockets[i]? = some .opened

/-- When `connect` is called and when `_stream` has returned, no websocket is open; at any time at most one
is. -/
structure NoLeak (s : State Body) : Prop where
  closed : s.pc = .connecting ∨ s.pc = .returned → ∀ i, ¬Opened s i
  atMostOne : ∀ i j, Opened s i → Opened s j → i = j

/-- The session ends with its websocket open: `subscribe` raises, or a frame ends it. -/
def Abandons (py : Pydantic) (loads : Frame → Except Exn Json) (s : State Body) (a : Action Frame) : Prop :=
  s.websockets.getLast? = some .opened ∧
    match a with
    | .subscribeRaises => s.pc = .subscribing
    | .frame raw => s.pc = .listening ∧ EndsOn py loads s.shutdown raw
    | _ => False

/-- The invariant: an open websocket is the one of the running session. -/
def Owned (s : State Body) : Prop := ∀ i, Opened s i → s.pc.InSession ∧ i + 1 = s.websockets.length

section Owned

variable {s : State Body}

theorem Owned.noLeak (h : Owned s) : NoLeak s where
  closed hpc i hi := by
    have hsession := (h i hi).1
    rcases hpc with hpc | hpc <;> rw [hpc] at hsession <;> exact hsession
  atMostOne i j hi hj := by
    have hlast := (h i hi).2
    have hlast' := (h j hj).2
    omega

theorem owned_of_none (h : ∀ i, ¬Opened s i) : Owned s := fun i hi => absurd hi (h i)

theorem Owned.none_opened (h : Owned s) {pc : Pc} (hpc : s.pc = pc) (hout : ¬pc.InSession) (i : Nat) :
    ¬Opened s i := by
  intro hi
  have hsession := (h i hi).1
  rw [hpc] at hsession
  exact hout hsession

/-- When the last websocket is closed, all are. -/
theorem Owned.none_of_last (h : Owned s) (hlast : s.websockets.getLast? ≠ some .opened) (i : Nat) :
    ¬Opened s i := by
  intro hi
  apply hlast
  rw [List.getLast?_eq_getElem?, ← (h i hi).2]
  exact hi

theorem owned_init : Owned (init : State Body) := by
  intro i hi
  simp [Opened, init] at hi

end Owned

section Step

variable {py : Pydantic} {loads : Frame → Except Exn Json} {dump : TradeMessage → Body}
  {s s' : State Body} {a : Action Frame}

/-- A session that keeps its websocket to itself. -/
theorem owned_step (h : Owned s) (hkeeps : ¬Abandons py loads s a)
    (hstep : step py loads dump s a = some s') : Owned s' := by
  have hlast : ∀ i, s.websockets.getLast? ≠ some .opened → ¬Opened s i := fun i hne => h.none_of_last hne i
  cases transition_of_step hstep with
  | signal => exact h
  | peerCloses i clean hopen =>
      intro j hj
      have hj' : Opened s j := by
        change (s.websockets.set i (.closed clean))[j]? = some .opened at hj
        rw [List.getElem?_set] at hj
        split_ifs at hj with heq
        · cases hj
        · exact hj
      refine ⟨(h j hj').1, (h j hj').2.trans ?_⟩
      exact List.length_set.symm
  | opens hpc =>
      intro i hi
      refine ⟨trivial, ?_⟩
      change (s.websockets ++ [.opened])[i]? = some .opened at hi
      have hlt := (List.getElem?_eq_some_iff.mp hi).1
      show i + 1 = (s.websockets ++ [Websocket.opened]).length
      by_cases hold : i < s.websockets.length
      · rw [List.getElem?_append_left hold] at hi
        exact absurd hi (h.none_opened hpc id i)
      · rw [List.length_append, List.length_singleton] at hlt ⊢
        omega
  | subscribes hpc => exact fun i hi => ⟨trivial, (h i hi).2⟩
  | takes raw hpc hstays stream => exact h
  | returns hpc | connects hpc | refused hpc | stops hpc | sleeps hpc | wakes hpc | givesUp hpc =>
      exact owned_of_none (h.none_opened hpc id)
  | unsubscribed hpc => exact owned_of_none fun i => hlast i fun hopen => hkeeps ⟨hopen, hpc⟩
  | breaks raw hpc hends => exact owned_of_none fun i => hlast i fun hopen => hkeeps ⟨hopen, hpc, hends⟩
  | raises raw hpc hends => exact owned_of_none fun i => hlast i fun hopen => hkeeps ⟨hopen, hpc, hends⟩
  | ends hpc hclosed | drops hpc hclosed => exact owned_of_none fun i => hlast i (by simp [hclosed])

theorem owned_run {as : List (Action Frame)} (hrun : Runs.run (step py loads dump) init as = some s)
    (hmeets : Runs.Meets (step py loads dump) (fun s a => ¬Abandons py loads s a) init as) : Owned s :=
  Runs.invariant_of_meets (fun _ _ _ h hkeeps hstep => owned_step h hkeeps hstep) owned_init hmeets hrun

end Step

section Abandoned

/-- A step of `_stream` by itself, neither a signal nor a doing of the exchange or the network. -/
def Action.Own : Action Frame → Prop
  | .loop | .handle | .wake => True
  | _ => False

variable {s s' : State Body} {a : Action Frame}

/-- Left to itself, `_stream` comes to its next `connect` or its return with a websocket open. -/
def Leaks (py : Pydantic) (loads : Frame → Except Exn Json) (dump : TradeMessage → Body) (s : State Body) : Prop :=
  ∃ as t, (∀ a ∈ as, Action.Own a) ∧ Runs.run (step py loads dump) s as = some t ∧ ¬NoLeak t

variable {py : Pydantic} {loads : Frame → Except Exn Json} {dump : TradeMessage → Body}

theorem exists_opened (hlast : s.websockets.getLast? = some .opened) : ∃ i, Opened s i := by
  rw [List.getLast?_eq_getElem?] at hlast
  exact ⟨s.websockets.length - 1, hlast⟩

theorem leaks_of_pc (hlast : s.websockets.getLast? = some .opened) (hpc : s.pc = .connecting ∨ s.pc = .returned) :
    Leaks py loads dump s := by
  obtain ⟨i, hi⟩ := exists_opened hlast
  exact ⟨[], s, by simp, rfl, fun h => h.closed hpc i hi⟩

theorem leaks_of_step (hstep : step py loads dump s a = some s') (hown : a.Own) (h : Leaks py loads dump s') :
    Leaks py loads dump s := by
  obtain ⟨as, t, has, hrun, hleak⟩ := h
  exact ⟨a :: as, t, List.forall_mem_cons.mpr ⟨hown, has⟩, Runs.run_cons.mpr ⟨s', hstep, hrun⟩, hleak⟩

theorem leaks_looping (hlast : s.websockets.getLast? = some .opened) (hpc : s.pc = .looping) :
    Leaks py loads dump s := by
  cases hstep : step py loads dump s .loop with
  | none => simp [step, hpc] at hstep
  | some t =>
      refine leaks_of_step hstep trivial ?_
      cases transition_of_step hstep with
      | returns => exact leaks_of_pc hlast (.inr rfl)
      | connects => exact leaks_of_pc hlast (.inl rfl)

theorem leaks_sleeping (hlast : s.websockets.getLast? = some .opened) (hpc : s.pc = .sleeping) :
    Leaks py loads dump s := by
  cases hstep : step py loads dump s .wake with
  | none => simp [step, hpc] at hstep
  | some t =>
      refine leaks_of_step hstep trivial ?_
      cases transition_of_step hstep with
      | wakes => exact leaks_looping hlast rfl
      | givesUp => exact leaks_of_pc hlast (.inr rfl)

theorem leaks_handling (hlast : s.websockets.getLast? = some .opened) (hpc : s.pc = .handling) :
    Leaks py loads dump s := by
  cases hstep : step py loads dump s .handle with
  | none =>
      simp only [step, hpc, exponentialBackoff_natCast] at hstep
      split at hstep <;> cases hstep
  | some t =>
      refine leaks_of_step hstep trivial ?_
      cases transition_of_step hstep with
      | stops => exact leaks_of_pc hlast (.inr rfl)
      | sleeps => exact leaks_sleeping hlast rfl

/-- Nothing that `_stream` does closes the websocket it has abandoned. -/
theorem leaks_of_abandons (h : Abandons py loads s a) (hstep : step py loads dump s a = some s') :
    Leaks py loads dump s' := by
  obtain ⟨hlast, hleaves⟩ := h
  cases transition_of_step hstep with
  | unsubscribed => exact leaks_handling hlast rfl
  | breaks => exact leaks_looping hlast rfl
  | raises => exact leaks_handling hlast rfl
  | takes raw hpc hstays => exact absurd hleaves.2 hstays
  | _ => exact hleaves.elim

/-- No websocket is open at a `connect`, at the return or next to another one, in any state of a run in which
no session ends with its websocket open; and behind one that does, `_stream` leaks it unless the exchange or
the network closes it. -/
theorem no_leak_of_not_abandons {as : List (Action Frame)}
    (hrun : Runs.run (step py loads dump) init as = some s) :
    (Runs.Meets (step py loads dump) (fun s a => ¬Abandons py loads s a) init as → NoLeak s) ∧
      ∀ a s', Abandons py loads s a → step py loads dump s a = some s' → Leaks py loads dump s' :=
  ⟨fun hmeets => (owned_run hrun hmeets).noLeak, fun _ _ => leaks_of_abandons⟩

end Abandoned

/-- A refusal, a clean end and a session that the network drops. -/
def closedSessions : List (Action Json) :=
  [.loop, .connectRaises, .handle, .wake, .loop, .connectReturns, .subscribeReturns, .peerCloses 0 true, .ends,
    .loop, .connectReturns, .subscribeReturns, .peerCloses 1 false, .drops, .handle, .wake, .loop]

theorem no_leak_of_not_abandons_closedSessions : ∃ s : State String,
    Runs.run (step Stream.samplePydantic Except.ok TradeMessage.tradeId) init closedSessions = some s ∧
      s.websockets = [.closed true, .closed false] ∧ NoLeak s := by
  obtain ⟨s, hrun, hwebsockets⟩ : ∃ s : State String,
      Runs.run (step Stream.samplePydantic Except.ok TradeMessage.tradeId) init closedSessions = some s ∧
        s.websockets = [.closed true, .closed false] := ⟨_, rfl, rfl⟩
  refine ⟨s, hrun, hwebsockets, (no_leak_of_not_abandons hrun).1 ?_⟩
  refine Runs.Meets.mono (C := fun _ a => a ≠ .subscribeRaises ∧ ∀ raw, a ≠ .frame raw) ?_ ?_
  · rintro s a ⟨hsubscribe, hframe⟩ ⟨-, hleaves⟩
    cases a with
    | subscribeRaises => exact hsubscribe rfl
    | frame raw => exact hframe raw rfl
    | _ => exact hleaves
  · rw [Runs.meets_label hrun]
    simp [closedSessions]

/-- A trade with `null` for a side ends the session, and a second websocket is opened next to the first. -/
theorem bad_trade_leaks_websocket : ∃ s : State String,
    Runs.run (step Stream.samplePydantic Except.ok TradeMessage.tradeId) init
      [.loop, .connectReturns, .subscribeReturns, .frame Stream.sampleFrame, .handle, .wake, .loop,
        .connectReturns] = some s ∧ s.websockets = [.opened, .opened] ∧ ¬NoLeak s :=
  ⟨_, rfl, rfl, fun h => absurd (h.atMostOne 0 1 rfl rfl) (by decide)⟩

end CryptoLakehouse.Reconnect
