import CryptoLakehouse.LibraryLoop
import CryptoLakehouse.ProducerSchemas

/-! One connection of `_stream` (`producer/main.py`): the frames that `listen` (`producer/ws_client.py`)
receives before a shutdown is requested. An exception that none of the loops catches goes to the handler
that reconnects; the rest of the frame and the frames behind it are not looked at. -/

namespace CryptoLakehouse.Stream

variable {Frame Body : Type}

/-- The counters, and the payloads passed to `publisher.publish`. -/
structure State (Body : Type) where
  received : Nat
  valid : Nat
  invalid : Nat
  published : List Body

def init : State Body := ⟨0, 0, 0, []⟩

section Code

variable (py : Pydantic) (loads : Frame → Except Exn Json) (dump : TradeMessage → Body)

/-- The body of the innermost loop. `TradeMessage(**trade)` needs a mapping. -/
def onTrade (s : State Body) (trade : Json) : State Body × Option Exn :=
  let s := { s with received := s.received + 1 }
  match trade with
  | .obj d =>
      match TradeMessage.validate py d with
      | .ok validated => ({ s with valid := s.valid + 1, published := s.published ++ [dump validated] }, none)
      | .error .validationError => ({ s with invalid := s.invalid + 1 }, none)
      | .error e => (s, some e)
  | _ => (s, some .typeError)

/-- `for item in value:` with a body that may raise. -/
def iterate (body : State Body → Json → State Body × Option Exn) (s : State Body) (value : Json) :
    State Body × Option Exn :=
  match value.iter with
  | .error e => (s, some e)
  | .ok items => Loop.forEach body s items

/-- `event.get("trades", [])` -/
def tradesOf (event : Dict) : Json := Dict.getD event "trades" (.arr [])

/-- `message.get("events", [])` -/
def eventsOf (message : Dict) : Json := Dict.getD message "events" (.arr [])

/-- The body of the loop over events. -/
def onEvent (s : State Body) (event : Json) : State Body × Option Exn :=
  match event.asDict with
  | .error e => (s, some e)
  | .ok d => iterate (onTrade py dump) s (tradesOf d)

/-- `message.get("channel") != "market_trades"` -/
def isMarketTrades (message : Dict) : Bool :=
  match message.get? "channel" with
  | some (.str channel) => channel = "market_trades"
  | _ => false

/-- The body of the loop over messages. -/
def onMessage (s : State Body) (message : Dict) : State Body × Option Exn :=
  if isMarketTrades message then iterate (onEvent py dump) s (eventsOf message) else (s, none)

/-- One frame: `listen` skips what is not JSON, and calls `message.get` on the rest to log it. -/
def onFrame (s : State Body) (raw : Frame) : State Body × Option Exn :=
  match loads raw with
  | .error .jsonDecodeError => (s, none)
  | .error e => (s, some e)
  | .ok value =>
      match value.asDict with
      | .error e => (s, some e)
      | .ok message => onMessage py dump s message

/-- The connection, up to its first exception. -/
def session (frames : List Frame) : State Body × Option Exn := Loop.forEach (onFrame py loads dump) init frames

end Code

section Accepted

variable (py : Pydantic) (loads : Frame → Except Exn Json)

/-- The items of an array; anything else has none. -/
def elements : Json → List Json
  | .arr items => items
  | _ => []

def acceptedTrade : Json → List TradeMessage
  | .obj d =>
      match TradeMessage.validate py d with
      | .ok validated => [validated]
      | .error _ => []
  | _ => []

def acceptedEvent : Json → List TradeMessage
  | .obj d => (elements (tradesOf d)).flatMap (acceptedTrade py)
  | _ => []

/-- The trades in a `market_trades` frame that `TradeMessage` accepts. -/
def acceptedFrame (raw : Frame) : List TradeMessage :=
  match loads raw with
  | .ok (.obj message) =>
      if isMarketTrades message then (elements (eventsOf message)).flatMap (acceptedEvent py) else []
  | _ => []

end Accepted

section Benign

variable (py : Pydantic) (loads : Frame → Except Exn Json)

/-- A trade is an object whose side is text and whose time is in range, if there. -/
def BenignTrade (trade : Json) : Prop := ∃ d, trade = .obj d ∧ SideIsText d ∧ TimeInRange py d

/-- A value to iterate over is an array of benign items, or an empty string or object. -/
def BenignItems (benign : Json → Prop) (value : Json) : Prop :=
  ∃ items, value.iter = .ok items ∧ ∀ a ∈ items, benign a

def BenignEvent (event : Json) : Prop :=
  ∃ d, event = .obj d ∧ BenignItems (BenignTrade py) (tradesOf d)

def BenignMessage (message : Dict) : Prop :=
  isMarketTrades message = true → BenignItems (BenignEvent py) (eventsOf message)

/-- A frame is not JSON, or an object that is of another channel or has benign events. -/
def BenignFrame (raw : Frame) : Prop :=
  loads raw = .error .jsonDecodeError ∨ ∃ message, loads raw = .ok (.obj message) ∧ BenignMessage py message

end Benign

section Levels

variable {py : Pydantic} {loads : Frame → Except Exn Json} {dump : TradeMessage → Body}

def Balanced (s : State Body) : Prop := s.received = s.valid + s.invalid

/-- What a loop body of `_stream` does, for its kind of item. -/
abbrev Handles {A : Type} (dump : TradeMessage → Body) (body : State Body → A → State Body × Option Exn)
    (benign : A → Prop) (accepted : A → List TradeMessage) : Prop :=
  Loop.Handles State.published Balanced body benign fun a => (accepted a).map dump

theorem handles_onTrade : Handles dump (onTrade py dump) (BenignTrade py) (acceptedTrade py) := by
  constructor
  case takes =>
    rintro s _ ⟨d, rfl, hquiet⟩
    rw [onTrade, acceptedTrade]
    cases hvalidate : TradeMessage.validate py d with
    | ok m => exact ⟨_, rfl, rfl, fun hs => by unfold Balanced at *; simp only; omega⟩
    | error e =>
        obtain rfl := validate_quiet_iff.mpr hquiet e hvalidate
        exact ⟨_, rfl, (List.append_nil _).symm, fun hs => by unfold Balanced at *; simp only; omega⟩
  case raises =>
    intro s trade hbad
    cases trade with
    | obj d =>
        have hescapes : ¬ ∀ e, TradeMessage.validate py d = .error e → e = .validationError := fun h =>
          hbad ⟨d, rfl, validate_quiet_iff.mp h⟩
        obtain ⟨e, h⟩ := not_forall.mp hescapes
        obtain ⟨hvalidate, hother⟩ := Classical.not_imp.mp h
        refine ⟨{ s with received := s.received + 1 }, e, ?_⟩
        rw [onTrade, hvalidate]
        cases e <;> first | rfl | exact absurd rfl hother
    | null | bool | int | float | str | arr => exact ⟨_, _, rfl⟩

theorem handles_iterate {body : State Body → Json → State Body × Option Exn} {benign : Json → Prop}
    {accepted : Json → List TradeMessage} (h : Handles dump body benign accepted)
    (hstr : ∀ s, ¬ benign (.str s)) :
    Handles dump (iterate body) (BenignItems benign) fun value => (elements value).flatMap accepted := by
  constructor
  case takes =>
    rintro s value ⟨items, hiter, hall⟩
    have helements : elements value = items := by
      cases value with
      | arr as => exact Except.ok.inj hiter
      | str text =>
          obtain rfl := Except.ok.inj hiter
          cases hchars : text.toList with
          | nil => rfl
          | cons c cs =>
              rw [hchars] at hall
              exact absurd (hall _ List.mem_cons_self) (hstr _)
      | obj fields =>
          obtain rfl := Except.ok.inj hiter
          cases fields with
          | nil => rfl
          | cons field fields => exact absurd (hall _ List.mem_cons_self) (hstr _)
      | null | bool | int | float => cases hiter
    obtain ⟨t, hloop, hout, hkeep⟩ := h.forEach.takes s items hall
    refine ⟨t, by rw [iterate, hiter]; exact hloop, ?_, hkeep⟩
    rw [hout, ← helements, ← List.map_flatMap]
  case raises =>
    intro s value hbad
    rw [iterate]
    cases hiter : value.iter with
    | error e => exact ⟨s, e, rfl⟩
    | ok items => exact h.forEach.raises s items fun hall => hbad ⟨items, hiter, hall⟩

theorem not_benignTrade_str (s : String) : ¬ BenignTrade py (.str s) := by
  rintro ⟨d, h, -⟩
  cases h

theorem not_benignEvent_str (s : String) : ¬ BenignEvent py (.str s) := by
  rintro ⟨d, h, -⟩
  cases h

theorem handles_onEvent : Handles dump (onEvent py dump) (BenignEvent py) (acceptedEvent py) := by
  have hloop : Handles dump (iterate (onTrade py dump)) (BenignItems (BenignTrade py)) _ :=
    handles_iterate handles_onTrade not_benignTrade_str
  constructor
  case takes =>
    rintro s _ ⟨d, rfl, hitems⟩
    exact hloop.takes s (tradesOf d) hitems
  case raises =>
    intro s event hbad
    cases event with
    | obj d => exact hloop.raises s (tradesOf d) fun hitems => hbad ⟨d, rfl, hitems⟩
    | null | bool | int | float | str | arr => exact ⟨s, _, rfl⟩

theorem handles_onFrame : Handles dump (onFrame py loads dump) (BenignFrame py loads) (acceptedFrame py loads) := by
  have hloop : Handles dump (iterate (onEvent py dump)) (BenignItems (BenignEvent py)) _ :=
    handles_iterate handles_onEvent not_benignEvent_str
  constructor
  case takes =>
    rintro s raw (hjson | ⟨message, hloads, hbenign⟩)
    · refine ⟨s, by rw [onFrame, hjson], ?_, id⟩
      rw [acceptedFrame, hjson]
      exact (List.append_nil _).symm
    · rw [onFrame, acceptedFrame, hloads]
      simp only [Json.asDict, onMessage]
      split_ifs with hchannel
      · exact hloop.takes s (eventsOf message) (hbenign hchannel)
      · exact ⟨s, rfl, (List.append_nil _).symm, id⟩
  case raises =>
    intro s raw hbad
    rw [onFrame]
    cases hloads : loads raw with
    | error e =>
        cases e
        case jsonDecodeError => exact absurd (.inl hloads) hbad
        all_goals exact ⟨s, _, rfl⟩
    | ok value =>
        cases value with
        | obj message =>
            have hmessage : ¬ BenignMessage py message := fun h => hbad (.inr ⟨message, hloads, h⟩)
            obtain ⟨hchannel, hitems⟩ := Classical.not_imp.mp hmessage
            simp only [Json.asDict, onMessage, if_pos hchannel]
            exact hloop.raises s (eventsOf message) hitems
        | null | bool | int | float | str | arr => exact ⟨s, _, rfl⟩

end Levels

/-- At the end of every frame the session goes on, all accepted trades so far are published in order, and
the counters agree. -/
def NothingLost (py : Pydantic) (loads : Frame → Except Exn Json) (dump : TradeMessage → Body)
    (frames : List Frame) : Prop :=
  ∀ done, done <+: frames → ∃ s, session py loads dump done = (s, none) ∧
    s.published = done.flatMap (fun raw => (acceptedFrame py loads raw).map dump) ∧ Balanced s

/-- **One bad item costs nothing exactly when every frame is benign.** -/
theorem nothingLost_iff_benign (py : Pydantic) (loads : Frame → Except Exn Json) (dump : TradeMessage → Body)
    (frames : List Frame) : NothingLost py loads dump frames ↔ ∀ raw ∈ frames, BenignFrame py loads raw := by
  have hframe : Handles dump (onFrame py loads dump) (BenignFrame py loads) _ := handles_onFrame
  have hloop := hframe.forEach
  constructor
  · intro h
    obtain ⟨s, hrun, -⟩ := h frames List.prefix_rfl
    by_contra hbad
    obtain ⟨t, e, hraised⟩ := hloop.raises init frames hbad
    rw [session, hraised] at hrun
    cases hrun
  · rintro hall done ⟨rest, rfl⟩
    have hdone : ∀ raw ∈ done, BenignFrame py loads raw := fun raw hraw =>
      hall raw (List.mem_append_left _ hraw)
    obtain ⟨s, hrun, hout, hkeep⟩ := hloop.takes init done hdone
    exact ⟨s, hrun, hout, hkeep rfl⟩

/-- Pydantic on the values of `sampleTrade`. -/
def samplePydantic : Pydantic where
  decimal
    | .str "1" => some ⟨1, 0⟩
    | _ => none
  datetime
    | .str "1970-01-01T00:00:00Z" => some ⟨0, some 0⟩
    | _ => none

def sampleTrade (tradeId : String) (side : Json) : Json :=
  .obj [("trade_id", .str tradeId), ("price", .str "1"), ("size", .str "1"), ("side", side),
    ("time", .str "1970-01-01T00:00:00Z")]

/-- A trade whose side is `null` in front of a good one. -/
def sampleFrame : Json :=
  .obj [("channel", .str "market_trades"),
    ("events", .arr [.obj [("trades", .arr [sampleTrade "1" .null, sampleTrade "2" (.str "BUY")])]])]

/-- `None.lower()` ends the session: the good trade is not published and no counter has the bad one. -/
theorem null_side_costs_next_trade :
    ∃ s, session samplePydantic Except.ok TradeMessage.tradeId [sampleFrame] = (s, some .attributeError) ∧
      (s.received, s.valid, s.invalid) = (1, 0, 0) ∧ s.published = [] ∧
      (acceptedFrame samplePydantic Except.ok sampleFrame).map TradeMessage.tradeId = ["2"] ∧
      ¬ NothingLost samplePydantic Except.ok TradeMessage.tradeId [sampleFrame] := by
  have hrun : session samplePydantic Except.ok TradeMessage.tradeId [sampleFrame] =
      (⟨1, 0, 0, []⟩, some .attributeError) := rfl
  refine ⟨_, hrun, rfl, rfl, by decide +kernel, fun h => ?_⟩
  obtain ⟨s, hquiet, -⟩ := h [sampleFrame] List.prefix_rfl
  rw [hrun] at hquiet
  cases hquiet

end CryptoLakehouse.Stream
