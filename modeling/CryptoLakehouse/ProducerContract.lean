import CryptoLakehouse.ProducerStream

/-! The data contract between producer and consumer: six fields of each published body. `TradeMessage` has
five of them, and pydantic drops what a model does not name, `product_id` among it. -/

namespace CryptoLakehouse

section Fields

variable {py : Pydantic} {d : Dict} {m : TradeMessage}

theorem checkField_eq_value {A : Type} {key : String} {validators : Json → Checked A} {a : A} :
    checkField d key validators = .value a ↔ ∃ v, d.get? key = some v ∧ validators v = .value a := by
  unfold checkField
  cases d.get? key <;> simp

theorem ofOption_eq_value {A : Type} {o : Option A} {a : A} : ofOption o = .value a ↔ o = some a := by
  cases o <;> simp [ofOption]

/-- The values of a validated message, and the source values they are read from. -/
structure ReadFrom (py : Pydantic) (d : Dict) (m : TradeMessage) : Prop where
  tradeId : d.get? "trade_id" = some (.str m.tradeId)
  price : ∃ v, d.get? "price" = some v ∧ py.decimal v = some m.price
  size : ∃ v, d.get? "size" = some v ∧ py.decimal v = some m.size
  side : ∃ s, d.get? "side" = some (.str s) ∧ s.toLower = m.side.text
  time : ∃ v wall offset, d.get? "time" = some v ∧ py.datetime v = some ⟨wall, some offset⟩ ∧
    wall - offset = m.time

theorem tradeIdField_eq_value {s : { s : String // s ≠ "" }} (h : tradeIdField d = .value s) :
    d.get? "trade_id" = some (.str s) := by
  obtain ⟨v, hv, hs⟩ := checkField_eq_value.mp h
  cases v <;> simp only [nonEmptyString] at hs <;> try cases hs
  split_ifs at hs
  cases hs
  exact hv

theorem decimalField_eq_value {key : String} {x : { x : Decimal // 0 < x.coefficient }}
    (h : decimalField py d key = .value x) : ∃ v, d.get? key = some v ∧ py.decimal v = some x := by
  obtain ⟨v, hv, hx⟩ := checkField_eq_value.mp h
  obtain ⟨y, hy, hpositive⟩ := Checked.andThen_eq_value.mp hx
  obtain ⟨w, hw, hdecimal⟩ := Checked.andThen_eq_value.mp hy
  have hsame : w = v := by cases v <;> cases hw <;> rfl
  unfold mustBePositive at hpositive
  split_ifs at hpositive
  cases hpositive
  exact ⟨v, hv, hsame ▸ ofOption_eq_value.mp hdecimal⟩

theorem sideField_eq_value {side : Side} (h : sideField d = .value side) :
    ∃ s, d.get? "side" = some (.str s) ∧ s.toLower = side.text := by
  obtain ⟨v, hv, hside⟩ := checkField_eq_value.mp h
  obtain ⟨lower, hlower, hliteral⟩ := Checked.andThen_eq_value.mp hside
  cases v <;> simp only [lowercaseSide] at hlower <;> cases hlower
  rename_i s
  refine ⟨s, hv, ?_⟩
  unfold literalSide at hliteral
  split_ifs at hliteral with hbuy hsell <;> cases hliteral
  · exact hbuy
  · exact hsell

theorem timeField_eq_value {t : { t : Int // DATETIME_MIN ≤ t ∧ t ≤ DATETIME_MAX }}
    (h : timeField py d = .value t) : ∃ v wall offset, d.get? "time" = some v ∧
      py.datetime v = some ⟨wall, some offset⟩ ∧ wall - offset = t := by
  obtain ⟨v, hv, ht⟩ := checkField_eq_value.mp h
  obtain ⟨⟨wall, utcoffset⟩, hx, hutc⟩ := Checked.andThen_eq_value.mp ht
  unfold ensureUtc at hutc
  cases utcoffset with
  | none => cases hutc
  | some offset =>
      simp only at hutc
      split_ifs at hutc
      cases hutc
      exact ⟨v, wall, offset, hv, ofOption_eq_value.mp hx, rfl⟩

/-- A message that passes has its fields from the source. -/
theorem readFrom_of_validate (h : TradeMessage.validate py d = .ok m) : ReadFrom py d m := by
  rw [TradeMessage.validate, Checked.toExcept_eq_ok] at h
  obtain ⟨_, time, hfour, htime, rfl⟩ := Checked.ap_eq_value.mp h
  obtain ⟨_, side, hthree, hside, rfl⟩ := Checked.ap_eq_value.mp hfour
  obtain ⟨_, size, htwo, hsize, rfl⟩ := Checked.ap_eq_value.mp hthree
  obtain ⟨_, price, hone, hprice, rfl⟩ := Checked.ap_eq_value.mp htwo
  obtain ⟨_, tradeId, hnone, htradeId, rfl⟩ := Checked.ap_eq_value.mp hone
  cases hnone
  exact ⟨tradeIdField_eq_value htradeId, decimalField_eq_value hprice, decimalField_eq_value hsize,
    sideField_eq_value hside, timeField_eq_value htime⟩

end Fields

namespace Stream

variable {Frame Body : Type}

/-- `CoinbaseWebSocketClient()` subscribes to its default product. -/
def PRODUCT_ID : String := "BTC-USD"

section Reached

variable (py : Pydantic) (loads : Frame → Except Exn Json)

/-- A loop over the value comes to the item. -/
def ReachedIn (benign : Json → Prop) (value item : Json) : Prop :=
  ∃ items, value.iter = .ok items ∧ Loop.Reached benign items item

def ReachedInEvent (event trade : Json) : Prop :=
  ∃ d, event = .obj d ∧ ReachedIn (BenignTrade py) (tradesOf d) trade

def ReachedInFrame (raw : Frame) (trade : Json) : Prop :=
  ∃ message, loads raw = .ok (.obj message) ∧ isMarketTrades message = true ∧
    ∃ event, ReachedIn (BenignEvent py) (eventsOf message) event ∧ ReachedInEvent py event trade

/-- The stream comes to the trade: nothing in front of it, in its event, its frame or the frames before,
ends the session. -/
def ReachedTrade (frames : List Frame) (trade : Dict) : Prop :=
  ∃ raw, Loop.Reached (BenignFrame py loads) frames raw ∧ ReachedInFrame py loads raw (.obj trade)

variable {py loads} {dump : TradeMessage → Body}

theorem mem_acceptedTrade {trade : Json} {m : TradeMessage} :
    m ∈ acceptedTrade py trade ↔ ∃ d, trade = .obj d ∧ TradeMessage.validate py d = .ok m := by
  cases trade with
  | obj d =>
      simp only [acceptedTrade, Json.obj.injEq, exists_eq_left']
      cases TradeMessage.validate py d <;> simp [eq_comm]
  | null | bool | int | float | str | arr => simp [acceptedTrade]

theorem emits_onTrade : Loop.Emits State.published (onTrade py dump)
    fun trade body => ∃ m ∈ acceptedTrade py trade, dump m = body := by
  intro s trade
  cases trade with
  | obj d =>
      simp only [onTrade, acceptedTrade]
      cases hvalidate : TradeMessage.validate py d with
      | ok m => exact ⟨[dump m], rfl, by simp [eq_comm]⟩
      | error e => cases e <;> exact ⟨[], (List.append_nil _).symm, by simp⟩
  | null | bool | int | float | str | arr => exact ⟨[], (List.append_nil _).symm, by simp [acceptedTrade]⟩

variable (dump) in
theorem emits_iterate {body : State Body → Json → State Body × Option Exn} {benign : Json → Prop}
    {accepted : Json → List TradeMessage} {emitted : Json → Body → Prop}
    (hbody : Handles dump body benign accepted) (h : Loop.Emits State.published body emitted) :
    Loop.Emits State.published (iterate body)
      fun value b => ∃ item, ReachedIn benign value item ∧ emitted item b := by
  intro s value
  rw [iterate]
  cases hiter : value.iter with
  | error e => exact ⟨[], (List.append_nil _).symm, by simp [ReachedIn, hiter]⟩
  | ok items =>
      obtain ⟨new, hnew, hmem⟩ := h.forEach hbody s items
      exact ⟨new, hnew, fun b => by simp [hmem, ReachedIn, hiter]⟩

theorem emits_onEvent : Loop.Emits State.published (onEvent py dump)
    fun event body => ∃ trade, ReachedInEvent py event trade ∧ ∃ m ∈ acceptedTrade py trade, dump m = body := by
  intro s event
  cases event with
  | obj d =>
      obtain ⟨new, hnew, hmem⟩ := emits_iterate dump handles_onTrade emits_onTrade s (tradesOf d)
      exact ⟨new, hnew, fun b => by simp [hmem, ReachedInEvent]⟩
  | null | bool | int | float | str | arr => exact ⟨[], (List.append_nil _).symm, by simp [ReachedInEvent]⟩

variable (dump) in
theorem emits_onFrame : Loop.Emits State.published (onFrame py loads dump)
    fun raw body => ∃ trade, ReachedInFrame py loads raw trade ∧ ∃ m ∈ acceptedTrade py trade, dump m = body := by
  intro s raw
  rw [onFrame]
  cases hloads : loads raw with
  | error e => cases e <;> exact ⟨[], (List.append_nil _).symm, by simp [ReachedInFrame, hloads]⟩
  | ok value =>
      cases value with
      | obj message =>
          simp only [Json.asDict, onMessage]
          split_ifs with hchannel
          · obtain ⟨new, hnew, hmem⟩ := emits_iterate dump handles_onEvent emits_onEvent s (eventsOf message)
            refine ⟨new, hnew, fun b => (hmem b).trans ?_⟩
            simp only [ReachedInFrame, hloads, Except.ok.injEq, Json.obj.injEq, exists_eq_left', hchannel, true_and]
            constructor
            · rintro ⟨event, hevent, trade, htrade, hb⟩
              exact ⟨trade, ⟨event, hevent, htrade⟩, hb⟩
            · rintro ⟨trade, ⟨event, hevent, htrade⟩, hb⟩
              exact ⟨event, hevent, trade, htrade, hb⟩
          · exact ⟨[], (List.append_nil _).symm, by simp [ReachedInFrame, hloads, hchannel]⟩
      | null | bool | int | float | str | arr =>
          exact ⟨[], (List.append_nil _).symm, by simp [ReachedInFrame, hloads]⟩

/-- What is published: the trades that the stream comes to and `TradeMessage` accepts. -/
theorem mem_published_iff {frames : List Frame} {body : Body} :
    body ∈ (session py loads dump frames).1.published ↔
      ∃ d m, ReachedTrade py loads frames d ∧ TradeMessage.validate py d = .ok m ∧ dump m = body := by
  obtain ⟨new, hnew, hmem⟩ := (emits_onFrame dump).forEach handles_onFrame init frames
  rw [session, hnew, init, List.nil_append, hmem]
  constructor
  · rintro ⟨raw, hraw, trade, htrade, m, hm, rfl⟩
    obtain ⟨d, rfl, hvalidate⟩ := mem_acceptedTrade.mp hm
    exact ⟨d, m, ⟨raw, hraw, htrade⟩, hvalidate, rfl⟩
  · rintro ⟨d, m, ⟨raw, hraw, htrade⟩, hvalidate, rfl⟩
    exact ⟨raw, hraw, .obj d, htrade, m, mem_acceptedTrade.mpr ⟨d, rfl, hvalidate⟩, rfl⟩

end Reached

section Contract

/-- Five fields of the body are those of the source trade, the side in lower case and the time in UTC. -/
structure CarriesFive (py : Pydantic) (decimalText : Decimal → String) (timeText : Int → String) (source body : Dict) :
    Prop where
  tradeId : ∃ s, source.get? "trade_id" = some (.str s) ∧ body.get? "trade_id" = some (.str s)
  price : ∃ v x, source.get? "price" = some v ∧ py.decimal v = some x ∧
    body.get? "price" = some (.str (decimalText x))
  size : ∃ v x, source.get? "size" = some v ∧ py.decimal v = some x ∧
    body.get? "size" = some (.str (decimalText x))
  side : ∃ s, source.get? "side" = some (.str s) ∧ body.get? "side" = some (.str s.toLower)
  time : ∃ v wall offset, source.get? "time" = some v ∧ py.datetime v = some ⟨wall, some offset⟩ ∧
    body.get? "time" = some (.str (timeText (wall - offset)))

/-- The sixth field is there as well, and it is the product of the subscription. -/
structure Contract (py : Pydantic) (decimalText : Decimal → String) (timeText : Int → String) (source body : Dict) :
    Prop extends CarriesFive py decimalText timeText source body where
  productId : source.get? "product_id" = some (.str PRODUCT_ID) ∧ body.get? "product_id" = some (.str PRODUCT_ID)

/-- Every published body decodes to an object that keeps the contract with its source trade. -/
def KeepsContract (py : Pydantic) (decimalText : Decimal → String) (timeText : Int → String)
    (loads : Frame → Except Exn Json) (dump : TradeMessage → Body) (decode : Body → Except Exn Json)
    (frames : List Frame) : Prop :=
  ∀ body ∈ (session py loads dump frames).1.published, ∃ source m fields, ReachedTrade py loads frames source ∧
    TradeMessage.validate py source = .ok m ∧ dump m = body ∧ decode body = .ok (.obj fields) ∧
    Contract py decimalText timeText source fields

variable {py : Pydantic} {decimalText : Decimal → String} {timeText : Int → String}

theorem carriesFive_modelDump {source : Dict} {m : TradeMessage} (h : ReadFrom py source m) :
    CarriesFive py decimalText timeText source (m.modelDump decimalText timeText) where
  tradeId := ⟨m.tradeId, h.tradeId, rfl⟩
  price := by
    obtain ⟨v, hv, hprice⟩ := h.price
    exact ⟨v, m.price, hv, hprice, rfl⟩
  size := by
    obtain ⟨v, hv, hsize⟩ := h.size
    exact ⟨v, m.size, hv, hsize, rfl⟩
  side := by
    obtain ⟨s, hs, hlower⟩ := h.side
    refine ⟨s, hs, ?_⟩
    rw [hlower]
    rfl
  time := by
    obtain ⟨v, wall, offset, hv, hdatetime, htime⟩ := h.time
    refine ⟨v, wall, offset, hv, hdatetime, ?_⟩
    rw [htime]
    rfl

theorem modelDump_productId (m : TradeMessage) : (m.modelDump decimalText timeText).get? "product_id" = none := rfl

end Contract

/-- **A published body never has its `product_id`.** The other five fields are right in every body, so the
contract is kept exactly when the stream comes to no trade that `TradeMessage` accepts. -/
theorem keepsContract_iff {py : Pydantic} {decimalText : Decimal → String} {timeText : Int → String}
    {loads : Frame → Except Exn Json} {dump : TradeMessage → Body} {decode : Body → Except Exn Json}
    (hdecode : ∀ m, decode (dump m) = .ok (.obj (m.modelDump decimalText timeText))) (frames : List Frame) :
    (∀ body ∈ (session py loads dump frames).1.published, ∃ source fields : Dict,
        ReachedTrade py loads frames source ∧ decode body = .ok (.obj fields) ∧
        CarriesFive py decimalText timeText source fields ∧ fields.get? "product_id" = none) ∧
      (KeepsContract py decimalText timeText loads dump decode frames ↔
        ∀ source, ReachedTrade py loads frames source → ∀ m, TradeMessage.validate py source ≠ .ok m) := by
  constructor
  · intro body hbody
    obtain ⟨source, m, hsource, hvalidate, rfl⟩ := mem_published_iff.mp hbody
    exact ⟨source, _, hsource, hdecode m, carriesFive_modelDump (readFrom_of_validate hvalidate),
      modelDump_productId m⟩
  · constructor
    · intro h source hsource m hvalidate
      obtain ⟨_, _, fields, -, -, -, hfields, hcontract⟩ :=
        h (dump m) (mem_published_iff.mpr ⟨source, m, hsource, hvalidate, rfl⟩)
      rw [hdecode] at hfields
      cases hfields
      have hproduct := hcontract.productId.2
      rw [modelDump_productId] at hproduct
      cases hproduct
    · intro h body hbody
      obtain ⟨source, m, hsource, hvalidate, -⟩ := mem_published_iff.mp hbody
      exact absurd hvalidate (h source hsource m)

/-- A trade of another product. -/
def otherProductFrame : Json :=
  .obj [("channel", .str "market_trades"),
    ("events", .arr [.obj [("trades", .arr [.obj [("trade_id", .str "1"), ("product_id", .str "ETH-USD"),
      ("price", .str "1"), ("size", .str "1"), ("side", .str "BUY"), ("time", .str "1970-01-01T00:00:00Z")]])]])]

def sampleDump (m : TradeMessage) : Json := .obj (m.modelDump (fun _ => "1") fun _ => "1970-01-01T00:00:00Z")

def sampleLoads (value : Json) : Except Exn Json := .ok value

theorem keepsContract_iff_otherProduct :
    (∀ body ∈ (session samplePydantic sampleLoads sampleDump [otherProductFrame]).1.published,
      ∃ source fields : Dict, ReachedTrade samplePydantic sampleLoads [otherProductFrame] source ∧
        sampleLoads body = .ok (.obj fields) ∧
        CarriesFive samplePydantic (fun _ => "1") (fun _ => "1970-01-01T00:00:00Z") source fields ∧
        fields.get? "product_id" = none) ∧
      (KeepsContract samplePydantic (fun _ => "1") (fun _ => "1970-01-01T00:00:00Z") sampleLoads sampleDump
          sampleLoads [otherProductFrame] ↔
        ∀ source, ReachedTrade samplePydantic sampleLoads [otherProductFrame] source →
          ∀ m, TradeMessage.validate samplePydantic source ≠ .ok m) :=
  keepsContract_iff (fun _ => rfl) [otherProductFrame]

/-- The trade is published, and the body does not say of which product it is. -/
theorem other_product_is_published :
    (session samplePydantic sampleLoads sampleDump [otherProductFrame]).1.published.length = 1 ∧
      ¬ KeepsContract samplePydantic (fun _ => "1") (fun _ => "1970-01-01T00:00:00Z") sampleLoads sampleDump
        sampleLoads [otherProductFrame] := by
  have hlength : (session samplePydantic sampleLoads sampleDump [otherProductFrame]).1.published.length = 1 := by
    decide +kernel
  refine ⟨hlength, fun h => ?_⟩
  obtain ⟨body, hbody⟩ := List.exists_mem_of_length_pos (by rw [hlength]; exact Nat.one_pos)
  obtain ⟨_, m, fields, -, -, rfl, hfields, hcontract⟩ := h body hbody
  cases hfields
  have hproduct := hcontract.productId.2
  rw [modelDump_productId] at hproduct
  cases hproduct

end Stream

end CryptoLakehouse
