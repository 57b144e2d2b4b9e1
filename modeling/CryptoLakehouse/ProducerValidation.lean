import CryptoLakehouse.ProducerContract

/-! `TradeMessage(**d)` as a boundary: a message whose fields are in order, or a `ValidationError`. The
before-validator of `side` calls a method that only strings have, and the after-validator of `time` converts
to a zone in which the year may not exist; what these raise is neither. -/

namespace CryptoLakehouse

variable {py : Pydantic} {d : Dict}

/-- `time` is UTC and denotes the instant that the source gives with its own offset. -/
def SameInstant (py : Pydantic) (d : Dict) (time : Int) : Prop :=
  ∃ v wall offset, d.get? "time" = some v ∧ py.datetime v = some ⟨wall, some offset⟩ ∧ time = wall - offset

/-- What the schema promises of a message. -/
structure InOrder (py : Pydantic) (d : Dict) (m : TradeMessage) : Prop where
  tradeId_ne : m.tradeId ≠ ""
  price_pos : 0 < m.price.toRat
  size_pos : 0 < m.size.toRat
  side_eq : m.side = .buy ∨ m.side = .sell
  sameInstant : SameInstant py d m.time

/-- Validation returns a message in order or fails with `ValidationError`. -/
def FailsOnlyWithValidationError (py : Pydantic) (d : Dict) : Prop :=
  (∃ m, TradeMessage.validate py d = .ok m ∧ InOrder py d m) ∨
    TradeMessage.validate py d = .error .validationError

theorem inOrder_of_validate {m : TradeMessage} (h : TradeMessage.validate py d = .ok m) : InOrder py d m where
  tradeId_ne := m.tradeId_ne
  price_pos := Decimal.toRat_pos m.price_pos
  size_pos := Decimal.toRat_pos m.size_pos
  side_eq := by
    cases m.side with
    | buy => exact .inl rfl
    | sell => exact .inr rfl
  sameInstant := by
    obtain ⟨v, wall, offset, hv, hdatetime, htime⟩ := (readFrom_of_validate h).time
    exact ⟨v, wall, offset, hv, hdatetime, htime.symm⟩

theorem quiet_of_failsOnly (h : FailsOnlyWithValidationError py d) {e : Exn}
    (he : TradeMessage.validate py d = .error e) : e = .validationError := by
  rcases h with ⟨m, hm, -⟩ | herror
  · rw [hm] at he
    cases he
  · exact Except.error.inj (he.symm.trans herror)

/-- No other exception than `ValidationError` escapes exactly when `side`, if there, is a string, and `time`,
if it is read with an offset, has a year between 1 and 9999 in UTC. -/
theorem fails_only_with_validationError_iff (py : Pydantic) (d : Dict) :
    FailsOnlyWithValidationError py d ↔ SideIsText d ∧ TimeInRange py d := by
  rw [← validate_quiet_iff]
  constructor
  · exact fun h e he => quiet_of_failsOnly h he
  · intro hquiet
    cases hvalidate : TradeMessage.validate py d with
    | ok m => exact .inl ⟨m, hvalidate, inOrder_of_validate hvalidate⟩
    | error e =>
        obtain rfl : e = .validationError := hquiet e hvalidate
        exact .inr hvalidate

/-- Pydantic on the first instant of the year 1, one hour east of Greenwich. -/
def edgePydantic : Pydantic where
  decimal
    | .str "1" => some ⟨1, 0⟩
    | _ => none
  datetime
    | .str "0001-01-01T00:00:00+01:00" => some ⟨DATETIME_MIN, some 3600000000⟩
    | _ => none

def edgeTrade (side : Json) : Dict :=
  [("trade_id", .str "1"), ("price", .str "1"), ("size", .str "1"), ("side", side),
    ("time", .str "0001-01-01T00:00:00+01:00")]

/-- `null` for a side raises `AttributeError`, whatever the other fields; and a side in order does not help a
time that is before the year 1 in UTC. -/
theorem other_exceptions_escape :
    TradeMessage.validate Stream.samplePydantic [("side", .null)] = .error .attributeError ∧
      ¬FailsOnlyWithValidationError Stream.samplePydantic [("side", .null)] ∧
      ¬FailsOnlyWithValidationError edgePydantic (edgeTrade (.str "buy")) := by
  have hnull : TradeMessage.validate Stream.samplePydantic [("side", .null)] = .error .attributeError := rfl
  refine ⟨hnull, fun h => ?_, fun h => ?_⟩
  · exact absurd (quiet_of_failsOnly h hnull) (by decide)
  · obtain ⟨-, hrange⟩ := validate_quiet_iff.mp fun e => quiet_of_failsOnly h
    exact absurd (hrange _ DATETIME_MIN 3600000000 rfl rfl).1 (by decide)

end CryptoLakehouse
