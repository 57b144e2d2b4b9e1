import CryptoLakehouse.PythonJson
import Mathlib.Data.Rat.Defs
import Mathlib.Algebra.Order.Ring.Rat
import Mathlib.Algebra.Order.Field.Basic

/-! `TradeMessage` of `producer/schemas.py`. Pydantic checks the fields in their order and collects what
they complain about; an exception that is neither a `ValueError` nor an `AssertionError` is not collected
but escapes at once. The conversions from JSON to `Decimal` and `datetime` are parameters. -/

namespace CryptoLakehouse

/-- A finite `decimal.Decimal`; the sign is the coefficient's. -/
structure Decimal where
  coefficient : Int
  exponent : Int
  deriving DecidableEq

def Decimal.toRat (d : Decimal) : ℚ := d.coefficient * 10 ^ d.exponent

theorem Decimal.toRat_pos {d : Decimal} (h : 0 < d.coefficient) : 0 < d.toRat :=
  mul_pos (Int.cast_pos.mpr h) (zpow_pos (by norm_num) _)

/-- A `datetime` by its wall-clock time in microseconds since 1970; no offset means naive. -/
structure Datetime where
  wall : Int
  utcoffset : Option Int
  deriving DecidableEq

/-- `datetime.min` and `datetime.max` -/
def DATETIME_MIN : Int := -62135596800000000
def DATETIME_MAX : Int := 253402300799999999

/-- Pydantic's conversions in lax mode; `none` is a validation error. -/
structure Pydantic where
  decimal : Json → Option Decimal
  datetime : Json → Option Datetime

inductive Side where
  | buy
  | sell
  deriving DecidableEq

structure TradeMessage where
  tradeId : String
  price : Decimal
  size : Decimal
  side : Side
  /-- microseconds since 1970, UTC -/
  time : Int
  tradeId_ne : tradeId ≠ ""
  price_pos : 0 < price.coefficient
  size_pos : 0 < size.coefficient
  time_min : DATETIME_MIN ≤ time
  time_max : time ≤ DATETIME_MAX

/-- What validators come to: a value, a complaint, or an exception that escapes. -/
inductive Checked (A : Type) where
  | value (a : A)
  | invalid
  | raised (e : Exn) (h : e ≠ .validationError)

namespace Checked

variable {A B : Type}

/-- The next validator of a field. -/
def andThen : Checked A → (A → Checked B) → Checked B
  | value a, f => f a
  | invalid, _ => invalid
  | raised e h, _ => raised e h

/-- The next field of the model. -/
def ap : Checked (A → B) → Checked A → Checked B
  | raised e h, _ => raised e h
  | invalid, raised e h => raised e h
  | invalid, _ => invalid
  | value f, c => c.andThen fun a => value (f a)

def toExcept : Checked A → Except Exn A
  | value a => .ok a
  | invalid => .error .validationError
  | raised e _ => .error e

/-- No exception escapes. -/
def Quiet : Checked A → Prop
  | raised _ _ => False
  | _ => True

theorem ap_eq_value {f : Checked (A → B)} {c : Checked A} {b : B} :
    f.ap c = .value b ↔ ∃ g a, f = .value g ∧ c = .value a ∧ g a = b := by
  cases f <;> cases c <;> simp [ap, andThen]

theorem andThen_eq_value {c : Checked A} {f : A → Checked B} {b : B} :
    c.andThen f = .value b ↔ ∃ a, c = .value a ∧ f a = .value b := by
  cases c <;> simp [andThen]

theorem toExcept_eq_ok {c : Checked A} {a : A} : c.toExcept = .ok a ↔ c = .value a := by
  cases c <;> simp [toExcept]

theorem quiet_ap {f : Checked (A → B)} {c : Checked A} : (f.ap c).Quiet ↔ f.Quiet ∧ c.Quiet := by
  cases f <;> cases c <;> simp [ap, andThen, Quiet]

theorem Quiet.andThen {c : Checked A} {f : A → Checked B} (hc : c.Quiet) (hf : ∀ a, (f a).Quiet) :
    (c.andThen f).Quiet := by
  cases c with
  | value a => exact hf a
  | invalid => trivial
  | raised e h => exact hc.elim

theorem quiet_iff_toExcept {c : Checked A} : c.Quiet ↔ ∀ e, c.toExcept = .error e → e = .validationError := by
  cases c with
  | value a => simp [Quiet, toExcept]
  | invalid => simp [Quiet, toExcept]
  | raised e h => simp [Quiet, toExcept, h]

end Checked

section Validators

variable (py : Pydantic)

/-- A field that is missing is invalid. -/
def checkField {A : Type} (d : Dict) (key : String) (validators : Json → Checked A) : Checked A :=
  match d.get? key with
  | none => .invalid
  | some v => validators v

def ofOption {A : Type} : Option A → Checked A
  | none => .invalid
  | some a => .value a

/-- `str` with `min_length=1` -/
def nonEmptyString : Json → Checked { s : String // s ≠ "" }
  | .str s => if h : s ≠ "" then .value ⟨s, h⟩ else .invalid
  | _ => .invalid

def rejectFloat : Json → Checked Json
  | .float _ => .invalid
  | v => .value v

def mustBePositive (value : Decimal) : Checked { d : Decimal // 0 < d.coefficient } :=
  if h : 0 < value.coefficient then .value ⟨value, h⟩ else .invalid

/-- `astimezone(UTC)` raises when the instant is outside the years 1 to 9999 in UTC. -/
def ensureUtc (value : Datetime) : Checked { t : Int // DATETIME_MIN ≤ t ∧ t ≤ DATETIME_MAX } :=
  match value.utcoffset with
  | none => .invalid
  | some offset =>
      if h : DATETIME_MIN ≤ value.wall - offset ∧ value.wall - offset ≤ DATETIME_MAX then
        .value ⟨value.wall - offset, h⟩
      else .raised .overflowError (by decide)

/-- `value.lower()`; only ASCII letters have a lower case in `buy` or `sell`. -/
def lowercaseSide : Json → Checked String
  | .str s => .value s.toLower
  | _ => .raised .attributeError (by decide)

/-- `Literal["buy", "sell"]` -/
def literalSide (s : String) : Checked Side :=
  if s = "buy" then .value .buy else if s = "sell" then .value .sell else .invalid

def tradeIdField (d : Dict) : Checked { s : String // s ≠ "" } := checkField d "trade_id" nonEmptyString

def decimalField (d : Dict) (key : String) : Checked { x : Decimal // 0 < x.coefficient } :=
  checkField d key fun v => ((rejectFloat v).andThen fun v => ofOption (py.decimal v)).andThen mustBePositive

def sideField (d : Dict) : Checked Side := checkField d "side" fun v => (lowercaseSide v).andThen literalSide

def timeField (d : Dict) : Checked { t : Int // DATETIME_MIN ≤ t ∧ t ≤ DATETIME_MAX } :=
  checkField d "time" fun v => (ofOption (py.datetime v)).andThen ensureUtc

/-- `TradeMessage(**d)` -/
def TradeMessage.validate (d : Dict) : Except Exn TradeMessage :=
  (((((Checked.value fun tradeId price size side time =>
      ⟨tradeId.1, price.1, size.1, side, time.1, tradeId.2, price.2, size.2, time.2.1, time.2.2⟩ :
      Checked ({ s : String // s ≠ "" } → { x : Decimal // 0 < x.coefficient } →
        { x : Decimal // 0 < x.coefficient } → Side →
        { t : Int // DATETIME_MIN ≤ t ∧ t ≤ DATETIME_MAX } → TradeMessage)).ap
    (tradeIdField d)).ap (decimalField py d "price")).ap (decimalField py d "size")).ap (sideField d)).ap
    (timeField py d) |>.toExcept

end Validators

def Side.text : Side → String
  | .buy => "buy"
  | .sell => "sell"

/-- The object that `model_dump_json` writes; how a decimal and a UTC time are written is a parameter. -/
def TradeMessage.modelDump (decimalText : Decimal → String) (timeText : Int → String) (m : TradeMessage) : Dict :=
  [("trade_id", .str m.tradeId), ("price", .str (decimalText m.price)), ("size", .str (decimalText m.size)),
    ("side", .str m.side.text), ("time", .str (timeText m.time))]

section Escapes

variable {py : Pydantic} {d : Dict}

/-- `side`, where there is one, is a string. -/
def SideIsText (d : Dict) : Prop := ∀ v, d.get? "side" = some v → ∃ s, v = .str s

/-- `time`, where it has an offset, is a year between 1 and 9999 in UTC. -/
def TimeInRange (py : Pydantic) (d : Dict) : Prop :=
  ∀ v t offset, d.get? "time" = some v → py.datetime v = some ⟨t, some offset⟩ →
    DATETIME_MIN ≤ t - offset ∧ t - offset ≤ DATETIME_MAX

theorem quiet_checkField {A : Type} {validators : Json → Checked A} (h : ∀ v, (validators v).Quiet)
    (key : String) : (checkField d key validators).Quiet := by
  unfold checkField
  split
  · trivial
  · exact h _

theorem quiet_ofOption {A : Type} (a : Option A) : (ofOption a).Quiet := by cases a <;> trivial

theorem quiet_nonEmptyString (v : Json) : (nonEmptyString v).Quiet := by
  unfold nonEmptyString
  split
  · split <;> trivial
  · trivial

theorem quiet_rejectFloat (v : Json) : (rejectFloat v).Quiet := by cases v <;> trivial

theorem quiet_mustBePositive (x : Decimal) : (mustBePositive x).Quiet := by
  unfold mustBePositive
  split <;> trivial

theorem quiet_literalSide (s : String) : (literalSide s).Quiet := by
  unfold literalSide
  split
  · trivial
  · split <;> trivial

/-- The second kind of escape: an instant that is outside the range in UTC. -/
theorem quiet_ensureUtc (x : Datetime) : (ensureUtc x).Quiet ↔
    ∀ offset, x.utcoffset = some offset → DATETIME_MIN ≤ x.wall - offset ∧ x.wall - offset ≤ DATETIME_MAX := by
  unfold ensureUtc
  cases x.utcoffset with
  | none => simp [Checked.Quiet]
  | some offset =>
      simp only [Option.some.injEq, forall_eq']
      split <;> rename_i h
      · exact iff_of_true trivial h
      · exact iff_of_false id h

theorem quiet_tradeIdField : (tradeIdField d).Quiet := quiet_checkField quiet_nonEmptyString _

theorem quiet_decimalField (key : String) : (decimalField py d key).Quiet :=
  quiet_checkField
    (fun v => ((quiet_rejectFloat v).andThen fun v => quiet_ofOption (py.decimal v)).andThen quiet_mustBePositive)
    key

theorem quiet_sideField : (sideField d).Quiet ↔ SideIsText d := by
  unfold sideField checkField SideIsText
  cases hside : d.get? "side" with
  | none => simp [Checked.Quiet]
  | some v =>
      cases v with
      | str s => exact iff_of_true (quiet_literalSide s.toLower) (by simp)
      | null | bool | int | float | arr | obj =>
          simp [lowercaseSide, Checked.andThen, Checked.Quiet]

theorem timeInRange_iff {v : Json} (htime : d.get? "time" = some v) :
    TimeInRange py d ↔ ∀ x, py.datetime v = some x → (ensureUtc x).Quiet := by
  simp only [TimeInRange, htime, quiet_ensureUtc]
  constructor
  · rintro h ⟨wall, _⟩ hx offset rfl
    exact h v wall offset rfl hx
  · rintro h w t offset heq hx
    rw [← Option.some.inj heq] at hx
    exact h _ hx offset rfl

theorem quiet_timeField : (timeField py d).Quiet ↔ TimeInRange py d := by
  unfold timeField checkField
  cases htime : d.get? "time" with
  | none => simp [TimeInRange, htime, Checked.Quiet]
  | some v =>
      rw [timeInRange_iff htime]
      cases hdatetime : py.datetime v with
      | none => simp [ofOption, hdatetime, Checked.andThen, Checked.Quiet]
      | some x => simp [ofOption, hdatetime, Checked.andThen]

/-- Exactly two kinds of trades make another exception escape than a `ValidationError`. -/
theorem validate_quiet_iff :
    (∀ e, TradeMessage.validate py d = .error e → e = .validationError) ↔ SideIsText d ∧ TimeInRange py d := by
  rw [TradeMessage.validate, ← Checked.quiet_iff_toExcept]
  simp only [Checked.quiet_ap, quiet_tradeIdField, quiet_decimalField, quiet_sideField, quiet_timeField]
  simp [Checked.Quiet]

end Escapes

end CryptoLakehouse
