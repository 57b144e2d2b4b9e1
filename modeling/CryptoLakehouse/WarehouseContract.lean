import CryptoLakehouse.ProducerSchemas
import CryptoLakehouse.WarehouseSilver

/-! What the warehouse makes of a published trade: the body is a `jsonb` payload of bronze, and the casts
of `stg_trades` read its texts. The texts themselves are parameters that the casts read back. -/

namespace CryptoLakehouse

/-- A text without the character that `jsonb` cannot hold. -/
def noNul (s : String) : Bool := s.toList.all fun c => c ≠ Char.ofNat 0

mutual

/-- What the conversion to `jsonb` accepts. -/
def jsonbAccepts : Json → Bool
  | .str s => noNul s
  | .arr items => jsonbAcceptsItems items
  | .obj fields => jsonbAcceptsFields fields
  | .null | .bool _ | .int _ | .float _ => true

def jsonbAcceptsItems : List Json → Bool
  | [] => true
  | item :: items => jsonbAccepts item && jsonbAcceptsItems items

def jsonbAcceptsFields : List (String × Json) → Bool
  | [] => true
  | (key, value) :: fields => noNul key && jsonbAccepts value && jsonbAcceptsFields fields

end

/-- The format of an unconstrained `numeric`: digits before and after the point. -/
def NUMERIC_DIGITS : Nat := 131072
def NUMERIC_SCALE : Int := 16383

/-- A positive decimal, written out, is within the format of `numeric`. -/
def Decimal.InFormat (d : Decimal) : Prop := -NUMERIC_SCALE ≤ d.exponent ∧ d.toRat < 10 ^ NUMERIC_DIGITS

/-- At most eight significant and 16383 written fractional digits, and less than `10 ^ 10`. -/
def Decimal.Holdable (d : Decimal) : Prop :=
  -NUMERIC_SCALE ≤ d.exponent ∧ ∃ n : Int, d.toRat = n / 10 ^ 8 ∧ n < 10 ^ 18

section Contract

-- `indexable` is the size limit on the entries of the unique index over `trade_id`.
variable (pg : Postgres) (indexable : String → Prop) (decimalText : Decimal → String) (timeText : Int → String)

/-- An `INSERT` of the payload into `bronze.raw_trades` raises nothing. -/
def Insertable (payload : Dict) : Prop :=
  jsonbAccepts (.obj payload) = true ∧ ∀ tradeId ∈ pg.textAt payload "trade_id", indexable tradeId

/-- The published body is insertable, the casts succeed, and the silver row has the validated values. -/
def HeldExactly (m : TradeMessage) : Prop :=
  Insertable pg indexable (m.modelDump decimalText timeText) ∧
    ∀ receivedAt, ∃ x, parsed pg ⟨m.modelDump decimalText timeText, receivedAt⟩ = some x ∧
      x.tradeId = m.tradeId ∧ x.price = some m.price.toRat ∧ x.size = some m.size.toRat ∧
      0 < m.price.toRat ∧ 0 < m.size.toRat ∧ x.side = some m.side.text ∧ x.tradedAt = some m.time

/-- The text of a decimal is exact: Postgres reads it back, unless it is beyond the format of `numeric`. -/
structure ReadsDecimal (d : Decimal) : Prop where
  within : d.InFormat → pg.numericIn (decimalText d) = some d.toRat
  beyond : ¬ d.InFormat → pg.numericIn (decimalText d) = none
  printable : noNul (decimalText d) = true

/-- The text of an instant is exact. -/
structure ReadsTime (t : Int) : Prop where
  exact : pg.timestamptzIn (timeText t) = some t
  printable : noNul (timeText t) = true

section Casts

variable {pg decimalText timeText} {d : Decimal} {m : TradeMessage}

/-- Whatever is holdable is in the format: `10 ^ 10` is far from the limit on the digits before the point. -/
theorem Decimal.Holdable.inFormat (h : d.Holdable) : d.InFormat := by
  obtain ⟨hscale, n, hn, hfits⟩ := h
  refine ⟨hscale, ?_⟩
  have hdigits : (10 : ℚ) ^ 10 ≤ 10 ^ NUMERIC_DIGITS :=
    pow_le_pow_right₀ (by norm_num) (by unfold NUMERIC_DIGITS; omega)
  have hlt : d.toRat < 10 ^ 10 := by
    have hcast : (n : ℚ) < 10 ^ 18 := by exact_mod_cast hfits
    rw [hn, div_lt_iff₀ (by norm_num)]
    linarith
  exact hlt.trans_le hdigits

/-- The cast to `numeric(18, 8)` keeps exactly the holdable decimals. -/
theorem ReadsDecimal.cast_eq_iff (h : ReadsDecimal pg decimalText d) (hpos : 0 < d.coefficient) :
    (pg.numericIn (decimalText d)).bind numeric18_8 = some d.toRat ↔ d.Holdable := by
  by_cases hformat : d.InFormat
  · rw [h.within hformat, Option.bind_some, numeric18_8_eq_self_iff]
    refine (and_iff_right hformat.1).symm.trans (and_congr_right fun _ => exists_congr fun n => ?_)
    refine and_congr_right fun hn => ?_
    have hcast : (0 : ℚ) < n := by
      have hquot := Decimal.toRat_pos hpos
      rw [hn] at hquot
      exact (div_pos_iff_of_pos_right (by norm_num)).mp hquot
    have hnpos : 0 < n := Int.cast_pos.mp hcast
    omega
  · rw [h.beyond hformat]
    exact iff_of_false (by simp) fun hhold => hformat hhold.inFormat

theorem jsonbAccepts_modelDump (hprice : ReadsDecimal pg decimalText m.price)
    (hsize : ReadsDecimal pg decimalText m.size) (htime : ReadsTime pg timeText m.time) :
    jsonbAccepts (.obj (m.modelDump decimalText timeText)) = noNul m.tradeId := by
  have hside : noNul m.side.text = true := by cases m.side <;> decide
  have hkeys : ∀ key ∈ ["trade_id", "price", "size", "side", "time"], noNul key = true := by decide
  simp only [List.forall_mem_cons] at hkeys
  obtain ⟨hkey, hkey', hkey'', hkey''', hkey'''', -⟩ := hkeys
  simp only [TradeMessage.modelDump, jsonbAccepts, jsonbAcceptsFields, hkey, hkey', hkey'', hkey''', hkey'''',
    hprice.printable, hsize.printable, hside, htime.printable, Bool.true_and, Bool.and_true]

theorem textAt_modelDump (pg : Postgres) (decimalText : Decimal → String) (timeText : Int → String)
    (m : TradeMessage) :
    pg.textAt (m.modelDump decimalText timeText) "trade_id" = some m.tradeId ∧
      pg.textAt (m.modelDump decimalText timeText) "price" = some (decimalText m.price) ∧
      pg.textAt (m.modelDump decimalText timeText) "size" = some (decimalText m.size) ∧
      pg.textAt (m.modelDump decimalText timeText) "side" = some m.side.text ∧
      pg.textAt (m.modelDump decimalText timeText) "time" = some (timeText m.time) := by
  simp [Postgres.textAt, Dict.get?, List.lookup_cons, TradeMessage.modelDump]

/-- What `stg_trades` makes of a published trade. -/
theorem parsed_modelDump (htime : ReadsTime pg timeText m.time) (receivedAt : Instant) (x : SilverTrade) :
    parsed pg ⟨m.modelDump decimalText timeText, receivedAt⟩ = some x ↔
      ∃ price size, (pg.numericIn (decimalText m.price)).bind numeric18_8 = some price ∧
        (pg.numericIn (decimalText m.size)).bind numeric18_8 = some size ∧
        x = ⟨m.tradeId, some price, some size, some m.side.text, some m.time, receivedAt⟩ := by
  obtain ⟨hid, hprice, hsize, hside, htext⟩ := textAt_modelDump pg decimalText timeText m
  simp only [parsed, numericAt, timestamptzAt, RawTrade.tradeId, hid, hprice, hsize, hside, htext, htime.exact,
    Option.bind_eq_bind, Option.bind_eq_some_iff, Option.map_eq_some_iff, Option.some.injEq]
  constructor
  · rintro ⟨_, rfl, _, ⟨text, htextIn, price, hcast, rfl⟩, _, ⟨text', htextIn', size, hcast', rfl⟩, _,
      ⟨_, rfl, rfl⟩, rfl⟩
    exact ⟨price, size, ⟨text, htextIn, hcast⟩, ⟨text', htextIn', hcast'⟩, rfl⟩
  · rintro ⟨price, size, ⟨text, htextIn, hcast⟩, ⟨text', htextIn', hcast'⟩, rfl⟩
    exact ⟨_, rfl, _, ⟨text, htextIn, price, hcast, rfl⟩, _, ⟨text', htextIn', size, hcast', rfl⟩, _,
      ⟨_, rfl, rfl⟩, rfl⟩

end Casts

/-- The warehouse holds an accepted trade exactly when its id is storable and its numbers are holdable. -/
theorem heldExactly_iff_holdable (m : TradeMessage) (hprice : ReadsDecimal pg decimalText m.price)
    (hsize : ReadsDecimal pg decimalText m.size) (htime : ReadsTime pg timeText m.time) :
    HeldExactly pg indexable decimalText timeText m ↔
      noNul m.tradeId = true ∧ indexable m.tradeId ∧ m.price.Holdable ∧ m.size.Holdable := by
  have hinsert : Insertable pg indexable (m.modelDump decimalText timeText) ↔
      noNul m.tradeId = true ∧ indexable m.tradeId := by
    rw [Insertable, jsonbAccepts_modelDump hprice hsize htime, (textAt_modelDump pg _ _ m).1]
    simp
  rw [← hprice.cast_eq_iff m.price_pos, ← hsize.cast_eq_iff m.size_pos, ← and_assoc, ← hinsert, HeldExactly]
  refine and_congr_right fun _ => ?_
  simp only [parsed_modelDump htime]
  constructor
  · intro h
    obtain ⟨x, ⟨price, size, hcast, hcast', rfl⟩, -, hp, hs, -⟩ := h 0
    exact ⟨hcast.trans hp, hcast'.trans hs⟩
  · rintro ⟨hcast, hcast'⟩ receivedAt
    exact ⟨_, ⟨_, _, hcast, hcast', rfl⟩, rfl, rfl, rfl, Decimal.toRat_pos m.price_pos,
      Decimal.toRat_pos m.size_pos, rfl, rfl⟩

end Contract

/-- A trade as the exchange sends it. -/
def offeredTrade (price : String) : Dict :=
  [("trade_id", .str "1"), ("price", .str price), ("size", .str "1"), ("side", .str "BUY"),
    ("time", .str "1970-01-01T00:00:00Z")]

/-- Pydantic on the values of `offeredTrade`. -/
def offeredPydantic : Pydantic where
  decimal
    | .str "1" => some ⟨1, 0⟩
    | .str "0.000000001" => some ⟨1, -9⟩
    | _ => none
  datetime
    | .str "1970-01-01T00:00:00Z" => some ⟨0, some 0⟩
    | _ => none

/-- `str` of the two decimals above. -/
def offeredText (d : Decimal) : String := if d = ⟨1, -9⟩ then "1E-9" else "1"

/-- Postgres on the texts of the offered trades. -/
def offeredPostgres : Postgres where
  jsonbText _ := ""
  numericIn
    | "1" => some 1
    | "1E-9" => some (1 / 10 ^ 9)
    | _ => none
  timestamptzIn
    | "1970-01-01T00:00:00Z" => some 0
    | _ => none

def unitTrade : TradeMessage :=
  ⟨"1", ⟨1, 0⟩, ⟨1, 0⟩, .buy, 0, by decide, by decide, by decide, by decide, by decide⟩

theorem holdable_one : (⟨1, 0⟩ : Decimal).Holdable :=
  ⟨by decide, 10 ^ 8, by norm_num [Decimal.toRat], by decide⟩

theorem readsDecimal_one : ReadsDecimal offeredPostgres offeredText ⟨1, 0⟩ :=
  ⟨fun _ => by decide +kernel, fun h => absurd holdable_one.inFormat h, by decide⟩

theorem readsTime_zero : ReadsTime offeredPostgres (fun _ => "1970-01-01T00:00:00Z") 0 :=
  ⟨rfl, by decide⟩

theorem heldExactly_iff_holdable_unit :
    HeldExactly offeredPostgres (fun _ => True) offeredText (fun _ => "1970-01-01T00:00:00Z") unitTrade ↔
      noNul "1" = true ∧ True ∧ (⟨1, 0⟩ : Decimal).Holdable ∧ (⟨1, 0⟩ : Decimal).Holdable :=
  heldExactly_iff_holdable offeredPostgres (fun _ => True) offeredText (fun _ => "1970-01-01T00:00:00Z")
    unitTrade readsDecimal_one readsDecimal_one readsTime_zero

/-- The producer accepts a price of `10 ^ -9`, which is a price of zero in silver. -/
theorem dust_price_becomes_zero :
    ∃ m, TradeMessage.validate offeredPydantic (offeredTrade "0.000000001") = .ok m ∧
      (parsed offeredPostgres ⟨m.modelDump offeredText (fun _ => "1970-01-01T00:00:00Z"), 0⟩).bind
        SilverTrade.price = some 0 ∧
      ¬ HeldExactly offeredPostgres (fun _ => True) offeredText (fun _ => "1970-01-01T00:00:00Z") m := by
  have hparsed : parsed offeredPostgres
      ⟨TradeMessage.modelDump offeredText (fun _ => "1970-01-01T00:00:00Z")
        { unitTrade with price := ⟨1, -9⟩, price_pos := by decide }, 0⟩ =
      some ⟨"1", some 0, some 1, some "buy", some 0, 0⟩ := by decide +kernel
  have hside : sideField (offeredTrade "0.000000001") = .value .buy := by
    have hlower : "BUY".toLower = "buy" := by decide +kernel
    simp [sideField, checkField, offeredTrade, Dict.get?, List.lookup_cons, lowercaseSide, Checked.andThen,
      hlower, literalSide]
  refine ⟨{ unitTrade with price := ⟨1, -9⟩, price_pos := by decide }, ?_, by rw [hparsed]; rfl, ?_⟩
  · rw [TradeMessage.validate, hside]
    rfl
  rintro ⟨-, hrow⟩
  obtain ⟨x, hx, -, hprice, -, hpos, -⟩ := hrow 0
  rw [hparsed] at hx
  cases hx
  exact hpos.ne (Option.some.inj hprice)

end CryptoLakehouse
