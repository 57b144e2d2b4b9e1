import CryptoLakehouse.LibraryRounding
import CryptoLakehouse.WarehouseGold

/-! The aggregates of a window as numbers: `vwap` and `buy_volume_pct` are means with the sizes as weights,
which the division of `numeric` rounds. `vwap_bounds` (`dbt/macros/vwap_bounds.sql`) is run on them. -/

namespace CryptoLakehouse

open Rounding (Nearest decimals mean)

/-- The division of `numeric` rounds to the nearest, at a scale of its choice. -/
def Numerics.RoundsQuotients (num : Numerics) : Prop :=
  ∀ x y, y ≠ 0 → ∃ scale, 16 ≤ scale ∧ Nearest (decimals ℚ scale) (x / y) (num.div x y)

/-- The division without rounding. -/
def Numerics.exact (num : Numerics) : Numerics := { num with div := fun x y => x / y }

namespace SilverTrade

/-- The columns are there and in range. -/
structure Sound (trade : SilverTrade) : Prop where
  price : ∃ p, trade.price = some p ∧ numeric18_8 p = some p
  size : ∃ s, trade.size = some s ∧ 0 ≤ s
  side : trade.side = some "buy" ∨ trade.side = some "sell"

def paid (trade : SilverTrade) : ℚ := trade.price.getD 0

def volume (trade : SilverTrade) : ℚ := trade.size.getD 0

/-- The volume of the trades of one side, as in `case when side = 'buy' then size else 0 end`. -/
def sideVolume (side : String) (trade : SilverTrade) : ℚ := if trade.side = some side then trade.volume else 0

end SilverTrade

open SilverTrade (Sound paid volume sideVolume)

namespace Gold

/-- `test_vwap_bounds`: the rows that fail, as `not between` is not true of NULL. -/
def vwapBounds (model : List VwapRow) : List VwapRow :=
  model.filter fun row => less row.vwap row.lowPrice || less row.highPrice row.vwap
where
  less : Option ℚ → Option ℚ → Bool
    | some x, some y => x < y
    | _, _ => false

/-- The vwap of a window against its trades. -/
structure VwapInRange (trades : List SilverTrade) (row : VwapRow) : Prop where
  null : row.vwap = none ↔ ∀ t ∈ trades, t.size = some 0
  range : ∀ x, row.vwap = some x → ∃ low high, row.lowPrice = some low ∧ row.highPrice = some high ∧
    low ≤ x ∧ x ≤ high

structure PctInRange (trades : List SilverTrade) (row : StatsRow) : Prop where
  null : row.buyVolumePct = none ↔ ∀ t ∈ trades, t.size = some 0
  range : ∀ x, row.buyVolumePct = some x → 0 ≤ x ∧ x ≤ 100

/-- The sell side's part of the volume of some trades, in percent. -/
def sellVolumePct (trades : List SilverTrade) : ℚ :=
  (trades.map (sideVolume "sell")).sum * 100 / (trades.map volume).sum

section Columns

variable {trade : SilverTrade} {trades : List SilverTrade}

theorem price_of_sound (h : Sound trade) : trade.price = some trade.paid := by
  obtain ⟨p, hp, -⟩ := h.price
  rw [paid, hp, Option.getD_some]

theorem size_of_sound (h : Sound trade) : trade.size = some trade.volume := by
  obtain ⟨s, hs, -⟩ := h.size
  rw [volume, hs, Option.getD_some]

theorem volume_nonneg (h : Sound trade) : 0 ≤ trade.volume := by
  obtain ⟨s, hs, hnonneg⟩ := h.size
  rwa [volume, hs, Option.getD_some]

/-- A price has eight digits, so it is there at every scale of a quotient. -/
theorem paid_mem_decimals (h : Sound trade) {scale : Nat} (hscale : 16 ≤ scale) :
    trade.paid ∈ decimals ℚ scale := by
  obtain ⟨p, hp, hcast⟩ := h.price
  obtain ⟨n, hn, -⟩ := (numeric18_8_eq_self_iff p).mp hcast
  apply Rounding.decimals_mono (show 8 ≤ scale by omega)
  rw [paid, hp, Option.getD_some, hn]
  exact ⟨n, div_mul_cancel₀ _ (by norm_num)⟩

theorem reduceOption_map {f : SilverTrade → Option ℚ} {g : SilverTrade → ℚ}
    (h : ∀ t ∈ trades, f t = some (g t)) : (trades.map f).reduceOption = trades.map g := by
  induction trades with
  | nil => rfl
  | cons t trades ih =>
      rw [List.forall_mem_cons] at h
      rw [List.map_cons, h.1, List.reduceOption_cons_of_some, ih h.2, List.map_cons]

theorem sqlSum_map {f : SilverTrade → Option ℚ} {g : SilverTrade → ℚ} (hne : trades ≠ [])
    (h : ∀ t ∈ trades, f t = some (g t)) : sqlSum (trades.map f) = some (trades.map g).sum := by
  rw [sqlSum, reduceOption_map h, if_neg (List.map_eq_nil_iff.not.mpr hne)]

end Columns

section Window

variable (num : Numerics) (windowStart : Option Instant) {trade : SilverTrade} {trades : List SilverTrade}

/-- `x / nullif(sum(size), 0)` -/
theorem strict_div_nullifZero (x total : ℚ) :
    strict num.div (some x) (nullifZero (some total)) = if total = 0 then none else some (num.div x total) := by
  simp only [nullifZero, Option.some_inj]
  split_ifs <;> rfl

theorem vwap_eq (hne : trades ≠ []) (hsound : ∀ t ∈ trades, Sound t) :
    (vwapRow num windowStart trades).vwap =
      if (trades.map volume).sum = 0 then none
      else some (num.div (trades.map fun t => t.paid * t.volume).sum (trades.map volume).sum) := by
  have hproduct : ∀ t ∈ trades, strict (· * ·) t.price t.size = some (t.paid * t.volume) := by
    intro t ht
    rw [price_of_sound (hsound t ht), size_of_sound (hsound t ht)]
    rfl
  rw [← strict_div_nullifZero, ← sqlSum_map hne hproduct,
    ← sqlSum_map hne fun t ht => size_of_sound (hsound t ht)]
  rfl

theorem buyVolumePct_eq (hne : trades ≠ []) (hsound : ∀ t ∈ trades, Sound t) :
    (statsRow num windowStart trades).buyVolumePct =
      if (trades.map volume).sum = 0 then none
      else some (num.div ((trades.map (sideVolume "buy")).sum * 100) (trades.map volume).sum) := by
  have hbuy : ∀ t ∈ trades,
      (if t.side = some "buy" then t.size else some 0) = some (sideVolume "buy" t) := by
    intro t ht
    rw [size_of_sound (hsound t ht), sideVolume]
    split_ifs <;> rfl
  rw [← strict_div_nullifZero]
  show strict num.div (strict (· * ·) (sqlSum (trades.map _)) (some 100))
    (nullifZero (sqlSum (trades.map _))) = _
  rw [sqlSum_map hne hbuy, sqlSum_map hne fun t ht => size_of_sound (hsound t ht)]
  rfl

/-- The least and the greatest price are those of trades of the window. -/
theorem exists_priceRange (hne : trades ≠ []) (hsound : ∀ t ∈ trades, Sound t) :
    ∃ low high, (vwapRow num windowStart trades).lowPrice = some low.paid ∧
      (vwapRow num windowStart trades).highPrice = some high.paid ∧ low ∈ trades ∧ high ∈ trades ∧
      ∀ t ∈ trades, low.paid ≤ t.paid ∧ t.paid ≤ high.paid := by
  have hprices : (trades.map SilverTrade.price).reduceOption = trades.map paid :=
    reduceOption_map fun t ht => price_of_sound (hsound t ht)
  have hne' : trades.map paid ≠ [] := List.map_eq_nil_iff.not.mpr hne
  obtain ⟨l, hl⟩ := Option.ne_none_iff_exists'.mp (List.min?_eq_none_iff.not.mpr hne')
  obtain ⟨h, hh⟩ := Option.ne_none_iff_exists'.mp (List.max?_eq_none_iff.not.mpr hne')
  obtain ⟨hlmem, hlle⟩ := List.min?_eq_some_iff.mp hl
  obtain ⟨hhmem, hhle⟩ := List.max?_eq_some_iff.mp hh
  obtain ⟨low, hlow, rfl⟩ := List.mem_map.mp hlmem
  obtain ⟨high, hhigh, rfl⟩ := List.mem_map.mp hhmem
  refine ⟨low, high, ?_, ?_, hlow, hhigh, fun t ht => ?_⟩
  · rw [← hl, ← hprices]
    rfl
  · rw [← hh, ← hprices]
    rfl
  · exact ⟨hlle _ (List.mem_map_of_mem ht), hhle _ (List.mem_map_of_mem ht)⟩

theorem volume_sum_eq_zero_iff (hsound : ∀ t ∈ trades, Sound t) :
    (trades.map volume).sum = 0 ↔ ∀ t ∈ trades, t.size = some 0 := by
  rw [Rounding.sum_weight_eq_zero_iff fun t ht => volume_nonneg (hsound t ht)]
  refine forall₂_congr fun t ht => ?_
  rw [size_of_sound (hsound t ht), Option.some_inj]

variable {num windowStart}

variable (windowStart) in
theorem vwapInRange_vwapRow (hdiv : num.RoundsQuotients) (hne : trades ≠ [])
    (hsound : ∀ t ∈ trades, Sound t) : VwapInRange trades (vwapRow num windowStart trades) := by
  constructor
  · rw [vwap_eq num windowStart hne hsound, ← volume_sum_eq_zero_iff hsound]
    split_ifs with hzero <;> simp [hzero]
  · intro x hx
    rw [vwap_eq num windowStart hne hsound] at hx
    split_ifs at hx with hzero
    obtain rfl := Option.some.inj hx
    obtain ⟨low, high, hlow, hhigh, hlowmem, hhighmem, hprices⟩ :=
      exists_priceRange num windowStart hne hsound
    obtain ⟨scale, hscale, hnearest⟩ := hdiv (trades.map fun t => t.paid * t.volume).sum _ hzero
    have hmean : Nearest (decimals ℚ scale) (mean trades paid volume) (num.div _ _) := hnearest
    have hlowscale := paid_mem_decimals (hsound low hlowmem) hscale
    have hhighscale := paid_mem_decimals (hsound high hhighmem) hscale
    exact ⟨low.paid, high.paid, hlow, hhigh,
      hmean.mean_between (fun t ht => volume_nonneg (hsound t ht)) hzero hlowscale hhighscale hprices⟩

/-- The percentage of the buy side as a mean: every buy counts 100, every other trade 0. -/
theorem buyVolume_eq_mean (trades : List SilverTrade) :
    (trades.map (sideVolume "buy")).sum * 100 / (trades.map volume).sum =
      mean trades (fun t => if t.side = some "buy" then (100 : ℚ) else 0) volume := by
  rw [mean, ← List.sum_map_mul_right]
  congr 2
  apply List.map_congr_left
  intro t _
  rw [sideVolume]
  split_ifs
  · exact mul_comm _ _
  · rw [zero_mul, zero_mul]

variable (windowStart) in
theorem pctInRange_statsRow (hdiv : num.RoundsQuotients) (hne : trades ≠ [])
    (hsound : ∀ t ∈ trades, Sound t) : PctInRange trades (statsRow num windowStart trades) := by
  constructor
  · rw [buyVolumePct_eq num windowStart hne hsound, ← volume_sum_eq_zero_iff hsound]
    split_ifs with hzero <;> simp [hzero]
  · intro x hx
    rw [buyVolumePct_eq num windowStart hne hsound] at hx
    split_ifs at hx with hzero
    obtain rfl := Option.some.inj hx
    obtain ⟨scale, -, hnearest⟩ := hdiv ((trades.map (sideVolume "buy")).sum * 100) _ hzero
    rw [buyVolume_eq_mean] at hnearest
    have hlow : (0 : ℚ) ∈ decimals ℚ scale := by exact_mod_cast Rounding.natCast_mem_decimals 0 scale
    have hhigh : (100 : ℚ) ∈ decimals ℚ scale := by exact_mod_cast Rounding.natCast_mem_decimals 100 scale
    refine hnearest.mean_between (fun t ht => volume_nonneg (hsound t ht)) hzero hlow hhigh ?_
    intro t _
    split_ifs <;> norm_num

/-- Every trade is on one of the sides. -/
theorem sideVolume_add (h : Sound trade) : sideVolume "buy" trade + sideVolume "sell" trade = trade.volume := by
  rcases h.side with hside | hside <;> simp [sideVolume, hside]

/-- What the dashboard takes for the sell side is the sell side, without the rounding. -/
theorem sub_buyVolumePct_exact (hne : trades ≠ []) (hsound : ∀ t ∈ trades, Sound t) {pct : ℚ}
    (h : (statsRow num.exact windowStart trades).buyVolumePct = some pct) :
    100 - pct = sellVolumePct trades := by
  rw [buyVolumePct_eq num.exact windowStart hne hsound] at h
  split_ifs at h with hzero
  obtain rfl := Option.some.inj h
  have hsum : (trades.map (sideVolume "buy")).sum + (trades.map (sideVolume "sell")).sum =
      (trades.map volume).sum := by
    rw [← List.sum_map_add]
    exact congrArg List.sum (List.map_congr_left fun t ht => sideVolume_add (hsound t ht))
  show 100 - (trades.map (sideVolume "buy")).sum * 100 / (trades.map volume).sum = sellVolumePct trades
  rw [sellVolumePct, eq_div_iff hzero, sub_mul, div_mul_cancel₀ _ hzero, ← hsum]
  ring

/-- **The aggregates of a minute are in range.** -/
theorem window_aggregates_in_range {minute : Instant} (hdiv : num.RoundsQuotients) (hne : trades ≠ [])
    (hminute : ∀ t ∈ trades, window t = some minute) (hsound : ∀ t ∈ trades, Sound t) :
    ∃ v r e, vwap1min num trades = [v] ∧ tradeStats1min num trades = [r] ∧
      tradeStats1min num.exact trades = [e] ∧ VwapInRange trades v ∧ PctInRange trades r ∧
      ∀ pct, e.buyVolumePct = some pct → 100 - pct = sellVolumePct trades :=
  ⟨_, _, _, Grouping.groupBy_eq_singleton hne hminute, Grouping.groupBy_eq_singleton hne hminute,
    Grouping.groupBy_eq_singleton hne hminute, vwapInRange_vwapRow _ hdiv hne hsound,
    pctInRange_statsRow _ hdiv hne hsound, fun _ hpct => sub_buyVolumePct_exact hne hsound hpct⟩

/-- Sixteen digits, as `numeric` chooses for small quotients. -/
def sixteenDigits : Numerics where
  div x y := round (x / y * 10 ^ 16) / 10 ^ 16
  stddev prices := if prices.length < 2 then none else some 0

/-- A buy and a sell in one minute. -/
def twoSides : List SilverTrade :=
  [⟨"1", some 1, some 1, some "buy", some 0, 0⟩, ⟨"2", some 2, some 2, some "sell", some 1, 0⟩]

theorem window_aggregates_in_range_twoSides :
    ∃ v r e, vwap1min sixteenDigits twoSides = [v] ∧ tradeStats1min sixteenDigits twoSides = [r] ∧
      tradeStats1min sixteenDigits.exact twoSides = [e] ∧ VwapInRange twoSides v ∧ PctInRange twoSides r ∧
      ∀ pct, e.buyVolumePct = some pct → 100 - pct = sellVolumePct twoSides := by
  have hdiv : sixteenDigits.RoundsQuotients := fun x y _ => ⟨16, le_rfl, Rounding.nearest_round 16 (x / y)⟩
  have hbuy : Sound ⟨"1", some 1, some 1, some "buy", some 0, 0⟩ :=
    ⟨⟨1, rfl, by decide +kernel⟩, ⟨1, rfl, by norm_num⟩, Or.inl rfl⟩
  have hsell : Sound ⟨"2", some 2, some 2, some "sell", some 1, 0⟩ :=
    ⟨⟨2, rfl, by decide +kernel⟩, ⟨2, rfl, by norm_num⟩, Or.inr rfl⟩
  have hsound : ∀ t ∈ twoSides, Sound t :=
    List.forall_mem_cons.mpr ⟨hbuy, List.forall_mem_singleton.mpr hsell⟩
  have hminute : ∀ t ∈ twoSides, window t = some 0 := by decide
  exact window_aggregates_in_range hdiv (List.cons_ne_nil _ _) hminute hsound

end Window

section Runs

variable {num : Numerics}

/-- The row aggregates some sound trades, which need not be all of its window. -/
def Aggregates (num : Numerics) (row : VwapRow) : Prop :=
  ∃ k trades, trades ≠ [] ∧ (∀ t ∈ trades, Sound t) ∧ row = vwapRow num k trades

/-- The invariant of the incremental runs. -/
def Aggregated (num : Numerics) (s : State) : Prop :=
  (∀ t ∈ s.silver, Sound t) ∧ ∀ table, s.vwap = some table → ∀ row ∈ table, Aggregates num row

theorem aggregates_vwap1min {base : List SilverTrade} (hsound : ∀ t ∈ base, Sound t) {row : VwapRow}
    (hrow : row ∈ vwap1min num base) : Aggregates num row := by
  obtain ⟨k, hk, rfl⟩ := Grouping.mem_groupBy.mp hrow
  exact ⟨k, _, Grouping.group_ne_nil.mpr hk, fun t ht => hsound t (Grouping.mem_group.mp ht).1, rfl⟩

theorem aggregated_step {s t : State} {added : List SilverTrade} (hs : Aggregated num s)
    (hadded : ∀ t ∈ added, Sound t) (h : step num s added = some t) : Aggregated num t := by
  obtain rfl := Option.some.inj h
  have hsilver : ∀ t ∈ s.silver ++ added, Sound t := List.forall_mem_append.mpr ⟨hs.1, hadded⟩
  refine ⟨hsilver, ?_⟩
  rintro _ hsome row hrow
  obtain rfl := Option.some.inj hsome
  cases hvwap : s.vwap with
  | none =>
      rw [hvwap] at hrow
      exact aggregates_vwap1min hsilver hrow
  | some table =>
      rw [hvwap, runVwap1min, KeyedTable.mem_replaceByKey] at hrow
      rcases hrow with ⟨hold, -⟩ | hnew
      · exact hs.2 table hvwap row hold
      · exact aggregates_vwap1min (fun t ht => hsilver t (List.mem_of_mem_filter ht)) hnew

theorem vwapBounds_eq_nil {table : List VwapRow} (hdiv : num.RoundsQuotients)
    (h : ∀ row ∈ table, Aggregates num row) : vwapBounds table = [] := by
  rw [vwapBounds, List.filter_eq_nil_iff]
  intro row hrow
  obtain ⟨k, trades, hne, hsound, rfl⟩ := h row hrow
  have hrange := (vwapInRange_vwapRow k hdiv hne hsound).range
  cases hx : (vwapRow num k trades).vwap with
  | none => cases (vwapRow num k trades).lowPrice <;> simp [vwapBounds.less]
  | some x =>
      obtain ⟨low, high, hlow, hhigh, hle, hge⟩ := hrange x hx
      simp [hlow, hhigh, vwapBounds.less, hle, hge]

/-- `vwap_bounds` fails on no table that runs of the incremental model over sound trades build, although
such a table need not be the aggregation of silver. -/
theorem vwapBounds_run (hdiv : num.RoundsQuotients) {schedule : List (List SilverTrade)}
    (hsound : ∀ added ∈ schedule, ∀ t ∈ added, Sound t) {s : State}
    (h : Runs.run (step num) init schedule = some s) {table : List VwapRow} (htable : s.vwap = some table) :
    vwapBounds table = [] := by
  have hinit : Aggregated num init :=
    ⟨fun t ht => absurd ht List.not_mem_nil, fun table hnone => by cases hnone⟩
  have hmeets := (Runs.meets_label (P := fun added => ∀ t ∈ added, Sound t) h).mpr hsound
  have hs := Runs.invariant_of_meets (I := Aggregated num)
    (fun s added t hs hadded hstep => aggregated_step hs hadded hstep) hinit hmeets h
  exact vwapBounds_eq_nil hdiv (hs.2 table htable)

end Runs

end Gold

end CryptoLakehouse
