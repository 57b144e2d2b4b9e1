import Mathlib.Algebra.BigOperators.Ring.List
import Mathlib.Algebra.Order.BigOperators.Group.List
import Mathlib.Algebra.Order.Round
import Mathlib.Tactic.Linarith
import Mathlib.Tactic.Positivity
import Mathlib.Tactic.Ring

/-! Rounding to a nearest value of a set, and weighted means. A mean lies between two bounds when its values
do, and rounding it to a set that has the bounds does not step over them. -/

namespace Rounding

/-- The numbers with so many decimal digits behind the point. -/
def decimals (K : Type*) [Field K] (scale : Nat) : Set K := {x | ∃ n : ℤ, x * 10 ^ scale = n}

section Decimals

variable {K : Type*} [Field K]

theorem decimals_mono {scale scale' : Nat} (h : scale ≤ scale') : decimals K scale ⊆ decimals K scale' := by
  rintro x ⟨n, hn⟩
  refine ⟨n * 10 ^ (scale' - scale), ?_⟩
  calc x * 10 ^ scale' = x * (10 ^ scale * 10 ^ (scale' - scale)) := by rw [← pow_add, Nat.add_sub_cancel' h]
    _ = x * 10 ^ scale * 10 ^ (scale' - scale) := (mul_assoc _ _ _).symm
    _ = ((n * 10 ^ (scale' - scale) : ℤ) : K) := by rw [hn, Int.cast_mul, Int.cast_pow, Int.cast_ofNat]

theorem natCast_mem_decimals (n scale : Nat) : (n : K) ∈ decimals K scale :=
  ⟨n * 10 ^ scale, by push_cast; rfl⟩

end Decimals

variable {K : Type*} [Field K] [LinearOrder K] [IsStrictOrderedRing K]

/-- A value of the set than which no other is nearer; ties go either way. -/
structure Nearest (S : Set K) (x y : K) : Prop where
  mem : y ∈ S
  nearest : ∀ z ∈ S, |x - y| ≤ |x - z|

section Bounds

variable {S : Set K} {x y b : K}

theorem Nearest.le_of_le (h : Nearest S x y) (hb : b ∈ S) (hx : x ≤ b) : y ≤ b := by
  by_contra hlt
  have hby : b < y := not_le.mp hlt
  have hfar : |x - b| < |x - y| := by
    calc |x - b| = b - x := by rw [abs_sub_comm, abs_of_nonneg (sub_nonneg.mpr hx)]
      _ < y - x := sub_lt_sub_right hby x
      _ = |x - y| := by rw [abs_sub_comm, abs_of_nonneg (sub_nonneg.mpr (hx.trans hby.le))]
  exact absurd (h.nearest b hb) (not_le.mpr hfar)

theorem Nearest.ge_of_ge (h : Nearest S x y) (hb : b ∈ S) (hx : b ≤ x) : b ≤ y := by
  by_contra hlt
  have hyb : y < b := not_le.mp hlt
  have hfar : |x - b| < |x - y| := by
    calc |x - b| = x - b := abs_of_nonneg (sub_nonneg.mpr hx)
      _ < x - y := sub_lt_sub_left hyb x
      _ = |x - y| := (abs_of_nonneg (sub_nonneg.mpr (hyb.le.trans hx))).symm
  exact absurd (h.nearest b hb) (not_le.mpr hfar)

end Bounds

/-- Rounding the scaled number to an integer gives a nearest decimal. -/
theorem nearest_round [FloorRing K] (scale : Nat) (x : K) :
    Nearest (decimals K scale) x (round (x * 10 ^ scale) / 10 ^ scale) := by
  have hpos : (0 : K) < 10 ^ scale := by positivity
  have hscaled : ∀ z : K, |x - z| * 10 ^ scale = |x * 10 ^ scale - z * 10 ^ scale| := by
    intro z
    rw [← sub_mul, abs_mul, abs_of_pos hpos]
  refine ⟨⟨round (x * 10 ^ scale), div_mul_cancel₀ _ hpos.ne'⟩, ?_⟩
  rintro z ⟨n, hn⟩
  refine le_of_mul_le_mul_right ?_ hpos
  rw [hscaled, hscaled, hn, div_mul_cancel₀ _ hpos.ne']
  exact round_le _ n

section Mean

variable {ι : Type*} {items : List ι} {value weight : ι → K} {b : K}

theorem sum_weight_eq_zero_iff (hweight : ∀ i ∈ items, 0 ≤ weight i) :
    (items.map weight).sum = 0 ↔ ∀ i ∈ items, weight i = 0 := by
  constructor
  · intro hsum i hi
    exact List.all_zero_of_le_zero_le_of_sum_eq_zero (List.forall_mem_map.mpr hweight) hsum
      (List.mem_map_of_mem hi)
  · intro hzero
    exact List.sum_eq_zero (List.forall_mem_map.mpr hzero)

theorem sum_weight_pos (hweight : ∀ i ∈ items, 0 ≤ weight i) (hsum : (items.map weight).sum ≠ 0) :
    0 < (items.map weight).sum :=
  lt_of_le_of_ne (List.sum_nonneg (List.forall_mem_map.mpr hweight)) (Ne.symm hsum)

/-- The mean of the values with their weights. -/
def mean (items : List ι) (value weight : ι → K) : K :=
  (items.map fun i => value i * weight i).sum / (items.map weight).sum

theorem mean_le (hweight : ∀ i ∈ items, 0 ≤ weight i) (hsum : (items.map weight).sum ≠ 0)
    (hvalue : ∀ i ∈ items, value i ≤ b) : mean items value weight ≤ b := by
  apply (div_le_iff₀ (sum_weight_pos hweight hsum)).mpr
  calc (items.map fun i => value i * weight i).sum ≤ (items.map fun i => b * weight i).sum :=
        List.sum_le_sum fun i hi => mul_le_mul_of_nonneg_right (hvalue i hi) (hweight i hi)
    _ = b * (items.map weight).sum := List.sum_map_mul_left _ _ _

theorem le_mean (hweight : ∀ i ∈ items, 0 ≤ weight i) (hsum : (items.map weight).sum ≠ 0)
    (hvalue : ∀ i ∈ items, b ≤ value i) : b ≤ mean items value weight := by
  apply (le_div_iff₀ (sum_weight_pos hweight hsum)).mpr
  calc b * (items.map weight).sum = (items.map fun i => b * weight i).sum := (List.sum_map_mul_left _ _ _).symm
    _ ≤ (items.map fun i => value i * weight i).sum :=
        List.sum_le_sum fun i hi => mul_le_mul_of_nonneg_right (hvalue i hi) (hweight i hi)

/-- A mean that is rounded to the nearest stays between bounds that the set has. -/
theorem Nearest.mean_between {S : Set K} {low high y : K} (h : Nearest S (mean items value weight) y)
    (hweight : ∀ i ∈ items, 0 ≤ weight i) (hsum : (items.map weight).sum ≠ 0) (hlow : low ∈ S)
    (hhigh : high ∈ S) (hvalue : ∀ i ∈ items, low ≤ value i ∧ value i ≤ high) :
    low ≤ y ∧ y ≤ high :=
  ⟨h.ge_of_ge hlow (le_mean hweight hsum fun i hi => (hvalue i hi).1),
    h.le_of_le hhigh (mean_le hweight hsum fun i hi => (hvalue i hi).2)⟩

end Mean

end Rounding
