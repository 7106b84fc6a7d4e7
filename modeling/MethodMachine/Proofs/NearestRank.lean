/-
# Percentiles by nearest rank

By nearest rank, the percentile `pct` of `n` sorted values is the one at the one-based position
`max 1 ⌈pct · n / 100⌉` (`nearestRank`).  Computed in doubles, the ceiling is taken of a number near
to `pct · n / 100`: the double nearest to `pct / 100` is multiplied by `n`, and the product rounded
again (`computedRank`).

| `pct · n / 100` | the ceiling |
| --- | --- |
| no integer | is right: an integer is a hundredth away, and the two roundings make less |
| an integer, and the computed number is not above it | is right |
| an integer, and the computed number is above it | is one too large |

The last line holds exactly if `n` times the excess of the double over `pct / 100` is more than half
of the last place of the integer (`Overshoots`).  For twelve of the percentages from 0 to 100 only is
the excess ever large enough (`Overshoots.mem`), and 99 is none of them.
-/

import MethodMachine.CommandLine.Statistics
import MethodMachine.Proofs.RoundedValues

namespace MethodMachine

namespace Statistics

open Floating (Represents)
open Format (covers_double lastPlace_double_le)

variable {pct n : ℕ}

/-- The one-based position of a percentile of `n` sorted values by nearest rank. -/
def nearestRank (pct n : ℕ) : ℕ := max 1 ⌈(pct * n / 100 : ℚ)⌉₊

/-- The double nearest to a percentage of one. -/
def fraction (pct : ℕ) : ℚ := Format.double.rounded (pct / 100)

/-- The double of which the ceiling is taken. -/
def computedRank (pct n : ℕ) : ℚ := Format.double.rounded (fraction pct * n)

/-- The exact rank is an integer, and the excess of the fraction, `n` times, is more than half of
the last place of that integer as a double. -/
def Overshoots (pct n : ℕ) : Prop :=
  100 ∣ pct * n ∧ (2 ^ (pct * n / 100).log2 / 2 ^ 53 : ℚ) < n * (fraction pct - pct / 100)

instance (pct n : ℕ) : Decidable (Overshoots pct n) := inferInstanceAs (Decidable (_ ∧ _))

/-! ### What is computed -/

/-- Integers below `2 ^ 53` are doubles. -/
theorem represents_real (hn : n < 2 ^ 53) : Represents (real n) n := by
  have hlt : (n : ℚ) < 2 ^ 53 := by exact_mod_cast hn
  have hexact : Format.double.rounded n = n := by
    rcases Nat.eq_zero_or_pos n with rfl | hpos
    · exact_mod_cast Format.rounded_zero _
    · have hplace : Format.double.lastPlace n ≤ 0 :=
        lastPlace_double_le (by exact_mod_cast hpos) (by decide) (by exact_mod_cast hn)
      exact Format.rounded_natCast hplace
  have hrepresents := @Floating.represents_ofInt .double (by decide) n
    (covers_double n.cast_nonneg hlt)
  rwa [hexact] at hrepresents

/-- Zero percent is computed exactly. -/
theorem fraction_zero : fraction 0 = 0 := by
  simp [fraction, Format.rounded_zero]

/-- A computed fraction is not negative. -/
theorem fraction_nonneg (pct : ℕ) : 0 ≤ fraction pct := Format.rounded_nonneg _ _

/-- No more than a hundred percent is no more than one. -/
theorem percentage_le_one (hpct : pct ≤ 100) : (pct / 100 : ℚ) ≤ 1 := by
  rw [div_le_one (by norm_num)]
  exact_mod_cast hpct

/-- The last place of a percentage is that of the numbers up to one. -/
theorem lastPlace_percentage_le (hpos : 0 < pct) (hpct : pct ≤ 100) :
    Format.double.lastPlace (pct / 100) ≤ -52 := by
  refine lastPlace_double_le (by positivity) (by decide) ?_
  exact (percentage_le_one hpct).trans_lt (by norm_num)

/-- The fraction is off by at most half of the last place of the doubles around one. -/
theorem abs_fraction_sub_le (hpct : pct ≤ 100) : |fraction pct - pct / 100| ≤ 2 ^ (-53 : ℤ) := by
  rcases Nat.eq_zero_or_pos pct with rfl | hpos
  · simp [fraction_zero]
  · have hplace := lastPlace_percentage_le hpos hpct
    exact (Format.abs_rounded_sub_le (by positivity) hplace).trans_eq (by norm_num)

/-- Rounding does not take a fraction above one. -/
theorem fraction_le_one (hpct : pct ≤ 100) : fraction pct ≤ 1 := by
  rcases Nat.eq_zero_or_pos pct with rfl | hpos
  · simp [fraction_zero]
  · have hplace := lastPlace_percentage_le hpos hpct
    have hle : (pct / 100 : ℚ) ≤ (1 : ℕ) := by exact_mod_cast percentage_le_one hpct
    exact_mod_cast Format.rounded_le_natCast (by positivity) (by omega) hle

/-- Nor does it take one to zero. -/
theorem fraction_pos (hpos : 0 < pct) (hpct : pct ≤ 100) : 0 < fraction pct := by
  have hclose := abs_le.1 (abs_fraction_sub_le hpct)
  have hhundredth : (1 / 100 : ℚ) ≤ pct / 100 := by
    gcongr
    exact_mod_cast hpos
  have hsmall : (2 : ℚ) ^ (-53 : ℤ) < 1 / 100 := by norm_num
  linarith

/-- The exact product that is rounded to the rank is positive. -/
theorem fraction_mul_pos (hpos : 0 < pct * n) (hpct : pct ≤ 100) : 0 < fraction pct * n :=
  mul_pos (fraction_pos (Nat.pos_of_mul_pos_right hpos) hpct)
    (Nat.cast_pos.2 (Nat.pos_of_mul_pos_left hpos))

/-- It is at most the number of times. -/
theorem fraction_mul_le (hpct : pct ≤ 100) (n : ℕ) : fraction pct * n ≤ n := by
  calc fraction pct * n ≤ 1 * n := by
        gcongr
        exact fraction_le_one hpct
    _ = n := one_mul _

/-- Below `2 ^ 32` times, the last place of the product is far below one. -/
theorem lastPlace_product_le (hpos : 0 < fraction pct * n) (hpct : pct ≤ 100) (hn : n < 2 ^ 32) :
    Format.double.lastPlace (fraction pct * n) ≤ -21 := by
  refine lastPlace_double_le hpos (by decide) ?_
  calc fraction pct * n ≤ n := fraction_mul_le hpct n
    _ < 2 ^ 32 := by exact_mod_cast hn
    _ = 2 ^ (-21 + 53 : ℤ) := by norm_num

/-- Of no times, or at zero percent, the rank is zero. -/
theorem computedRank_of_mul_eq_zero (h : pct * n = 0) : computedRank pct n = 0 := by
  have hproduct : fraction pct * n = 0 := by
    rcases Nat.mul_eq_zero.1 h with rfl | rfl
    · rw [fraction_zero, zero_mul]
    · rw [Nat.cast_zero, mul_zero]
  rw [computedRank, hproduct, Format.rounded_zero]

/-- A computed rank is not negative. -/
theorem computedRank_nonneg (pct n : ℕ) : 0 ≤ computedRank pct n := Format.rounded_nonneg _ _

/-- It is at most the number of times. -/
theorem computedRank_le (hpct : pct ≤ 100) (hn : n < 2 ^ 32) : computedRank pct n ≤ n := by
  rcases (mul_nonneg (fraction_nonneg pct) n.cast_nonneg).eq_or_lt with hzero | hpos
  · rw [computedRank, ← hzero, Format.rounded_zero]
    exact n.cast_nonneg
  · have hplace := lastPlace_product_le hpos hpct hn
    exact Format.rounded_le_natCast hpos.le (by omega) (fraction_mul_le hpct n)

/-- So is the position that it is rounded up to. -/
theorem ceil_computedRank_le (hpct : pct ≤ 100) (hn : n < 2 ^ 32) : ⌈computedRank pct n⌉₊ ≤ n :=
  Nat.ceil_le.2 (computedRank_le hpct hn)

/-- **The two roundings make less than a hundredth.** -/
theorem abs_computedRank_sub_lt (hpos : 0 < pct * n) (hpct : pct ≤ 100) (hn : n < 2 ^ 32) :
    |computedRank pct n - pct * n / 100| < 1 / 100 := by
  have hn' : (0 : ℚ) < n := Nat.cast_pos.2 (Nat.pos_of_mul_pos_left hpos)
  have hproduct := fraction_mul_pos hpos hpct
  have hfirst : |fraction pct * n - pct * n / 100| ≤ 2 ^ (-21 : ℤ) := by
    have hlt : (n : ℚ) ≤ 2 ^ (32 : ℤ) := by exact_mod_cast hn.le
    calc |fraction pct * n - pct * n / 100| = |fraction pct - pct / 100| * n := by
          rw [← abs_of_pos hn', ← abs_mul, abs_of_pos hn']
          congr 1
          ring
      _ ≤ 2 ^ (-53 : ℤ) * 2 ^ (32 : ℤ) := by
          gcongr
          exact abs_fraction_sub_le hpct
      _ = 2 ^ (-21 : ℤ) := by rw [← zpow_add₀ two_ne_zero]; norm_num
  have hsecond : |computedRank pct n - fraction pct * n| ≤ 2 ^ (-21 - 1 : ℤ) :=
    Format.abs_rounded_sub_le hproduct.le (lastPlace_product_le hproduct hpct hn)
  calc |computedRank pct n - pct * n / 100|
      ≤ |computedRank pct n - fraction pct * n| + |fraction pct * n - pct * n / 100| :=
        abs_sub_le _ _ _
    _ ≤ 2 ^ (-21 - 1 : ℤ) + 2 ^ (-21 : ℤ) := add_le_add hsecond hfirst
    _ < 1 / 100 := by norm_num

/-- The number of which the ceiling is taken stands for the computed rank. -/
theorem represents_computedRank (hpct : pct ≤ 100) (hn : n < 2 ^ 32) :
    Represents (real pct / real 100 * real n) (computedRank pct n) := by
  have hhundred : Represents (real 100) 100 := by
    exact_mod_cast represents_real (n := 100) (by norm_num)
  have hpercentage : (pct / 100 : ℚ) < 2 ^ 53 := (percentage_le_one hpct).trans_lt (by norm_num)
  have hproduct : fraction pct * n < 2 ^ 53 := by
    refine (fraction_mul_le hpct n).trans_lt ?_
    have hlt : n < 2 ^ 53 := by omega
    exact_mod_cast hlt
  have hquotient : Represents (real pct / real 100) (fraction pct) :=
    (represents_real (by omega)).div (by decide) hhundred (by norm_num)
      (covers_double (by positivity) hpercentage)
  exact hquotient.mul (by decide) (represents_real (by omega))
    (covers_double (mul_nonneg (fraction_nonneg pct) n.cast_nonneg) hproduct)

/-- The percentile is the value at the ceiling of the computed rank, counted from one, and at least
the first. -/
theorem getElem?_percentile {sorted : Array Double} (hne : 0 < sorted.size)
    (hsize : sorted.size < 2 ^ 32) (hpct : pct ≤ 100) :
    sorted[⌈computedRank pct sorted.size⌉₊ - 1]? = some (percentile sorted (real pct)) := by
  have hceil := ceil_computedRank_le hpct hsize
  have hclamp : Floating.clamp 0 (UInt64.size - 1) ⌈computedRank pct sorted.size⌉ =
      (⌈computedRank pct sorted.size⌉₊ : ℤ) := by
    have hmax : (⌈computedRank pct sorted.size⌉₊ : ℤ) ≤ UInt64.size - 1 := by
      have hwidth : UInt64.size = 2 ^ 64 := rfl
      omega
    rw [← Int.natCast_ceil_eq_ceil (computedRank_nonneg pct _), Floating.clamp, min_eq_right hmax,
      max_eq_right (by omega)]
  have hlt : ⌈computedRank pct sorted.size⌉₊ - 1 < sorted.size := by omega
  rw [percentile, (represents_computedRank hpct hsize).ceiling, hclamp]
  simp only [Int.toNat_natCast]
  rw [min_eq_left (by omega), Array.getD_eq_getD_getElem?, Array.getElem?_eq_getElem hlt,
    Option.getD_some]

/-! ### When the ceiling is right -/

/-- Where the exact rank is an integer, overshooting is what it says: the computed rank lies above
it. -/
theorem overshoots_iff {k : ℕ} (hk : pct * n = 100 * k) (hpos : 0 < pct * n) (hpct : pct ≤ 100)
    (hn : n < 2 ^ 32) : Overshoots pct n ↔ (k : ℚ) < computedRank pct n := by
  have hkpos : 0 < k := by omega
  have hklt : k < 2 ^ 52 := by
    have hle : pct * n ≤ 100 * n := Nat.mul_le_mul_right n hpct
    omega
  have hproduct := fraction_mul_pos hpos hpct
  have hexcess : n * (fraction pct - pct / 100) = fraction pct * n - k := by
    have hexact : (pct : ℚ) * n = 100 * k := by exact_mod_cast hk
    linarith
  have hhalf : (2 ^ k.log2 / 2 ^ 53 : ℚ) = 2 ^ (k.log2 - (52 : ℕ) - 1 : ℤ) := by
    rw [zpow_sub₀ two_ne_zero, zpow_sub₀ two_ne_zero, zpow_natCast, zpow_natCast, div_div]
    norm_num
  have hlt := @Format.lt_rounded_iff .double _ _ hkpos hklt (by decide) hproduct
  rw [Overshoots, hk, Nat.mul_div_cancel_left _ (by norm_num), hexcess, hhalf, computedRank, hlt]
  constructor
  · rintro ⟨-, h⟩
    exact lt_sub_iff_add_lt'.1 h
  · intro h
    exact ⟨Dvd.intro _ rfl, lt_sub_iff_add_lt'.2 h⟩

/-- A rank of zero does not overshoot. -/
theorem not_overshoots_of_mul_eq_zero (h : pct * n = 0) : ¬ Overshoots pct n := by
  rintro ⟨-, hlt⟩
  have hexcess : n * (fraction pct - pct / 100) = 0 := by
    rcases Nat.mul_eq_zero.1 h with rfl | rfl
    · simp [fraction_zero]
    · simp
  rw [hexcess] at hlt
  exact absurd hlt (not_lt.2 (by positivity))

/-- An exact rank that is no integer is a hundredth away from the integers around it. -/
theorem ceil_computedRank_of_not_dvd (hdvd : ¬ 100 ∣ pct * n) (hpct : pct ≤ 100)
    (hn : n < 2 ^ 32) : ⌈computedRank pct n⌉₊ = ⌈(pct * n / 100 : ℚ)⌉₊ := by
  have hpos : 0 < pct * n := Nat.pos_of_ne_zero fun hzero => hdvd (hzero ▸ dvd_zero 100)
  have hclose := abs_lt.1 (abs_computedRank_sub_lt hpos hpct hn)
  have hsplit : (pct * n : ℚ) = 100 * (pct * n / 100 : ℕ) + (pct * n % 100 : ℕ) := by
    exact_mod_cast (Nat.div_add_mod (pct * n) 100).symm
  have hlow : (1 : ℚ) ≤ (pct * n % 100 : ℕ) := by
    have hle : 1 ≤ pct * n % 100 := by omega
    exact_mod_cast hle
  have hhigh : ((pct * n % 100 : ℕ) : ℚ) ≤ 99 := by
    have hle : pct * n % 100 ≤ 99 := by omega
    exact_mod_cast hle
  have hceil {q : ℚ} (h : |q - pct * n / 100| < 1 / 100) : ⌈q⌉₊ = pct * n / 100 + 1 := by
    obtain ⟨hbelow, habove⟩ := abs_lt.1 h
    rw [Nat.ceil_eq_iff (by omega), Nat.add_sub_cancel]
    push_cast
    constructor <;> linarith
  rw [hceil (abs_lt.2 hclose), hceil (by simp)]

/-- An exact rank that is an integer is its own ceiling, and the next one is that of what lies
above. -/
theorem ceil_computedRank_of_dvd (hpos : 0 < pct * n) (hdvd : 100 ∣ pct * n) (hpct : pct ≤ 100)
    (hn : n < 2 ^ 32) :
    ⌈computedRank pct n⌉₊ = ⌈(pct * n / 100 : ℚ)⌉₊ + if Overshoots pct n then 1 else 0 := by
  obtain ⟨k, hk⟩ := hdvd
  have hover := overshoots_iff hk hpos hpct hn
  have hexact : (pct * n / 100 : ℚ) = k := by
    have hcast : (pct * n : ℚ) = 100 * k := by exact_mod_cast hk
    linarith
  have hclose := abs_lt.1 (abs_computedRank_sub_lt hpos hpct hn)
  rw [hexact] at hclose ⊢
  rw [Nat.ceil_natCast]
  split_ifs with h
  · rw [Nat.ceil_eq_iff (by omega), Nat.add_sub_cancel]
    push_cast
    exact ⟨hover.1 h, by linarith⟩
  · rw [add_zero, Nat.ceil_eq_iff (by omega), Nat.cast_pred (by omega)]
    exact ⟨by linarith, not_lt.1 (mt hover.2 h)⟩

/-- **The ceiling of the computed rank** is that of the exact rank, or one more where it
overshoots. -/
theorem ceil_computedRank (hpct : pct ≤ 100) (hn : n < 2 ^ 32) :
    ⌈computedRank pct n⌉₊ = ⌈(pct * n / 100 : ℚ)⌉₊ + if Overshoots pct n then 1 else 0 := by
  by_cases hdvd : 100 ∣ pct * n
  · rcases Nat.eq_zero_or_pos (pct * n) with hzero | hpos
    · have hexact : (pct : ℚ) * n = 0 := by exact_mod_cast hzero
      rw [if_neg (not_overshoots_of_mul_eq_zero hzero), computedRank_of_mul_eq_zero hzero, hexact,
        zero_div, add_zero]
    · exact ceil_computedRank_of_dvd hpos hdvd hpct hn
  · rw [if_neg fun h => hdvd h.1, add_zero, ceil_computedRank_of_not_dvd hdvd hpct hn]

/-- The first position is the least, of the exact rank and of the computed one. -/
theorem nearestRank_add (hpct : pct ≤ 100) (hn : n < 2 ^ 32) :
    (nearestRank pct n + if Overshoots pct n then 1 else 0) = max 1 ⌈computedRank pct n⌉₊ := by
  rw [ceil_computedRank hpct hn, nearestRank]
  split_ifs with h
  · have hpos : 0 < pct * n := Nat.pos_of_ne_zero fun hzero =>
      not_overshoots_of_mul_eq_zero hzero h
    have hexact : (0 : ℚ) < pct * n := by exact_mod_cast hpos
    have hceil : 0 < ⌈(pct * n / 100 : ℚ)⌉₊ := Nat.ceil_pos.2 (by positivity)
    omega
  · rw [add_zero, add_zero]

/-! ### Which percentages overshoot -/

/-- An integer is less than twice the power of two below it, so whatever `n` is, overshooting needs
an excess of some size. -/
theorem Overshoots.lt_excess (h : Overshoots pct n) :
    (pct / 100 / 2 ^ 54 : ℚ) < fraction pct - pct / 100 := by
  obtain ⟨⟨k, hk⟩, hlt⟩ := h
  rw [hk, Nat.mul_div_cancel_left _ (by norm_num)] at hlt
  have hexact : (pct : ℚ) * n = 100 * k := by exact_mod_cast hk
  have hbinade : (k : ℚ) < 2 ^ (k.log2 + 1) := by exact_mod_cast Nat.lt_log2_self
  have hscaled : (n : ℚ) * (pct / 100 / 2 ^ 54) < n * (fraction pct - pct / 100) := by
    calc (n : ℚ) * (pct / 100 / 2 ^ 54) = k / 2 ^ 54 := by
          rw [div_div, ← mul_div_assoc, mul_comm (n : ℚ), hexact,
            mul_div_mul_left _ _ (by norm_num)]
      _ ≤ 2 ^ (k.log2 + 1) / 2 ^ 54 := by gcongr
      _ = 2 ^ k.log2 / 2 ^ 53 := by
          rw [pow_succ, pow_succ _ 53, mul_div_mul_right _ _ two_ne_zero]
      _ < n * (fraction pct - pct / 100) := hlt
  exact lt_of_mul_lt_mul_left hscaled n.cast_nonneg

/-- A rank overshoots only at twelve of the percentages. -/
theorem Overshoots.mem (h : Overshoots pct n) (hpct : pct ≤ 100) :
    pct ∈ [7, 14, 17, 27, 28, 34, 54, 55, 56, 67, 68, 81] := by
  have htable : ∀ p : ℕ, p < 101 → (p / 100 / 2 ^ 54 : ℚ) < fraction p - p / 100 →
      p ∈ [7, 14, 17, 27, 28, 34, 54, 55, 56, 67, 68, 81] := by
    decide +kernel
  exact htable pct (by omega) h.lt_excess

/-- **A percentile is taken by nearest rank, or one position later.**  The later position is taken
exactly if the exact rank `pct · n / 100` is an integer `k`, and `n` times the excess of the double
nearest to `pct / 100` is more than half of the last place of `k`, which can be the case for twelve
percentages only. -/
theorem percentile_is_at_nearest_rank_or_next (sorted : Array Double) (pct : ℕ)
    (hne : 0 < sorted.size) (hsize : sorted.size < 2 ^ 32) (hpct : pct ≤ 100) :
    let position := nearestRank pct sorted.size + if Overshoots pct sorted.size then 1 else 0
    1 ≤ position ∧ position ≤ sorted.size ∧
      sorted[position - 1]? = some (percentile sorted (real pct)) ∧
      (Overshoots pct sorted.size → pct ∈ [7, 14, 17, 27, 28, 34, 54, 55, 56, 67, 68, 81]) := by
  intro position
  have hposition : position = max 1 ⌈computedRank pct sorted.size⌉₊ := nearestRank_add hpct hsize
  have hceil := ceil_computedRank_le hpct hsize
  have hindex : position - 1 = ⌈computedRank pct sorted.size⌉₊ - 1 := by omega
  refine ⟨by omega, by omega, ?_, fun h => h.mem hpct⟩
  rw [hindex]
  exact getElem?_percentile hne hsize hpct

/-- The eighth of the numbers from 1 to 25 is taken for the percentile 28, since `28 / 100` is
rounded up. -/
theorem percentile_takes_eighth_of_twenty_five :
    let sorted := (Array.range 25).map fun i : ℕ => real (i + 1)
    0 < sorted.size ∧ sorted.size < 2 ^ 32 ∧ Overshoots 28 sorted.size ∧
      sorted[7]? = some (percentile sorted (real 28)) := by
  intro sorted
  have hsize : 0 < sorted.size ∧ sorted.size < 2 ^ 32 := by decide +kernel
  have hover : Overshoots 28 sorted.size := by decide +kernel
  have hrank : nearestRank 28 sorted.size = 7 := by decide +kernel
  have hposition := percentile_is_at_nearest_rank_or_next sorted 28 hsize.1 hsize.2 (by decide)
  simp only [hrank, if_pos hover] at hposition
  exact ⟨hsize.1, hsize.2, hover, hposition.2.2.1⟩

/-- **A percentile can be one position late.**  By nearest rank, the percentile 28 of the numbers
from 1 to 25 is the seventh of them. -/
theorem percentile_of_twenty_five_is_late :
    let sorted := (Array.range 25).map fun i : ℕ => real (i + 1)
    sorted.toList.Pairwise (fun x y => x.key < y.key) ∧ nearestRank 28 sorted.size = 7 ∧
      sorted[7 - 1]? = some (real 7) ∧ percentile sorted (real 28) = real 8 ∧ real 8 ≠ real 7 := by
  decide +kernel

end Statistics

end MethodMachine
