/-
# Rounding depends on the value alone

A number is rounded from a quotient of naturals, or from a decimal, and neither is unique: `1 / 2`,
`2 / 4` and `5 · 10⁻¹` are one value.  This module says what rounding makes of the value itself, as
a rational number `q` (`Format.roundedCode`):

| step | on quotients | on values |
| --- | --- | --- |
| the binade | `binade num den` | `Int.log 2 q` |
| the nearest integer | `nearestEven num den` | `roundEven q` |
| the code | `Floating.ofRatio` | `roundedCode q` |

A decimal is compared with the range of the format before its quotient is made, since its exponent
may be of any size.  That does not change the outcome: a decimal that is refused for its size has a
code that is infinity's or zero (`roundedCode_of_top_lt`, `roundedCode_of_lt_top`).

A finite number is the number nearest to its own magnitude (`roundedCode_magnitude`), and so its
shortest decimal, found by trying, reads back whether or not a short one was found
(`roundedCode_shortest`).
-/

import MethodMachine.Decimal.Shortest
import Mathlib.Algebra.Order.Field.Power
import Mathlib.Algebra.Order.Floor.Semifield
import Mathlib.Data.Int.Log
import Mathlib.Data.Rat.Floor
import Mathlib.Tactic.FieldSimp
import Mathlib.Tactic.Linarith
import Mathlib.Tactic.Positivity
import Mathlib.Tactic.Ring

namespace MethodMachine

/-! ### Quotients as rational numbers -/

/-- The natural number nearest to a rational one, a tie to the even one. -/
def roundEven (q : ℚ) : ℕ :=
  if q - ⌊q⌋₊ < 1 / 2 then ⌊q⌋₊
  else if 1 / 2 < q - ⌊q⌋₊ then ⌊q⌋₊ + 1
  else ⌊q⌋₊ + ⌊q⌋₊ % 2

/-- A natural number is its own nearest. -/
theorem roundEven_natCast (n : ℕ) : roundEven n = n := by
  simp [roundEven]

/-- Rounding does not go below a natural number. -/
theorem le_roundEven {n : ℕ} {q : ℚ} (h : (n : ℚ) ≤ q) : n ≤ roundEven q := by
  have hfloor : n ≤ ⌊q⌋₊ := Nat.le_floor h
  unfold roundEven
  split_ifs <;> omega

/-- What is less than a half is rounded to zero. -/
theorem roundEven_of_lt_half {q : ℚ} (hq : q < 1 / 2) : roundEven q = 0 := by
  have hfloor : ⌊q⌋₊ = 0 := Nat.floor_eq_zero.2 (hq.trans (by norm_num))
  rw [roundEven, hfloor, Nat.cast_zero, sub_zero, if_pos hq]

/-- The integer computation rounds the quotient. -/
theorem nearestEven_eq_roundEven (num : ℕ) {den : ℕ} (hden : 0 < den) :
    nearestEven num den = roundEven (num / den) := by
  have hpos : (0 : ℚ) < den := Nat.cast_pos.2 hden
  have hrest : (num / den : ℚ) - (num / den : ℕ) = (num % den : ℕ) / den := by
    have hsplit : (num : ℚ) = den * (num / den : ℕ) + (num % den : ℕ) := by
      exact_mod_cast (Nat.div_add_mod num den).symm
    rw [sub_eq_iff_eq_add, div_add' _ _ _ hpos.ne', div_left_inj' hpos.ne']
    linarith
  have hbelow : ((num % den : ℕ) : ℚ) / den < 1 / 2 ↔ 2 * (num % den) < den := by
    rw [div_lt_iff₀ hpos, ← @Nat.cast_lt ℚ]
    push_cast
    constructor <;> intro h <;> linarith
  have habove : 1 / 2 < ((num % den : ℕ) : ℚ) / den ↔ den < 2 * (num % den) := by
    rw [lt_div_iff₀ hpos, ← @Nat.cast_lt ℚ _ _ _ _ _ den]
    push_cast
    constructor <;> intro h <;> linarith
  rw [nearestEven, roundEven, Nat.floor_div_eq_div, hrest]
  simp only [hbelow, habove]

theorem cast_shiftLeft (m k : ℕ) : ((m <<< k : ℕ) : ℚ) = m * 2 ^ k := by
  rw [Nat.shiftLeft_eq]
  push_cast
  rfl

/-- A power with an exponent of either sign, as a quotient of powers with natural ones. -/
theorem zpow_eq_div (b : ℚ) (hb : b ≠ 0) (e : ℤ) : b ^ e = b ^ e.toNat / b ^ (-e).toNat := by
  rw [← zpow_natCast, ← zpow_natCast, ← zpow_sub₀ hb]
  congr 1
  omega

/-- A quotient is scaled by a power of two of either sign. -/
theorem shiftLeft_div_shiftLeft (num den : ℕ) (e : ℤ) :
    ((num <<< e.toNat : ℕ) : ℚ) / (den <<< (-e).toNat : ℕ) = num / den * 2 ^ e := by
  rw [cast_shiftLeft, cast_shiftLeft, zpow_eq_div 2 two_ne_zero, mul_div_mul_comm]

/-- A number lies between the power of two at its leading bit and the next. -/
theorem log2_bounds {n : ℕ} (hn : 0 < n) :
    (2 : ℚ) ^ (n.log2 : ℤ) ≤ n ∧ (n : ℚ) < 2 ^ (n.log2 + 1 : ℤ) := by
  have hlow : 2 ^ n.log2 ≤ n := Nat.log2_self_le hn.ne'
  have hhigh : n < 2 ^ (n.log2 + 1) := Nat.lt_log2_self
  constructor
  · exact_mod_cast hlow
  · exact_mod_cast hhigh

/-- Which powers of two are at most a number. -/
theorem two_zpow_le_iff {q : ℚ} (hq : 0 < q) {e : ℤ} : 2 ^ e ≤ q ↔ e ≤ Int.log 2 q := by
  exact_mod_cast Int.zpow_le_iff_le_log one_lt_two hq

/-- Which powers of two are greater than a number. -/
theorem lt_two_zpow_iff {q : ℚ} (hq : 0 < q) {e : ℤ} : q < 2 ^ e ↔ Int.log 2 q < e := by
  exact_mod_cast Int.lt_zpow_iff_log_lt one_lt_two hq

/-- The binade of a quotient is the binary logarithm of its value. -/
theorem binade_eq_log {num den : ℕ} (hnum : 0 < num) (hden : 0 < den) :
    binade num den = Int.log 2 (num / den : ℚ) := by
  have hdenpos : (0 : ℚ) < den := Nat.cast_pos.2 hden
  have hq : (0 : ℚ) < num / den := by positivity
  obtain ⟨hnumlow, hnumhigh⟩ := log2_bounds hnum
  obtain ⟨hdenlow, hdenhigh⟩ := log2_bounds hden
  -- the difference of the two logarithms is right or one too large
  set e : ℤ := num.log2 - den.log2 with he
  have hlow : e - 1 ≤ Int.log 2 (num / den : ℚ) := by
    rw [← two_zpow_le_iff hq, le_div_iff₀ hdenpos]
    calc (2 : ℚ) ^ (e - 1) * den ≤ 2 ^ (e - 1) * 2 ^ (den.log2 + 1 : ℤ) := by gcongr
      _ = 2 ^ (num.log2 : ℤ) := by
        rw [← zpow_add₀ two_ne_zero]
        congr 1
        omega
      _ ≤ num := hnumlow
  have hhigh : Int.log 2 (num / den : ℚ) < e + 1 := by
    rw [← lt_two_zpow_iff hq, div_lt_iff₀ hdenpos]
    calc (num : ℚ) < 2 ^ (num.log2 + 1 : ℤ) := hnumhigh
      _ = 2 ^ (e + 1) * 2 ^ (den.log2 : ℤ) := by
        rw [← zpow_add₀ two_ne_zero]
        congr 1
        omega
      _ ≤ 2 ^ (e + 1) * den := by gcongr
  have hcompare : den <<< e.toNat ≤ num <<< (-e).toNat ↔ e ≤ Int.log 2 (num / den : ℚ) := by
    rw [← two_zpow_le_iff hq, zpow_eq_div 2 two_ne_zero, div_le_div_iff₀ (by positivity) hdenpos,
      ← @Nat.cast_le ℚ, cast_shiftLeft, cast_shiftLeft, mul_comm (den : ℚ)]
  unfold binade
  rw [← he]
  by_cases h : den <<< e.toNat ≤ num <<< (-e).toNat
  · have := hcompare.1 h
    simp only [h, if_true]
    omega
  · have := mt hcompare.2 h
    simp only [h, if_false]
    omega

/-! ### Codes -/

namespace Format

variable (fmt : Format)

/-- The code of infinity has all exponent bits set and no fraction bit. -/
theorem infinityCode_eq : fmt.infinityCode = (2 ^ fmt.exponentBits - 1) * 2 ^ fmt.fractionBits := by
  rw [infinityCode, Nat.one_shiftLeft, Nat.shiftLeft_eq]

/-- The exponent of the smallest magnitude, by the numbers of bits. -/
theorem leastExponent_eq :
    fmt.leastExponent = 2 - 2 ^ (fmt.exponentBits - 1) - fmt.fractionBits := by
  rw [leastExponent, Nat.one_shiftLeft]
  push_cast
  rfl

/-- The code of infinity is a code. -/
theorem infinityCode_lt : fmt.infinityCode < 2 ^ fmt.codeBits := by
  rw [infinityCode_eq, codeBits, pow_add]
  exact Nat.mul_lt_mul_of_pos_right (Nat.sub_lt (Nat.two_pow_pos _) one_pos) (Nat.two_pow_pos _)

/-- The code of the number nearest to a magnitude. -/
def roundedCode (q : ℚ) : ℕ :=
  if q = 0 then 0
  else
    let e := max fmt.leastExponent (Int.log 2 q - fmt.fractionBits)
    min fmt.infinityCode ((e - fmt.leastExponent).toNat * 2 ^ fmt.fractionBits +
      roundEven (q * 2 ^ (-e)))

/-- Nothing is rounded past infinity. -/
theorem roundedCode_le (q : ℚ) : fmt.roundedCode q ≤ fmt.infinityCode := by
  unfold roundedCode
  split_ifs
  · exact Nat.zero_le _
  · exact min_le_left _ _

end Format

namespace Floating

variable {fmt : Format}

/-- The bits of a number are its code, with the sign in front. -/
theorem toNat_ofCode (negative : Bool) {code : ℕ} (h : code < 2 ^ fmt.codeBits) :
    (ofCode fmt negative code).bits.toNat = code + if negative then 2 ^ fmt.codeBits else 0 := by
  rw [ofCode, BitVec.toNat_ofNat, Format.width, Nat.one_shiftLeft, Nat.mod_eq_of_lt]
  rw [pow_succ]
  split_ifs <;> omega

/-- The code of a number made from a code is that code. -/
theorem code_ofCode (negative : Bool) {code : ℕ} (h : code < 2 ^ fmt.codeBits) :
    (ofCode fmt negative code).code = code := by
  rw [Floating.code, toNat_ofCode negative h, Nat.one_shiftLeft]
  cases negative with
  | true => simp [Nat.mod_eq_of_lt h]
  | false => simp [Nat.mod_eq_of_lt h]

/-- The sign of a number made with a sign is that sign. -/
theorem negative_ofCode (negative : Bool) {code : ℕ} (h : code < 2 ^ fmt.codeBits) :
    (ofCode fmt negative code).negative = negative := by
  rw [Floating.negative, toNat_ofCode negative h, Nat.one_shiftLeft]
  cases negative with
  | true => simp
  | false => simp [h]

/-- **A quotient is rounded by its value.** -/
theorem ofRatio_eq (negative : Bool) (num : ℕ) {den : ℕ} (hden : 0 < den) :
    ofRatio fmt negative num den = ofCode fmt negative (fmt.roundedCode (num / den)) := by
  unfold ofRatio Format.roundedCode
  by_cases hnum : num = 0
  · simp [hnum, zero]
  · have hq : (num / den : ℚ) ≠ 0 := by positivity
    rw [if_neg hnum, if_neg hq, binade_eq_log (Nat.pos_of_ne_zero hnum) hden]
    set e := max fmt.leastExponent (Int.log 2 (num / den : ℚ) - fmt.fractionBits)
    have hscaled : (0 : ℕ) < den <<< e.toNat := by
      rw [Nat.shiftLeft_eq]
      positivity
    have hvalue := shiftLeft_div_shiftLeft num den (-e)
    rw [neg_neg] at hvalue
    simp only [nearestEven_eq_roundEven _ hscaled, hvalue]
    rw [Nat.shiftLeft_eq]

/-- The magnitude of a finite number. -/
def magnitude (x : Floating fmt) : ℚ := x.significand * 2 ^ x.exponent

/-- The magnitude of a number as the quotient that is computed with. -/
theorem num_div_den (x : Floating fmt) : (x.num : ℚ) / x.den = x.magnitude := by
  rw [num, den, shiftLeft_div_shiftLeft, Nat.cast_one, div_one, magnitude]

/-- The denominator of a magnitude is positive. -/
theorem den_pos (x : Floating fmt) : 0 < x.den := by
  rw [den, Nat.one_shiftLeft]
  exact Nat.two_pow_pos _

/-- The two kinds of finite numbers: a small one has the least exponent, and any other has a
significand with all its bits. -/
theorem fields_cases (x : Floating fmt) :
    (x.code < 2 ^ fmt.fractionBits ∧ x.significand = x.code ∧ x.exponent = fmt.leastExponent) ∨
      (2 ^ fmt.fractionBits ≤ x.code ∧
        x.significand = 2 ^ fmt.fractionBits + x.code % 2 ^ fmt.fractionBits ∧
          x.exponent = fmt.leastExponent + (x.code / 2 ^ fmt.fractionBits - 1 : ℕ)) := by
  rw [significand, exponent, Nat.one_shiftLeft, Nat.shiftRight_eq_div_pow]
  by_cases hsmall : x.code < 2 ^ fmt.fractionBits
  · refine .inl ⟨hsmall, if_pos hsmall, ?_⟩
    rw [Nat.div_eq_of_lt hsmall]
    exact add_zero _
  · exact .inr ⟨not_lt.1 hsmall, if_neg hsmall, rfl⟩

/-- Only the code zero has no significand. -/
theorem significand_eq_zero_iff {x : Floating fmt} : x.significand = 0 ↔ x.code = 0 := by
  have hpos := Nat.two_pow_pos fmt.fractionBits
  rcases x.fields_cases with ⟨-, hsig, -⟩ | ⟨hlarge, hsig, -⟩ <;> omega

/-- Every other code has a positive magnitude. -/
theorem magnitude_pos {x : Floating fmt} (hx : x.code ≠ 0) : 0 < x.magnitude := by
  have hsig : (0 : ℚ) < x.significand := by
    exact_mod_cast Nat.pos_of_ne_zero (mt significand_eq_zero_iff.1 hx)
  unfold magnitude
  positivity

/-- A significand has one bit more than the fraction. -/
theorem significand_lt (x : Floating fmt) : x.significand < 2 ^ (fmt.fractionBits + 1) := by
  have hpos := Nat.two_pow_pos fmt.fractionBits
  have hmod := Nat.mod_lt x.code hpos
  rw [pow_succ]
  rcases x.fields_cases with ⟨hsmall, hsig, -⟩ | ⟨-, hsig, -⟩ <;> omega

/-- No exponent is below the least. -/
theorem leastExponent_le_exponent (x : Floating fmt) : fmt.leastExponent ≤ x.exponent := by
  rcases x.fields_cases with ⟨-, -, he⟩ | ⟨-, -, he⟩ <;> omega

/-- A code counts the significands below it. -/
theorem code_eq (x : Floating fmt) :
    x.code = (x.exponent - fmt.leastExponent).toNat * 2 ^ fmt.fractionBits + x.significand := by
  rcases x.fields_cases with ⟨-, hsig, he⟩ | ⟨hlarge, hsig, he⟩
  · simp [hsig, he]
  · have hfield : 1 ≤ x.code / 2 ^ fmt.fractionBits :=
      (Nat.one_le_div_iff (Nat.two_pow_pos _)).2 hlarge
    have hsplit := Nat.div_add_mod' x.code (2 ^ fmt.fractionBits)
    obtain ⟨k, hk⟩ := Nat.exists_eq_add_of_le' hfield
    rw [hk] at hsplit he
    rw [he, hsig, add_sub_cancel_left, Int.toNat_natCast, Nat.add_sub_cancel]
    linarith

/-- The exponent is the one that rounding takes for the magnitude. -/
theorem max_log_magnitude {x : Floating fmt} (hx : x.code ≠ 0) :
    max fmt.leastExponent (Int.log 2 x.magnitude - fmt.fractionBits) = x.exponent := by
  have hpos := magnitude_pos hx
  have hhigh : Int.log 2 x.magnitude < fmt.fractionBits + 1 + x.exponent := by
    rw [← lt_two_zpow_iff hpos, zpow_add₀ two_ne_zero, magnitude]
    gcongr
    exact_mod_cast x.significand_lt
  have hleast := x.leastExponent_le_exponent
  rcases x.fields_cases with ⟨-, -, he⟩ | ⟨-, hall, -⟩
  · omega
  · have hlow : fmt.fractionBits + x.exponent ≤ Int.log 2 x.magnitude := by
      rw [← two_zpow_le_iff hpos, zpow_add₀ two_ne_zero, magnitude]
      gcongr
      rw [hall]
      push_cast
      exact le_add_of_nonneg_right (by positivity)
    omega

/-- **A finite number is the one nearest to its magnitude.** -/
theorem roundedCode_magnitude {x : Floating fmt} (hx : x.code < fmt.infinityCode) :
    fmt.roundedCode x.magnitude = x.code := by
  by_cases hzero : x.code = 0
  · simp [Format.roundedCode, magnitude, significand_eq_zero_iff.2 hzero, hzero]
  · have hinteger : x.magnitude * 2 ^ (-x.exponent) = x.significand := by
      rw [magnitude, mul_assoc, ← zpow_add₀ two_ne_zero, add_neg_cancel, zpow_zero, mul_one]
    rw [Format.roundedCode, if_neg (magnitude_pos hzero).ne']
    simp only [max_log_magnitude hzero, hinteger, roundEven_natCast]
    rw [← code_eq, min_eq_right hx.le]

end Floating

/-! ### Decimals -/

namespace Decimal

/-- The number that a decimal is. -/
def value (d : Decimal) : ℚ := d.coefficient * 10 ^ d.exponent

/-- The value of a decimal as the quotient that is computed with. -/
theorem num_div_den (d : Decimal) : (d.num : ℚ) / d.den = d.value := by
  rw [num, den, value, zpow_eq_div 10 (by norm_num)]
  push_cast [Nat.pow_eq]
  rw [mul_div_assoc]

/-- A decimal is zero when its coefficient is. -/
theorem value_eq_zero_iff {d : Decimal} : d.value = 0 ↔ d.coefficient = 0 := by
  have hpow : (10 : ℚ) ^ d.exponent ≠ 0 := by positivity
  simp [value, hpow]

/-- A number lies between the power of ten at its leading digit and the next. -/
theorem digitCount_bounds {n : ℕ} (hn : n ≠ 0) :
    (10 : ℚ) ^ (digitCount n - 1 : ℤ) ≤ n ∧ (n : ℚ) < 10 ^ (digitCount n : ℤ) := by
  have hpos : 0 < digitCount n := Nat.length_toDigits_pos
  have hhigh : n < 10 ^ digitCount n := (Nat.length_toDigits_le_iff (by decide) hpos).1 le_rfl
  have hlow : 10 ^ (digitCount n - 1) ≤ n := by
    by_contra hlt
    rcases Nat.eq_zero_or_pos (digitCount n - 1) with hone | hmore
    · rw [hone] at hlt
      omega
    · have := (Nat.length_toDigits_le_iff (by decide) hmore).2 (not_le.1 hlt)
      rw [← digitCount] at this
      omega
  refine ⟨?_, by exact_mod_cast hhigh⟩
  rw [← Nat.cast_pred hpos]
  exact_mod_cast hlow

/-- A positive decimal lies just below the power of ten that its top tells. -/
theorem value_bounds {d : Decimal} (hd : d.coefficient ≠ 0) :
    (10 : ℚ) ^ (d.top - 1) ≤ d.value ∧ d.value < 10 ^ d.top := by
  obtain ⟨hlow, hhigh⟩ := digitCount_bounds hd
  have hten : (10 : ℚ) ≠ 0 := by norm_num
  constructor
  · rw [top, value, add_sub_right_comm, zpow_add₀ hten]
    gcongr
  · rw [top, value, zpow_add₀ hten]
    gcongr

end Decimal

namespace Format

variable {fmt : Format}

/-- Magnitudes beyond the range are rounded to infinity. -/
theorem roundedCode_of_le (hfmt : 0 < fmt.exponentBits) {q : ℚ}
    (hq : 2 ^ (2 ^ (fmt.exponentBits - 1) : ℤ) ≤ q) : fmt.roundedCode q = fmt.infinityCode := by
  have hpos : 0 < q := lt_of_lt_of_le (by positivity) hq
  have hlog := (two_zpow_le_iff hpos).1 hq
  have hleast := fmt.leastExponent_eq
  have hone : (1 : ℤ) ≤ 2 ^ (fmt.exponentBits - 1) := one_le_pow₀ (by norm_num)
  have hexponent : max fmt.leastExponent (Int.log 2 q - fmt.fractionBits) =
      Int.log 2 q - fmt.fractionBits := max_eq_right (by omega)
  have hfield : 2 ^ fmt.exponentBits ≤
      (Int.log 2 q - fmt.fractionBits - fmt.leastExponent).toNat + 2 := by
    have hdouble : (2 : ℤ) ^ fmt.exponentBits = 2 * 2 ^ (fmt.exponentBits - 1) := by
      rw [← pow_succ', Nat.sub_add_cancel hfmt]
    zify
    omega
  have hround : 2 ^ fmt.fractionBits ≤
      roundEven (q * 2 ^ (-(Int.log 2 q - fmt.fractionBits : ℤ))) := by
    apply le_roundEven
    push_cast
    calc (2 : ℚ) ^ fmt.fractionBits
        = 2 ^ Int.log 2 q * 2 ^ (-(Int.log 2 q - fmt.fractionBits : ℤ)) := by
          rw [← zpow_add₀ two_ne_zero, ← zpow_natCast]
          congr 1
          omega
      _ ≤ q * 2 ^ (-(Int.log 2 q - fmt.fractionBits : ℤ)) := by
          gcongr
          exact (two_zpow_le_iff hpos).2 le_rfl
  rw [roundedCode, if_neg hpos.ne']
  simp only [hexponent]
  apply min_eq_left
  rw [infinityCode_eq]
  calc (2 ^ fmt.exponentBits - 1) * 2 ^ fmt.fractionBits
      ≤ ((Int.log 2 q - fmt.fractionBits - fmt.leastExponent).toNat + 1) *
          2 ^ fmt.fractionBits := by
        gcongr
        omega
    _ = (Int.log 2 q - fmt.fractionBits - fmt.leastExponent).toNat * 2 ^ fmt.fractionBits +
          2 ^ fmt.fractionBits := Nat.succ_mul _ _
    _ ≤ _ := Nat.add_le_add_left hround _

/-- Magnitudes below half of the smallest one are rounded to zero. -/
theorem roundedCode_of_lt {q : ℚ} (hpos : 0 < q) (hq : q < 2 ^ (fmt.leastExponent - 1)) :
    fmt.roundedCode q = 0 := by
  have hlog := (lt_two_zpow_iff hpos).1 hq
  have hexponent : max fmt.leastExponent (Int.log 2 q - fmt.fractionBits) = fmt.leastExponent :=
    max_eq_left (by omega)
  have hhalf : q * 2 ^ (-fmt.leastExponent) < 1 / 2 := by
    calc q * 2 ^ (-fmt.leastExponent) < 2 ^ (fmt.leastExponent - 1) * 2 ^ (-fmt.leastExponent) := by
          gcongr
      _ = 2 ^ (-1 : ℤ) := by
          rw [← zpow_add₀ two_ne_zero]
          congr 1
          omega
      _ = 1 / 2 := by norm_num
  rw [roundedCode, if_neg hpos.ne']
  simp only [hexponent, roundEven_of_lt_half hhalf, sub_self, Int.toNat_zero, zero_mul, add_zero,
    Nat.min_zero]

/-- A decimal that is too large by its top is rounded to infinity. -/
theorem roundedCode_of_lt_top (hfmt : 0 < fmt.exponentBits) {d : Decimal} (hd : d.coefficient ≠ 0)
    (htop : 2 ^ (fmt.exponentBits - 1) < d.top) : fmt.roundedCode d.value = fmt.infinityCode := by
  apply roundedCode_of_le hfmt
  calc (2 : ℚ) ^ (2 ^ (fmt.exponentBits - 1) : ℤ) ≤ 10 ^ (2 ^ (fmt.exponentBits - 1) : ℤ) :=
        zpow_le_zpow_left₀ (by positivity) (by norm_num) (by norm_num)
    _ ≤ 10 ^ (d.top - 1) := zpow_le_zpow_right₀ (by norm_num) (by omega)
    _ ≤ d.value := (Decimal.value_bounds hd).1

/-- A decimal that is too small by its top is rounded to zero. -/
theorem roundedCode_of_top_lt {d : Decimal} (hd : d.coefficient ≠ 0)
    (htop : d.top < fmt.leastExponent) : fmt.roundedCode d.value = 0 := by
  obtain ⟨hlow, hhigh⟩ := Decimal.value_bounds hd
  refine roundedCode_of_lt (lt_of_lt_of_le (by positivity) hlow) ?_
  have hone : 1 ≤ 2 ^ (fmt.exponentBits - 1) := Nat.one_le_two_pow
  have hleast : fmt.leastExponent ≤ 1 := by
    rw [leastExponent, Nat.one_shiftLeft]
    omega
  calc d.value < 10 ^ d.top := hhigh
    _ ≤ 10 ^ (fmt.leastExponent - 1) := zpow_le_zpow_right₀ (by norm_num) (by omega)
    _ ≤ 2 ^ (fmt.leastExponent - 1) := by
      -- the exponent is not positive, so the larger base gives the smaller power
      have hpow : (2 : ℚ) ^ (-(fmt.leastExponent - 1)) ≤ 10 ^ (-(fmt.leastExponent - 1)) :=
        zpow_le_zpow_left₀ (by omega) (by norm_num) (by norm_num)
      have hinv := inv_anti₀ (by positivity) hpow
      rwa [← zpow_neg, ← zpow_neg, neg_neg] at hinv

end Format

namespace Floating

variable {fmt : Format}

/-- **A decimal is rounded by its value**, whatever its exponent. -/
theorem ofDecimal_eq (hfmt : 0 < fmt.exponentBits) (negative : Bool) (d : Decimal) :
    ofDecimal fmt negative d = ofCode fmt negative (fmt.roundedCode d.value) := by
  unfold ofDecimal
  split_ifs with hzero hlarge hsmall
  · rw [Decimal.value_eq_zero_iff.2 hzero, Format.roundedCode, if_pos rfl, zero]
  · rw [Nat.one_shiftLeft] at hlarge
    rw [Format.roundedCode_of_lt_top hfmt hzero (by exact_mod_cast hlarge), infinity]
  · rw [Format.roundedCode_of_top_lt hzero hsmall, zero]
  · rw [ofRatio_eq negative d.num d.den_pos, d.num_div_den]

/-- Reading a decimal back depends on its value. -/
theorem readsBack_iff (hfmt : 0 < fmt.exponentBits) {x : Floating fmt} {d : Decimal} :
    x.readsBack d = true ↔ fmt.roundedCode d.value = x.code := by
  have hlt : fmt.roundedCode d.value < 2 ^ fmt.codeBits :=
    (fmt.roundedCode_le d.value).trans_lt fmt.infinityCode_lt
  rw [readsBack, decide_eq_true_iff, ofDecimal_eq hfmt, code_ofCode false hlt]

/-- The exact decimal of a magnitude has its value. -/
theorem value_exactDecimal (x : Floating fmt) : x.exactDecimal.value = x.magnitude := by
  have hten : (10 : ℚ) ^ (-x.exponent).toNat =
      2 ^ (-x.exponent).toNat * 5 ^ (-x.exponent).toNat := by
    rw [← mul_pow]
    norm_num
  rw [← num_div_den, exactDecimal, Decimal.value, den, cast_shiftLeft, zpow_neg, zpow_natCast, hten]
  push_cast [Nat.pow_eq]
  field_simp

/-- A neighbour is taken only if it reads back. -/
theorem readsBack_of_neighbour? {x : Floating fmt} {n : ℕ} {d : Decimal}
    (h : x.neighbour? n = some d) : x.readsBack d = true := by
  unfold neighbour? at h
  simp only at h
  split at h
  · split at h <;> simp_all
  all_goals simp_all

/-- **The decimal that a finite number is written as reads back.** -/
theorem roundedCode_shortest (hfmt : 0 < fmt.exponentBits) {x : Floating fmt}
    (hx : x.code < fmt.infinityCode) : fmt.roundedCode x.shortest.value = x.code := by
  unfold shortest
  cases hfound : (List.range 17).findSome? fun n => x.neighbour? (n + 1) with
  | some d =>
    obtain ⟨n, -, hn⟩ := List.exists_of_findSome?_eq_some hfound
    exact (readsBack_iff hfmt).1 (readsBack_of_neighbour? hn)
  | none =>
    rw [Option.getD_none, value_exactDecimal, roundedCode_magnitude hx]

end Floating

end MethodMachine
