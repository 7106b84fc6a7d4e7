/-
# The value of a rounded result

`Format.roundedCode` is the code that a magnitude is rounded to.  This module says which magnitude
that code stands for, as a rational number (`Format.rounded`): with `2 ^ e` the last place of the
numbers around `q` (`Format.lastPlace`), it is the multiple of `2 ^ e` nearest to `q`.  Hence:

| rounding a magnitude | by |
| --- | --- |
| moves it by at most half of its last place | `abs_rounded_sub_le` |
| does not take it past a multiple of its last place | `rounded_le`, `le_rounded` |
| takes it past an integer only by more than half of the integer's last place | `lt_rounded_iff` |

`Represents x q` says that `x` is the number without sign whose magnitude is `q`.  The product and
the quotient of such numbers are the exact ones, rounded once.
-/

import MethodMachine.Floating.Arithmetic
import MethodMachine.Proofs.Rounding

namespace MethodMachine

/-! ### Nearest integers -/

section integers

variable {q : ℚ} {n : ℕ}

/-- Rounding does not go above a natural number. -/
theorem roundEven_le (hq : 0 ≤ q) (h : q ≤ n) : roundEven q ≤ n := by
  rcases h.eq_or_lt with rfl | hlt
  · exact (roundEven_natCast n).le
  · have hfloor : ⌊q⌋₊ < n := (Nat.floor_lt hq).2 hlt
    unfold roundEven
    split_ifs <;> omega

/-- Rounding moves a number by at most a half. -/
theorem abs_roundEven_sub_le (hq : 0 ≤ q) : |(roundEven q : ℚ) - q| ≤ 1 / 2 := by
  have hlow := Nat.floor_le hq
  have hhigh := Nat.lt_floor_add_one q
  unfold roundEven
  rw [abs_le]
  split_ifs with hbelow habove
  · constructor <;> linarith
  · push_cast
    constructor <;> linarith
  · -- a tie: the floor and the integer above it are equally near
    rcases Nat.mod_two_eq_zero_or_one ⌊q⌋₊ with hmod | hmod
    all_goals
      rw [hmod]
      push_cast
      constructor <;> linarith

/-- An even integer is left below only by what is nearer to the next one. -/
theorem lt_roundEven_iff (heven : n % 2 = 0) (hq : 0 ≤ q) :
    n < roundEven q ↔ (n : ℚ) + 1 / 2 < q := by
  constructor
  · contrapose!
    intro h
    rcases le_or_gt q n with hle | hgt
    · exact roundEven_le hq hle
    · have hfloor : ⌊q⌋₊ = n := (Nat.floor_eq_iff hq).2 ⟨hgt.le, by linarith⟩
      rw [roundEven, hfloor, if_neg (not_lt.2 (by linarith : q - n ≤ 1 / 2)), heven]
      split_ifs <;> exact le_rfl
  · intro h
    rcases le_or_gt ((n + 1 : ℕ) : ℚ) q with hle | hlt
    · exact le_roundEven hle
    · push_cast at hlt
      have hfloor : ⌊q⌋₊ = n := (Nat.floor_eq_iff hq).2 ⟨by linarith, hlt⟩
      rw [roundEven, hfloor, if_neg (by linarith), if_pos (by linarith)]
      exact Nat.lt_succ_self n

end integers

/-! ### Nearest magnitudes -/

namespace Format

variable {fmt : Format} {q : ℚ} {e j : ℤ}

/-- The exponent of the last place of the numbers around a magnitude. -/
def lastPlace (fmt : Format) (q : ℚ) : ℤ :=
  max fmt.leastExponent (Int.log 2 q - fmt.fractionBits)

/-- The number nearest to a magnitude, a tie to the one with the even code. -/
def rounded (fmt : Format) (q : ℚ) : ℚ :=
  roundEven (q * 2 ^ (-fmt.lastPlace q)) * 2 ^ fmt.lastPlace q

/-- The last place of a number is bounded by the size of the number. -/
theorem lastPlace_le (hq : 0 < q) (hleast : fmt.leastExponent ≤ j)
    (h : q < 2 ^ (j + fmt.fractionBits + 1)) : fmt.lastPlace q ≤ j := by
  have hlog := (lt_two_zpow_iff hq).1 h
  exact max_le hleast (by omega)

/-- The same for doubles, in numbers. -/
theorem lastPlace_double_le (hq : 0 < q) (hj : -1074 ≤ j) (h : q < 2 ^ (j + 53)) :
    double.lastPlace q ≤ j :=
  lastPlace_le hq hj (by rwa [add_assoc])

/-- A multiple of a power of two is a multiple of each lower one. -/
theorem mul_two_zpow_eq (m : ℕ) (h : e ≤ j) :
    (m : ℚ) * 2 ^ j = (m * 2 ^ (j - e).toNat : ℕ) * 2 ^ e := by
  obtain ⟨d, rfl⟩ := Int.le.dest h
  rw [add_sub_cancel_left, Int.toNat_natCast, zpow_add₀ two_ne_zero, zpow_natCast]
  push_cast
  ring

theorem mul_two_zpow_neg (q : ℚ) (e : ℤ) : q * 2 ^ (-e) = q / 2 ^ e := by
  rw [zpow_neg, div_eq_mul_inv]

/-- Rounding does not go above a multiple of a last place that is no finer than its own. -/
theorem rounded_le {m : ℕ} (hq : 0 ≤ q) (hj : fmt.lastPlace q ≤ j) (h : q ≤ m * 2 ^ j) :
    fmt.rounded q ≤ m * 2 ^ j := by
  rw [mul_two_zpow_eq m hj] at h ⊢
  unfold rounded
  gcongr
  refine roundEven_le (by positivity) ?_
  rwa [mul_two_zpow_neg, div_le_iff₀ (by positivity)]

/-- Nor does it go below one. -/
theorem le_rounded {m : ℕ} (hj : fmt.lastPlace q ≤ j) (h : m * 2 ^ j ≤ q) :
    m * 2 ^ j ≤ fmt.rounded q := by
  rw [mul_two_zpow_eq m hj] at h ⊢
  unfold rounded
  gcongr
  refine le_roundEven ?_
  rwa [mul_two_zpow_neg, le_div_iff₀ (by positivity)]

/-- Where integers are multiples of the last place, rounding does not go above one. -/
theorem rounded_le_natCast {n : ℕ} (hq : 0 ≤ q) (hj : fmt.lastPlace q ≤ 0) (h : q ≤ n) :
    fmt.rounded q ≤ n := by
  simpa using rounded_le (j := 0) (m := n) hq hj (by simpa using h)

/-- Zero is rounded to zero. -/
theorem rounded_zero (fmt : Format) : fmt.rounded 0 = 0 := by
  simp [rounded, roundEven]

/-- What is rounded is a magnitude. -/
theorem rounded_nonneg (fmt : Format) (q : ℚ) : 0 ≤ fmt.rounded q := by
  unfold rounded
  positivity

/-- Integers that leave no digits below the last place are not changed. -/
theorem rounded_natCast {n : ℕ} (hj : fmt.lastPlace n ≤ 0) : fmt.rounded n = n :=
  le_antisymm (rounded_le_natCast n.cast_nonneg hj le_rfl)
    (by simpa using le_rounded (j := 0) (m := n) hj (by simp))

/-- **Rounding moves a magnitude by at most half of its last place.** -/
theorem abs_rounded_sub_le (hq : 0 ≤ q) (hj : fmt.lastPlace q ≤ j) :
    |fmt.rounded q - q| ≤ 2 ^ (j - 1) := by
  set e := fmt.lastPlace q with he
  have hunits : fmt.rounded q - q = (roundEven (q * 2 ^ (-e)) - q * 2 ^ (-e)) * 2 ^ e := by
    rw [rounded, ← he, sub_mul, mul_assoc q, ← zpow_add₀ two_ne_zero, neg_add_cancel, zpow_zero,
      mul_one]
  rw [hunits, abs_mul, abs_of_pos (by positivity : (0 : ℚ) < 2 ^ e)]
  calc |(roundEven (q * 2 ^ (-e)) : ℚ) - q * 2 ^ (-e)| * 2 ^ e ≤ 1 / 2 * 2 ^ e := by
        gcongr
        exact abs_roundEven_sub_le (by positivity)
    _ = 2 ^ (e - 1) := by rw [zpow_sub_one₀ two_ne_zero]; ring
    _ ≤ 2 ^ (j - 1) := zpow_le_zpow_right₀ one_le_two (by omega)

/-- **Rounding takes a magnitude past an integer** exactly if it lies above by more than half of the
integer's last place.  The significand of the integer ends with a zero, so a tie goes back to it. -/
theorem lt_rounded_iff {k : ℕ} (hpos : 0 < k) (hk : k < 2 ^ fmt.fractionBits)
    (hleast : fmt.leastExponent ≤ -fmt.fractionBits) (hq : 0 < q) :
    (k : ℚ) < fmt.rounded q ↔ k + 2 ^ (k.log2 - fmt.fractionBits - 1 : ℤ) < q := by
  obtain ⟨hlow, hhigh⟩ := log2_bounds hpos
  have hlog : k.log2 < fmt.fractionBits := (Nat.log2_lt hpos.ne').2 hk
  have hhalf : (0 : ℚ) < 2 ^ (k.log2 - fmt.fractionBits - 1 : ℤ) := by positivity
  rcases lt_trichotomy (Int.log 2 q) k.log2 with hbelow | hsame | habove
  · have hqk : q < k := ((lt_two_zpow_iff hq).2 hbelow).trans_le hlow
    have hplace : fmt.lastPlace q ≤ 0 := max_le (by omega) (by omega)
    have hrounded := rounded_le_natCast hq.le hplace hqk.le
    constructor <;> intro h <;> linarith
  · have hplace : fmt.lastPlace q = k.log2 - fmt.fractionBits := by
      rw [lastPlace, hsame]
      exact max_eq_right (by omega)
    set e : ℤ := k.log2 - fmt.fractionBits with he
    obtain ⟨m, hm, heven⟩ : ∃ m : ℕ, (k : ℚ) = m * 2 ^ e ∧ m % 2 = 0 := by
      refine ⟨k * 2 ^ (0 - e).toNat, ?_, ?_⟩
      · rw [← mul_two_zpow_eq k (by omega : e ≤ 0), zpow_zero, mul_one]
      · obtain ⟨d, hd⟩ : ∃ d, (0 - e).toNat = d + 1 := Nat.exists_eq_add_one.2 (by omega)
        rw [hd, pow_succ, ← mul_assoc, Nat.mul_mod_left]
    have hscale : (0 : ℚ) < 2 ^ e := by positivity
    rw [rounded, hplace, hm, mul_lt_mul_iff_left₀ hscale, Nat.cast_lt,
      lt_roundEven_iff heven (by positivity), mul_two_zpow_neg, lt_div_iff₀ hscale,
      zpow_sub_one₀ two_ne_zero, add_mul, one_div, mul_comm (2⁻¹ : ℚ)]
  · have hq' : (2 : ℚ) ^ (k.log2 + 1 : ℤ) ≤ 2 ^ Int.log 2 q :=
      zpow_le_zpow_right₀ one_le_two (by omega)
    have hplace : fmt.lastPlace q ≤ Int.log 2 q := max_le (by omega) (by omega)
    have hlog_le : (2 : ℚ) ^ Int.log 2 q ≤ q := (two_zpow_le_iff hq).2 le_rfl
    have hrounded := le_rounded (m := 1) hplace (by simpa using hlog_le)
    -- the integer is at least one below the next power of two
    have hgap : (k : ℚ) + 1 ≤ 2 ^ (k.log2 + 1 : ℤ) := by
      have hnat : k + 1 ≤ 2 ^ (k.log2 + 1) := Nat.lt_log2_self
      exact_mod_cast hnat
    have hsmall : (2 : ℚ) ^ (k.log2 - fmt.fractionBits - 1 : ℤ) < 1 :=
      zpow_lt_one_of_neg₀ one_lt_two (by omega)
    rw [Nat.cast_one, one_mul] at hrounded
    constructor <;> intro _ <;> linarith

/-- Magnitudes so far below the largest that rounding them does not overflow. -/
def Covers (fmt : Format) (q : ℚ) : Prop :=
  0 ≤ q ∧ q < 2 ^ (2 ^ (fmt.exponentBits - 1) - 1 : ℤ)

/-- Doubles cover the numbers below `2 ^ 53`, by far. -/
theorem covers_double (hq : 0 ≤ q) (h : q < 2 ^ 53) : double.Covers q := by
  refine ⟨hq, h.trans_le ?_⟩
  rw [← zpow_natCast]
  exact zpow_le_zpow_right₀ one_le_two (by decide)

/-- Counted in last places, a number has at most one bit more than the fraction. -/
theorem scaled_le (hq : 0 < q) :
    roundEven (q * 2 ^ (-fmt.lastPlace q)) ≤ 2 ^ (fmt.fractionBits + 1) := by
  have hlog : Int.log 2 q < fmt.lastPlace q + fmt.fractionBits + 1 := by
    have := le_max_right fmt.leastExponent (Int.log 2 q - fmt.fractionBits)
    unfold lastPlace
    omega
  refine roundEven_le (by positivity) ?_
  rw [mul_two_zpow_neg, div_le_iff₀ (by positivity)]
  refine ((lt_two_zpow_iff hq).2 hlog).le.trans_eq ?_
  rw [add_assoc, add_comm, zpow_add₀ two_ne_zero]
  push_cast
  rfl

/-- It has at least as many, unless its last place is the least. -/
theorem le_scaled (hq : 0 < q) (h : fmt.leastExponent < fmt.lastPlace q) :
    2 ^ fmt.fractionBits ≤ roundEven (q * 2 ^ (-fmt.lastPlace q)) := by
  have hlog : fmt.fractionBits + fmt.lastPlace q ≤ Int.log 2 q := by
    unfold lastPlace at h ⊢
    omega
  refine le_roundEven ?_
  rw [mul_two_zpow_neg, le_div_iff₀ (by positivity)]
  push_cast
  rw [← zpow_natCast, ← zpow_add₀ two_ne_zero]
  exact (two_zpow_le_iff hq).2 hlog

/-- Covered magnitudes are rounded to finite numbers. -/
theorem scaledCode_lt (hfmt : 1 < fmt.exponentBits) (hpos : 0 < q) (h : fmt.Covers q) :
    (fmt.lastPlace q - fmt.leastExponent).toNat * 2 ^ fmt.fractionBits +
      roundEven (q * 2 ^ (-fmt.lastPlace q)) < fmt.infinityCode := by
  have hlog := (lt_two_zpow_iff hpos).1 h.2
  have hfield : (fmt.lastPlace q - fmt.leastExponent).toNat + 4 ≤ 2 ^ fmt.exponentBits := by
    have hleast := fmt.leastExponent_eq
    have hdouble : (2 : ℤ) ^ fmt.exponentBits = 2 * 2 ^ (fmt.exponentBits - 1) := by
      rw [← pow_succ', Nat.sub_add_cancel (by omega)]
    have htwo : (2 : ℤ) ^ 1 ≤ 2 ^ (fmt.exponentBits - 1) :=
      pow_le_pow_right₀ one_le_two (by omega)
    unfold lastPlace
    zify
    omega
  calc (fmt.lastPlace q - fmt.leastExponent).toNat * 2 ^ fmt.fractionBits +
        roundEven (q * 2 ^ (-fmt.lastPlace q))
      ≤ (fmt.lastPlace q - fmt.leastExponent).toNat * 2 ^ fmt.fractionBits +
        2 ^ (fmt.fractionBits + 1) := Nat.add_le_add_left (scaled_le hpos) _
    _ = ((fmt.lastPlace q - fmt.leastExponent).toNat + 2) * 2 ^ fmt.fractionBits := by
        rw [pow_succ, add_mul, mul_comm 2]
    _ < (2 ^ fmt.exponentBits - 1) * 2 ^ fmt.fractionBits :=
        Nat.mul_lt_mul_of_pos_right (by omega) (Nat.two_pow_pos _)
    _ = fmt.infinityCode := fmt.infinityCode_eq.symm

/-- A number in the range of a format is rounded to a finite code. -/
theorem roundedCode_of_covers (hfmt : 1 < fmt.exponentBits) (hpos : 0 < q) (h : fmt.Covers q) :
    fmt.roundedCode q = (fmt.lastPlace q - fmt.leastExponent).toNat * 2 ^ fmt.fractionBits +
      roundEven (q * 2 ^ (-fmt.lastPlace q)) := by
  rw [roundedCode, if_neg hpos.ne']
  exact min_eq_right (scaledCode_lt hfmt hpos h).le

end Format

/-! ### Numbers and their magnitudes -/

namespace Floating

variable {fmt : Format} {x y : Floating fmt} {q r : ℚ}

/-- The magnitude of a code that is written as a last place and a significand. -/
theorem magnitude_of_code_of_lt {k m : ℕ} (hcode : x.code = k * 2 ^ fmt.fractionBits + m)
    (hm : m < 2 ^ (fmt.fractionBits + 1)) (hk : k = 0 ∨ 2 ^ fmt.fractionBits ≤ m) :
    x.magnitude = m * 2 ^ (fmt.leastExponent + k) := by
  have hpos := Nat.two_pow_pos fmt.fractionBits
  rw [pow_succ] at hm
  rcases x.fields_cases with ⟨hsmall, hsig, he⟩ | ⟨hlarge, hsig, he⟩
  · obtain rfl : k = 0 := by
      rcases hk with hzero | hle
      · exact hzero
      · omega
    rw [magnitude, hsig, he, hcode]
    simp
  · have hle : 2 ^ fmt.fractionBits ≤ m := by
      rcases hk with rfl | hle
      · omega
      · exact hle
    -- the fraction field is what the significand has below its first bit
    have hsplit : x.code = (m - 2 ^ fmt.fractionBits) + 2 ^ fmt.fractionBits * (k + 1) := by
      rw [hcode, Nat.mul_succ, mul_comm k]
      omega
    have hmod : x.code % 2 ^ fmt.fractionBits = m - 2 ^ fmt.fractionBits := by
      rw [hsplit, Nat.add_mul_mod_self_left, Nat.mod_eq_of_lt (by omega)]
    have hdiv : x.code / 2 ^ fmt.fractionBits = k + 1 := by
      rw [hsplit, Nat.add_mul_div_left _ _ hpos, Nat.div_eq_of_lt (by omega), zero_add]
    rw [magnitude, hsig, he, hmod, hdiv, Nat.add_sub_cancel, Nat.add_sub_cancel' hle]

/-- The magnitude of a code that is put together from an exponent field and a significand, where the
significand may be rounded up to the next power of two. -/
theorem magnitude_of_code {k m : ℕ} (hcode : x.code = k * 2 ^ fmt.fractionBits + m)
    (hm : m ≤ 2 ^ (fmt.fractionBits + 1)) (hk : k = 0 ∨ 2 ^ fmt.fractionBits ≤ m) :
    x.magnitude = m * 2 ^ (fmt.leastExponent + k) := by
  rcases hm.lt_or_eq with hlt | rfl
  · exact magnitude_of_code_of_lt hcode hlt hk
  · -- the significand carries into the exponent field
    have hcarried : x.code = (k + 1) * 2 ^ fmt.fractionBits + 2 ^ fmt.fractionBits := by
      rw [hcode]
      ring
    have hnext : (fmt.leastExponent + (k + 1 : ℕ) : ℤ) = fmt.leastExponent + k + 1 := by omega
    rw [magnitude_of_code_of_lt hcarried (Nat.pow_lt_pow_succ one_lt_two) (.inr le_rfl), hnext,
      zpow_add_one₀ two_ne_zero]
    push_cast
    ring

/-- A finite number without sign, and the magnitude that it stands for. -/
structure Represents (x : Floating fmt) (q : ℚ) : Prop where
  finite : x.code < fmt.infinityCode
  negative : x.negative = false
  magnitude : x.magnitude = q

/-- A number that represents a magnitude is finite and not negative. -/
theorem Represents.datum (h : Represents x q) :
    x.datum = .finite false x.significand x.exponent := by
  rw [Floating.datum, if_pos h.finite, h.negative]

/-- The rounded code represents the rounded number. -/
theorem represents_ofCode (hfmt : 1 < fmt.exponentBits) (h : fmt.Covers q) :
    Represents (ofCode fmt false (fmt.roundedCode q)) (fmt.rounded q) := by
  have hlt : fmt.roundedCode q < 2 ^ fmt.codeBits :=
    (fmt.roundedCode_le q).trans_lt fmt.infinityCode_lt
  have hcode := code_ofCode false hlt
  have hnegative := negative_ofCode false hlt
  rcases h.1.eq_or_lt with rfl | hpos
  · have hzero : fmt.roundedCode 0 = 0 := if_pos rfl
    have hfinite : 0 < fmt.infinityCode := by
      rw [Format.infinityCode_eq]
      have htwo : 2 ^ 1 ≤ 2 ^ fmt.exponentBits := Nat.pow_le_pow_right two_pos (by omega)
      exact Nat.mul_pos (by omega) (Nat.two_pow_pos _)
    refine ⟨by rwa [hcode, hzero], hnegative, ?_⟩
    rw [hzero] at hcode ⊢
    rw [Floating.magnitude, significand_eq_zero_iff.2 hcode, Nat.cast_zero, zero_mul,
      Format.rounded_zero]
  · have heq := Format.roundedCode_of_covers hfmt hpos h
    refine ⟨?_, hnegative, ?_⟩
    · rw [hcode, heq]
      exact Format.scaledCode_lt hfmt hpos h
    · have hplace : fmt.leastExponent ≤ fmt.lastPlace q := le_max_left _ _
      have hexponent : fmt.leastExponent + ((fmt.lastPlace q - fmt.leastExponent).toNat : ℤ) =
          fmt.lastPlace q := by omega
      rw [magnitude_of_code (hcode.trans heq) (Format.scaled_le hpos) ?_, hexponent, Format.rounded]
      rcases hplace.eq_or_lt with hleast | hgt
      · exact .inl (by omega)
      · exact .inr (Format.le_scaled hpos hgt)

/-- **A quotient of naturals is rounded to the nearest number.** -/
theorem represents_ofRatio (hfmt : 1 < fmt.exponentBits) (num : ℕ) {den : ℕ} (hden : 0 < den)
    (h : fmt.Covers (num / den)) :
    Represents (ofRatio fmt false num den) (fmt.rounded (num / den)) := by
  rw [ofRatio_eq false num hden]
  exact represents_ofCode hfmt h

/-- An integer becomes the number it is rounded to. -/
theorem represents_ofInt (hfmt : 1 < fmt.exponentBits) {n : ℕ} (h : fmt.Covers n) :
    Represents (ofInt fmt n) (fmt.rounded n) := by
  have hquotient : ((n : ℕ) : ℚ) / (1 : ℕ) = n := by simp
  have hrepresents := represents_ofRatio hfmt n one_pos (by rwa [hquotient])
  rwa [hquotient] at hrepresents

/-- **The product of two numbers is the exact one, rounded.** -/
theorem Represents.mul (hfmt : 1 < fmt.exponentBits) (hx : Represents x q) (hy : Represents y r)
    (h : fmt.Covers (q * r)) : Represents (x * y) (fmt.rounded (q * r)) := by
  have hvalue := shiftLeft_div_shiftLeft (x.significand * y.significand) 1 (x.exponent + y.exponent)
  have hexact : ((x.significand * y.significand : ℕ) : ℚ) / (1 : ℕ) *
      2 ^ (x.exponent + y.exponent) = q * r := by
    rw [← hx.magnitude, ← hy.magnitude, Floating.magnitude, Floating.magnitude,
      zpow_add₀ two_ne_zero]
    push_cast
    ring
  have hden : 0 < 1 <<< (-(x.exponent + y.exponent)).toNat := by
    rw [Nat.one_shiftLeft]
    exact Nat.two_pow_pos _
  show Represents (Floating.mul x y) _
  rw [Floating.mul, hx.datum, hy.datum]
  rw [← hexact, ← hvalue] at h ⊢
  exact represents_ofRatio hfmt _ hden h

/-- **The quotient of two numbers is the exact one, rounded.** -/
theorem Represents.div (hfmt : 1 < fmt.exponentBits) (hx : Represents x q) (hy : Represents y r)
    (hr : r ≠ 0) (h : fmt.Covers (q / r)) : Represents (x / y) (fmt.rounded (q / r)) := by
  have hvalue := shiftLeft_div_shiftLeft x.significand y.significand (x.exponent - y.exponent)
  rw [neg_sub] at hvalue
  have hexact : (x.significand : ℚ) / y.significand * 2 ^ (x.exponent - y.exponent) = q / r := by
    rw [← hx.magnitude, ← hy.magnitude, Floating.magnitude, Floating.magnitude,
      zpow_sub₀ two_ne_zero, div_mul_div_comm]
  have hne : y.significand ≠ 0 := by
    intro hzero
    rw [← hy.magnitude, Floating.magnitude, hzero] at hr
    simp at hr
  have hden : 0 < y.significand <<< (y.exponent - x.exponent).toNat := by
    rw [Nat.shiftLeft_eq]
    positivity
  show Represents (Floating.div x y) _
  rw [Floating.div, hx.datum, hy.datum]
  simp only [hne, if_false]
  rw [← hexact, ← hvalue] at h ⊢
  exact represents_ofRatio hfmt _ hden h

/-- The ceiling of a number is that of its magnitude. -/
theorem Represents.ceiling (h : Represents x q) (low high : ℤ) :
    x.ceiling low high = clamp low high ⌈q⌉ := by
  have hvalue := shiftLeft_div_shiftLeft x.significand 1 x.exponent
  have hexact : (x.significand : ℚ) / (1 : ℕ) * 2 ^ x.exponent = q := by
    rw [← h.magnitude, Floating.magnitude, Nat.cast_one, div_one]
  have hceil : ⌈q⌉ = -(-((x.significand <<< x.exponent.toNat : ℕ) : ℤ) /
      (1 <<< (-x.exponent).toNat : ℕ)) := by
    have hdiv := Rat.ceil_intCast_div_natCast (x.significand <<< x.exponent.toNat : ℕ)
      (1 <<< (-x.exponent).toNat)
    rwa [Int.cast_natCast, hvalue, hexact] at hdiv
  rw [Floating.ceiling, h.datum, hceil]
  rfl

end Floating

end MethodMachine
