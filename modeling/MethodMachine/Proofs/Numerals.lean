/-
# Floating-point numbers that are written read back

The text of a finite number is a sign and a numeral (`Numeral`): digits, a point, digits and
perhaps an exponent.  All the ways to write one put the point at another place, add zeros or leave
some out, but the numeral is read as a decimal of the same value
(`exists_plain`, `exists_scientific`), which is that of the shortest decimal.  Since rounding
depends on the value alone, the number is read back.

| number | text | read as |
| --- | --- | --- |
| zero, or in `[10⁻³, 10⁷)` | numeral without exponent | the number |
| any other finite one | one digit before the point, an exponent | the number |
| infinity | `Infinity` | the infinity of that sign |
| not a number | `NaN` | the quiet not-a-number |

An exponent is read only in part if it is very long.  Those that are written are not: they are
bounded by the exponents of the format (`Format.Legible`).
-/

import MethodMachine.Proofs.IntegerArguments
import MethodMachine.Proofs.Rounding

namespace MethodMachine

/-! ### Numerals -/

/-- Digits on both sides of a point, and an exponent that may be left out. -/
structure Numeral where
  whole : List Char
  fraction : List Char
  exponent? : Option ℤ
  whole_ne_nil : whole ≠ []
  fraction_ne_nil : fraction ≠ []
  isDigit : ∀ c ∈ whole ++ fraction, c.isDigit

namespace Numeral

/-- An exponent, or nothing. -/
def exponentText : Option ℤ → List Char
  | none => []
  | some e => 'E' :: (integerText e).toList

/-- What a numeral is written as. -/
def text (n : Numeral) : List Char := n.whole ++ '.' :: (n.fraction ++ exponentText n.exponent?)

/-- What a numeral denotes. -/
def decimal (n : Numeral) : Decimal :=
  ⟨Literal.digitsValue (n.whole ++ n.fraction), n.exponent?.getD 0 - n.fraction.length⟩

end Numeral

namespace Literal

/-- An exponent below the limit is read in full. -/
theorem exponentValue_eq {digits : List Char} (h : digitsValue digits < 65536) :
    exponentValue digits = digitsValue digits := by
  have general : ∀ value, Nat.ofDigitChars 10 digits value < 65536 →
      digits.foldl (fun e c => if e < 65536 then 10 * e + digitValue c else e) value =
        Nat.ofDigitChars 10 digits value := by
    clear h
    induction digits with
    | nil => simp
    | cons c rest ih =>
      intro value hlt
      have hvalue := (le_ofDigitChars (c :: rest) value).trans_lt hlt
      rw [Nat.ofDigitChars_cons] at hlt ⊢
      rw [List.foldl_cons, if_pos hvalue]
      exact ih _ hlt
  exact general 0 h

theorem readExponentDigits?_toDigits {n : ℕ} (hn : n < 65536) :
    readExponentDigits? (Nat.toDigits 10 n) = some n := by
  have hvalue : digitsValue (Nat.toDigits 10 n) = n := Nat.ofDigitChars_ten_toDigits
  have hdigits : (Nat.toDigits 10 n).all Char.isDigit = true :=
    List.all_eq_true.2 fun _ => isDigit_of_mem_toDigits
  have hne : (Nat.toDigits 10 n).isEmpty = false := by
    simp [Nat.toDigits_ne_nil]
  rw [readExponentDigits?, hdigits, hne, exponentValue_eq (by rwa [hvalue]), hvalue]
  rfl

/-- An exponent is read like an integer: its sign, and then its digits. -/
theorem readExponent?_cons (text : List Char) :
    readExponent? ('E' :: text) =
      (readExponentDigits? (unsigned text)).map (signed (isNegative text)) := by
  rcases sign_cases text with rfl | ⟨rest, rfl, hsign, hunsigned⟩ | ⟨rest, rfl, hsign, hunsigned⟩ |
    ⟨c, rest, rfl, hminus, hplus, hsign, hunsigned⟩
  · rfl
  · rw [hsign, hunsigned, readExponent?]
    cases readExponentDigits? rest <;> rfl
  · rw [hsign, hunsigned, readExponent?]
    cases readExponentDigits? rest <;> rfl
  · rw [hsign, hunsigned, readExponent?, if_pos (by decide)]
    · cases readExponentDigits? (c :: rest) <;> rfl
    · simp [hminus]
    · simp [hplus]

theorem readExponent?_exponentText {e? : Option ℤ} (he : ∀ e ∈ e?, e.natAbs < 65536) :
    readExponent? (Numeral.exponentText e?) = some (e?.getD 0) := by
  cases e? with
  | none => rfl
  | some e =>
    obtain ⟨hunsigned, hnegative⟩ := parts_integerText e
    rw [Numeral.exponentText, readExponent?_cons, hunsigned, hnegative,
      readExponentDigits?_toDigits (he e rfl), Option.map_some, signed_natAbs, Option.getD_some]

/-- **A numeral is read as what it denotes.** -/
theorem readNumeral?_text (n : Numeral) (he : ∀ e ∈ n.exponent?, e.natAbs < 65536) :
    readNumeral? n.text = some n.decimal := by
  have hwhole : ∀ c ∈ n.whole, c.isDigit := fun c hc => n.isDigit c (List.mem_append_left _ hc)
  have hfraction : ∀ c ∈ n.fraction, c.isDigit :=
    fun c hc => n.isDigit c (List.mem_append_right _ hc)
  have hpoint : n.text.takeWhile Char.isDigit = n.whole ∧
      n.text.dropWhile Char.isDigit = '.' :: (n.fraction ++ Numeral.exponentText n.exponent?) := by
    rw [Numeral.text, List.takeWhile_append_of_pos hwhole, List.dropWhile_append_of_pos hwhole]
    exact ⟨List.append_nil _, rfl⟩
  have hexponent : (n.fraction ++ Numeral.exponentText n.exponent?).takeWhile Char.isDigit =
        n.fraction ∧
      (n.fraction ++ Numeral.exponentText n.exponent?).dropWhile Char.isDigit =
        Numeral.exponentText n.exponent? := by
    rw [List.takeWhile_append_of_pos hfraction, List.dropWhile_append_of_pos hfraction]
    cases n.exponent? with
    | none => exact ⟨List.append_nil _, rfl⟩
    | some e => exact ⟨List.append_nil _, rfl⟩
  have hne : n.whole.isEmpty = false := by simp [n.whole_ne_nil]
  rw [readNumeral?, hpoint.1, hpoint.2, fractionPart, hexponent.1, hexponent.2]
  simp only [hne, Bool.false_and, readExponent?_exponentText he]
  rfl

/-! ### Digits -/

theorem digitsValue_append_zeros (digits : List Char) (k : ℕ) :
    digitsValue (digits ++ List.replicate k '0') = digitsValue digits * 10 ^ k := by
  rw [digitsValue, Nat.ofDigitChars_append, Nat.ofDigitChars_replicate_zero, mul_comm]
  rfl

theorem digitsValue_zeros_append (k : ℕ) (digits : List Char) :
    digitsValue (List.replicate k '0' ++ digits) = digitsValue digits := by
  rw [digitsValue, Nat.ofDigitChars_append, Nat.ofDigitChars_replicate_zero, mul_zero]
  rfl

/-- A positive number is not written with a zero in front. -/
theorem head?_toDigits_ne {n : ℕ} (hn : n ≠ 0) : (Nat.toDigits 10 n).head? ≠ some '0' := by
  induction n using Nat.strongRecOn with
  | ind n ih =>
    rcases Nat.lt_or_ge n 10 with hlt | hge
    · rw [Nat.toDigits_of_lt_base hlt]
      have hchar : ∀ m : Fin 10, m.val ≠ 0 → [Nat.digitChar m].head? ≠ some '0' := by decide
      exact hchar ⟨n, hlt⟩ hn
    · rw [Nat.toDigits_of_base_le (by decide) hge,
        List.head?_append_of_ne_nil _ Nat.toDigits_ne_nil]
      exact ih (n / 10) (by omega) (by omega)

end Literal

/-- The value of `0.d₁d₂… · 10 ^ point`. -/
def Literal.scaledValue (digits : List Char) (point : ℤ) : ℚ :=
  digitsValue digits * 10 ^ (point - digits.length)

namespace Layout

open Literal (digitsValue scaledValue)

/-- The digits of a decimal that are written, and the zeros that are left out. -/
theorem exists_zeros (d : Decimal) :
    ∃ zeros, Nat.toDigits 10 d.coefficient = significantDigits d ++ List.replicate zeros '0' := by
  set digits := Nat.toDigits 10 d.coefficient with hdigits
  refine ⟨(digits.reverse.takeWhile (· = '0')).length, ?_⟩
  have hzeros : digits.reverse.takeWhile (· = '0') =
      List.replicate (digits.reverse.takeWhile (· = '0')).length '0' := by
    refine List.eq_replicate_of_mem fun c hc => ?_
    simpa using List.all_eq_true.1 List.all_takeWhile c hc
  rw [significantDigits, ← hdigits, ← List.reverse_replicate, ← hzeros, ← List.reverse_append,
    List.takeWhile_append_dropWhile, List.reverse_reverse]

/-- A positive decimal is written from a first digit that is not zero. -/
theorem significantDigits_eq_cons {d : Decimal} (hd : d.coefficient ≠ 0) :
    ∃ first rest, significantDigits d = first :: rest ∧ first ≠ '0' ∧
      ∀ c ∈ significantDigits d, c.isDigit := by
  obtain ⟨zeros, hsplit⟩ := exists_zeros d
  have hdigit : ∀ c ∈ significantDigits d, c.isDigit := fun c hc =>
    Literal.isDigit_of_mem_toDigits (hsplit ▸ List.mem_append_left _ hc)
  have hhead := Literal.head?_toDigits_ne hd
  rw [hsplit] at hhead
  cases hwritten : significantDigits d with
  | nil =>
    rw [hwritten, List.nil_append] at hsplit hhead
    cases zeros with
    | zero => exact absurd hsplit Nat.toDigits_ne_nil
    | succ zeros => exact absurd rfl hhead
  | cons first rest =>
    rw [hwritten] at hhead hdigit
    exact ⟨first, rest, rfl, fun h => hhead (by rw [h]; rfl), hdigit⟩

/-- The digits that are written, with the point where the decimal has it, have its value. -/
theorem scaledValue_significantDigits (d : Decimal) :
    scaledValue (significantDigits d) d.top = d.value := by
  obtain ⟨zeros, hsplit⟩ := exists_zeros d
  have hcoefficient : d.coefficient = digitsValue (significantDigits d) * 10 ^ zeros := by
    rw [← Literal.digitsValue_append_zeros, ← hsplit]
    exact Nat.ofDigitChars_ten_toDigits.symm
  have hcount : Decimal.digitCount d.coefficient = (significantDigits d).length + zeros := by
    rw [Decimal.digitCount, hsplit, List.length_append, List.length_replicate]
  have hplace : d.top - (significantDigits d).length = zeros + d.exponent := by
    rw [Decimal.top, hcount]
    push_cast
    ring
  rw [scaledValue, hplace, Decimal.value, zpow_add₀ (by norm_num), zpow_natCast, ← mul_assoc]
  congr 1
  exact_mod_cast hcoefficient.symm

/-- A numeral may have zeros more than the digits, if its point has moved as far. -/
theorem value_decimal_eq {n : Numeral} {digits : List Char} {point : ℤ} (zeros : ℕ)
    (hvalue : digitsValue (n.whole ++ n.fraction) = digitsValue digits * 10 ^ zeros)
    (hplace : n.exponent?.getD 0 - n.fraction.length = point - digits.length - zeros) :
    n.decimal.value = scaledValue digits point := by
  rw [Decimal.value, Numeral.decimal, hvalue, hplace, scaledValue, zpow_sub₀ (by norm_num),
    zpow_natCast]
  push_cast
  field_simp

/-- Digits without an exponent are a numeral of their value. -/
theorem exists_plain {digits : List Char} (hne : digits ≠ [])
    (hdigits : ∀ c ∈ digits, c.isDigit) (point : ℤ) :
    ∃ n : Numeral, plain true digits point = n.text ∧ n.exponent? = none ∧
      n.decimal.value = scaledValue digits point := by
  simp only [plain, if_true]
  split_ifs with hsmall hwhole
  · -- the point stands before all digits
    refine ⟨⟨['0'], List.replicate (-point).toNat '0' ++ digits, none, by simp, by simp [hne], ?_⟩,
      by simp [Numeral.text, Numeral.exponentText], rfl, value_decimal_eq 0 ?_ ?_⟩
    · intro c hc
      simp only [List.mem_append, List.mem_singleton, List.mem_replicate] at hc
      rcases hc with rfl | ⟨-, rfl⟩ | hc
      · rfl
      · rfl
      · exact hdigits c hc
    · rw [pow_zero, mul_one]
      exact Literal.digitsValue_zeros_append ((-point).toNat + 1) digits
    · simp only [Option.getD_none, List.length_append, List.length_replicate, Nat.cast_add,
        Int.ofNat_toNat, Nat.cast_zero]
      omega
  · -- the point stands after all digits
    refine ⟨⟨digits ++ List.replicate (point - digits.length).toNat '0', ['0'], none,
      by simp [hne], by simp, ?_⟩, by simp [Numeral.text, Numeral.exponentText], rfl,
      value_decimal_eq ((point - digits.length).toNat + 1) ?_ ?_⟩
    · intro c hc
      simp only [List.mem_append, List.mem_singleton, List.mem_replicate] at hc
      rcases hc with (hc | ⟨-, rfl⟩) | rfl
      · exact hdigits c hc
      · rfl
      · rfl
    · rw [← Literal.digitsValue_append_zeros, List.replicate_succ', List.append_assoc]
    · simp only [Option.getD_none, List.length_cons, List.length_nil, Nat.cast_add, Nat.cast_one]
      omega
  · -- the point stands among the digits
    refine ⟨⟨digits.take point.toNat, digits.drop point.toNat, none, ?_, ?_, ?_⟩,
      by simp [Numeral.text, Numeral.exponentText], rfl, value_decimal_eq 0 ?_ ?_⟩
    · simp only [ne_eq, List.take_eq_nil_iff, Int.toNat_eq_zero, hne, or_false, not_le]
      omega
    · simp only [ne_eq, List.drop_eq_nil_iff, not_le]
      omega
    · simpa using hdigits
    · simp
    · simp only [Option.getD_none, List.length_drop, Nat.cast_zero]
      omega

theorem exists_plain_zero :
    ∃ n : Numeral, plain true ['0'] 1 = n.text ∧ n.exponent? = none ∧ n.decimal.value = 0 := by
  obtain ⟨n, htext, hnone, hvalue⟩ :=
    exists_plain (List.cons_ne_nil '0' []) (List.forall_mem_singleton.2 rfl) 1
  refine ⟨n, htext, hnone, ?_⟩
  rw [hvalue, scaledValue]
  simp [digitsValue, Nat.ofDigitChars]

/-- Digits with an exponent are a numeral of their value. -/
theorem exists_scientific {first : Char} {rest : List Char}
    (hdigits : ∀ c ∈ first :: rest, c.isDigit) (point : ℤ) :
    ∃ n : Numeral, scientific (first :: rest) point = n.text ∧ n.whole = [first] ∧
      n.exponent? = some (point - 1) ∧ n.decimal.value = scaledValue (first :: rest) point := by
  rw [scientific]
  cases rest with
  | nil =>
    -- a lone digit is given a zero after the point
    refine ⟨⟨[first], ['0'], some (point - 1), by simp, by simp, ?_⟩,
      by simp [Numeral.text, Numeral.exponentText], rfl, rfl, value_decimal_eq 1 ?_ ?_⟩
    · intro c hc
      simp only [List.mem_append, List.mem_singleton] at hc
      rcases hc with rfl | rfl
      · exact hdigits c List.mem_cons_self
      · rfl
    · exact Literal.digitsValue_append_zeros [first] 1
    · simp
  | cons second rest =>
    refine ⟨⟨[first], second :: rest, some (point - 1), by simp, by simp, hdigits⟩,
      by simp [Numeral.text, Numeral.exponentText], rfl, rfl, value_decimal_eq 0 ?_ ?_⟩
    · simp
    · simp only [Option.getD_some, List.length_cons, Nat.cast_add, Nat.cast_one, Nat.cast_zero]
      omega

end Layout

/-! ### Numbers -/

/-- The exponents that numbers of the format are written with are short, and are read in full. -/
structure Format.Legible (fmt : Format) : Prop where
  exponentBits_pos : 0 < fmt.exponentBits
  above : 1 <<< (fmt.exponentBits - 1) ≤ 65536
  below : -65535 < fmt.leastExponent

theorem Format.legible_single : Format.single.Legible := ⟨by decide, by decide, by decide⟩

theorem Format.legible_double : Format.double.Legible := ⟨by decide, by decide, by decide⟩

/-- A magnitude that is written without an exponent. -/
def IsPlainMagnitude (q : ℚ) : Prop := q = 0 ∨ 1 / 1000 ≤ q ∧ q < 10 ^ 7

/-- How the numeral for a magnitude looks. -/
structure Numeral.Shows (n : Numeral) (q : ℚ) : Prop where
  plain : IsPlainMagnitude q → n.exponent? = none
  scientific : ¬IsPlainMagnitude q →
    ∃ first e, n.whole = [first] ∧ first ≠ '0' ∧ n.exponent? = some e

namespace Floating

variable {fmt : Format}

/-- A number that is neither infinite nor not-a-number. -/
def IsFinite (x : Floating fmt) : Prop := x.code < fmt.infinityCode

/-- The sign that is written. -/
def signText (x : Floating fmt) : List Char := if x.negative then ['-'] else []

theorem inPlainRange_iff (x : Floating fmt) :
    Layout.inPlainRange x.num x.den = true ↔ 1 / 1000 ≤ x.magnitude ∧ x.magnitude < 10 ^ 7 := by
  have hpos : (0 : ℚ) < x.den := Nat.cast_pos.2 x.den_pos
  rw [← num_div_den, le_div_iff₀ hpos, div_lt_iff₀ hpos, Layout.inPlainRange, Bool.and_eq_true,
    decide_eq_true_iff, decide_eq_true_iff, ← @Nat.cast_le ℚ, ← @Nat.cast_lt ℚ]
  push_cast
  constructor
  · rintro ⟨hlow, hhigh⟩
    constructor <;> linarith
  · rintro ⟨hlow, hhigh⟩
    constructor <;> linarith

theorem coefficient_ne_zero {x : Floating fmt} {d : Decimal} (hzero : x.code ≠ 0)
    (hd : fmt.roundedCode d.value = x.code) : d.coefficient ≠ 0 := by
  intro h
  rw [Decimal.value_eq_zero_iff.2 h, Format.roundedCode, if_pos rfl] at hd
  exact hzero hd.symm

/-- A decimal that is rounded to a finite number other than zero has an exponent that is read in
full, since one too far from zero is rounded to zero or to infinity. -/
theorem natAbs_exponent_lt (hfmt : fmt.Legible) {x : Floating fmt} {d : Decimal} (hx : x.IsFinite)
    (hzero : x.code ≠ 0) (hd : fmt.roundedCode d.value = x.code) :
    (d.top - 1).natAbs < 65536 := by
  have hcoefficient := coefficient_ne_zero hzero hd
  have hlow : fmt.leastExponent ≤ d.top := by
    by_contra hsmall
    rw [Format.roundedCode_of_top_lt hcoefficient (not_le.1 hsmall)] at hd
    exact hzero hd.symm
  have hhigh : d.top ≤ 2 ^ (fmt.exponentBits - 1) := by
    by_contra hlarge
    rw [Format.roundedCode_of_lt_top hfmt.exponentBits_pos hcoefficient (not_le.1 hlarge)] at hd
    exact hx.ne hd.symm
  have habove : (2 : ℤ) ^ (fmt.exponentBits - 1) ≤ 65536 := by
    have hlimit := hfmt.above
    rw [Nat.one_shiftLeft] at hlimit
    exact_mod_cast hlimit
  have hbelow := hfmt.below
  omega

/-- **The text of a finite magnitude is a numeral that is rounded to it.** -/
theorem exists_numeral (hfmt : fmt.Legible) {x : Floating fmt} (hx : x.IsFinite) :
    ∃ n : Numeral, Layout.slot.magnitude x = n.text ∧ n.Shows x.magnitude ∧
      fmt.roundedCode n.decimal.value = x.code ∧ ∀ e ∈ n.exponent?, e.natAbs < 65536 := by
  rw [Layout.magnitude]
  by_cases hzero : x.significand = 0
  · obtain ⟨n, htext, hnone, hvalue⟩ := Layout.exists_plain_zero
    have hplain : IsPlainMagnitude x.magnitude := .inl (by simp [magnitude, hzero])
    refine ⟨n, ?_, ⟨fun _ => hnone, fun h => absurd hplain h⟩, ?_, by simp [hnone]⟩
    · rw [if_pos hzero]
      exact htext
    · rw [hvalue, Format.roundedCode, if_pos rfl, significand_eq_zero_iff.1 hzero]
  · have hround := roundedCode_shortest hfmt.exponentBits_pos hx
    have hcode : x.code ≠ 0 := mt significand_eq_zero_iff.2 hzero
    obtain ⟨first, rest, hdigits, hfirst, hall⟩ :=
      Layout.significantDigits_eq_cons (coefficient_ne_zero hcode hround)
    have hsame := Layout.scaledValue_significantDigits x.shortest
    rw [hdigits] at hall hsame
    simp only [hzero, if_false, hdigits]
    by_cases hplain : Layout.inPlainRange x.num x.den = true
    · obtain ⟨n, htext, hnone, hvalue⟩ :=
        Layout.exists_plain (List.cons_ne_nil first rest) hall x.shortest.top
      refine ⟨n, ?_, ⟨fun _ => hnone, fun h => ?_⟩, by rw [hvalue, hsame, hround], by simp [hnone]⟩
      · rw [hplain]
        exact htext
      · exact absurd (.inr ((inPlainRange_iff x).1 hplain)) h
    · obtain ⟨n, htext, hwhole, hsome, hvalue⟩ := Layout.exists_scientific hall x.shortest.top
      refine ⟨n, ?_, ⟨fun h => ?_, fun _ => ⟨first, _, hwhole, hfirst, hsome⟩⟩,
        by rw [hvalue, hsame, hround], ?_⟩
      · rw [Bool.not_eq_true] at hplain
        rw [hplain]
        exact htext
      · exact absurd ((inPlainRange_iff x).2 (h.resolve_left (magnitude_pos hcode).ne')) hplain
      · intro e he
        obtain rfl : x.shortest.top - 1 = e := by simpa [hsome] using he
        exact natAbs_exponent_lt hfmt hx hcode hround

end Floating

/-! ### Reading them back -/

namespace Literal

variable {fmt : Format}

/-- A floating-point number is read from its sign and what comes after it. -/
theorem readFloating_of_ne_nil {text : String} (h : text.toList ≠ []) :
    readFloating fmt text =
      readUnsigned fmt (isNegative text.toList) (unsigned text.toList) := by
  rw [readFloating]
  rcases sign_cases text.toList with hnil | ⟨rest, htext, hsign, hunsigned⟩ |
    ⟨rest, htext, hsign, hunsigned⟩ | ⟨c, rest, htext, hminus, hplus, hsign, hunsigned⟩
  · exact absurd hnil h
  · rw [hsign, hunsigned, htext]
    rfl
  · rw [hsign, hunsigned, htext]
    rfl
  · rw [hsign, hunsigned, htext]
    split
    · next h => cases h
    · next h => exact absurd (List.cons.inj h).1 hminus
    · next h => exact absurd (List.cons.inj h).1 hplus
    · rfl

/-- The sign that is written is the one that is read. -/
theorem readFloating_signText {text : String} {x : Floating fmt} {c : Char} {rest : List Char}
    (htext : text.toList = x.signText ++ c :: rest) (hminus : c ≠ '-') (hplus : c ≠ '+') :
    readFloating fmt text = readUnsigned fmt x.negative (c :: rest) := by
  have hne : text.toList ≠ [] := by simp [htext]
  rw [readFloating_of_ne_nil hne, htext, Floating.signText]
  cases x.negative with
  | true => rfl
  | false => simp [isNegative, unsigned, hminus, hplus]

end Literal

namespace Floating

variable {fmt : Format}

/-- **A finite number is a sign and a numeral, and is read back.** -/
theorem exists_text_of_isFinite (hfmt : fmt.Legible) {x : Floating fmt} (hx : x.IsFinite) :
    ∃ n : Numeral, n.Shows x.magnitude ∧ (Layout.slot.text x).toList = x.signText ++ n.text ∧
      Literal.readFloating fmt (Layout.slot.text x) = .ok x := by
  obtain ⟨n, htext, hshows, hround, hexponent⟩ := exists_numeral hfmt hx
  have hwritten : (Layout.slot.text x).toList = x.signText ++ n.text := by
    have hdatum : x.datum = .finite x.negative x.significand x.exponent := if_pos hx
    rw [Layout.text, hdatum, signText, ← htext]
    cases x.negative <;> simp
  refine ⟨n, hshows, hwritten, ?_⟩
  obtain ⟨c, rest, hwhole⟩ := List.exists_cons_of_ne_nil n.whole_ne_nil
  have hc : c.isDigit := n.isDigit c (by simp [hwhole])
  have hcons : n.text = c :: (rest ++ '.' :: (n.fraction ++ Numeral.exponentText n.exponent?)) := by
    rw [Numeral.text, hwhole, List.cons_append]
  rw [hcons] at hwritten
  rw [Literal.readFloating_signText hwritten (by rintro rfl; cases hc) (by rintro rfl; cases hc),
    ← hcons, Literal.readUnsigned, Literal.readNumeral?_text n hexponent]
  show Except.ok (ofDecimal fmt x.negative n.decimal) = .ok x
  rw [ofDecimal_eq hfmt.exponentBits_pos, hround, ofCode_negative_code]

theorem readFloating_of_infinite {x : Floating fmt} (hx : x.code = fmt.infinityCode) :
    Literal.readFloating fmt (Layout.slot.text x) = .ok x := by
  have hwritten : (Layout.slot.text x).toList = x.signText ++ "Infinity".toList := by
    rw [Layout.text, datum, if_neg (by omega), if_pos hx, signText]
    cases x.negative <;> simp [Layout.slot]
  rw [Literal.readFloating_signText hwritten (by decide) (by decide)]
  show Except.ok (infinity fmt x.negative) = .ok x
  rw [infinity, ← hx, ofCode_negative_code]

theorem readFloating_of_isNaN {x : Floating fmt} (hx : x.isNaN = true) :
    Literal.readFloating fmt (Layout.slot.text x) = .ok (nan fmt) := by
  have hcode : fmt.infinityCode < x.code := of_decide_eq_true hx
  have htext : Layout.slot.text x = "NaN" := by
    rw [Layout.text, datum, if_neg (by omega), if_neg (by omega)]
  rw [htext]
  rfl

end Floating

/-! ### Arguments -/

namespace Argument

/-- Arguments of a kind are floating-point numbers, and take what these are written as. -/
structure ReadsFloats {fmt : Format} (kind : String) (slot : Floating fmt → Slot) : Prop where
  /-- The text of a number gives the same bits back, for the zeros and infinities of either sign as
  for any other number. -/
  givesBack : ∀ (heap : Heap) (x : Floating fmt), x.isNaN = false →
    Gives heap (kind ++ ":" ++ heap.slotText (slot x)) (slot x) heap
  /-- The text of a not-a-number gives a not-a-number. -/
  givesNaN : ∀ (heap : Heap) (x : Floating fmt), x.isNaN = true →
    ∃ y : Floating fmt, y.isNaN = true ∧
      Gives heap (kind ++ ":" ++ heap.slotText (slot x)) (slot y) heap
  /-- The text of a finite number is a sign and a numeral in the notation of its magnitude. -/
  looks : ∀ (heap : Heap) (x : Floating fmt), x.IsFinite →
    ∃ n : Numeral, n.Shows x.magnitude ∧ (heap.slotText (slot x)).toList = x.signText ++ n.text

/-- **What makes a kind one of floating-point numbers.**  Its values are read as numbers of a
format, and its slots are written in the layout of one that stands alone. -/
theorem readsFloats_of_readFloating {fmt : Format} (hfmt : fmt.Legible) {kind : String}
    (host : Floating fmt → HostValue) {slot : Floating fmt → Slot}
    (hread : ∀ text, read (kind ++ ":" ++ text) =
      match Literal.readFloating fmt text with
      | .ok x => .ok (host x)
      | .error reason => .error (.invalidValue kind text reason))
    (hslot : ∀ (heap : Heap) x, (host x).toSlot heap = .ok (slot x, heap))
    (htext : ∀ (heap : Heap) x, heap.slotText (slot x) = Layout.slot.text x)
    (hnan : (Floating.nan fmt).isNaN = true) :
    ReadsFloats kind slot := by
  have gives : ∀ (heap : Heap) (x y : Floating fmt),
      Literal.readFloating fmt (Layout.slot.text x) = .ok y →
        Gives heap (kind ++ ":" ++ heap.slotText (slot x)) (slot y) heap := by
    intro heap x y hy
    refine ⟨host y, ?_, hslot heap y⟩
    rw [htext, hread, hy]
  refine ⟨?_, ?_, ?_⟩
  · intro heap x hx
    apply gives
    have hcode : ¬fmt.infinityCode < x.code := of_decide_eq_false hx
    rcases Nat.lt_or_eq_of_le (Nat.not_lt.1 hcode) with hlt | heq
    · obtain ⟨n, -, -, hback⟩ := Floating.exists_text_of_isFinite hfmt hlt
      exact hback
    · exact Floating.readFloating_of_infinite heq
  · intro heap x hx
    exact ⟨Floating.nan fmt, hnan, gives heap x _ (Floating.readFloating_of_isNaN hx)⟩
  · intro heap x hx
    obtain ⟨n, hshows, hwritten, -⟩ := Floating.exists_text_of_isFinite hfmt hx
    exact ⟨n, hshows, by rw [htext, hwritten]⟩

/-- **What a floating-point number is written as reads back.**  Every float and double that is a
number gives its own bits back, and a not-a-number gives one.  A finite number is written without an
exponent if it is zero or its magnitude is at least `10⁻³` and below `10⁷`, and otherwise with one
digit other than zero before the point and an exponent. -/
theorem floats_read_back : ReadsFloats "float" Slot.float ∧ ReadsFloats "double" Slot.double := by
  constructor
  · refine readsFloats_of_readFloating Format.legible_single .float ?_ (fun _ _ => rfl)
      (fun _ _ => rfl) (by decide)
    intro text
    rw [read_append (by decide), readKind]
    cases Literal.readFloating .single text <;> rfl
  · refine readsFloats_of_readFloating Format.legible_double .double ?_ (fun _ _ => rfl)
      (fun _ _ => rfl) (by decide)
    intro text
    rw [read_append (by decide), readKind]
    cases Literal.readFloating .double text <;> rfl

end Argument

end MethodMachine
