/-
# Binary floating-point formats

The numbers of jemu's float and double slots (specification, 3).

A number of a format is a word of `1 + w + p` bits: a sign, `w` exponent bits and `p` fraction bits.

| format | `w` | `p` | least exponent |
| --- | ---: | ---: | ---: |
| single | 8 | 23 | -149 |
| double | 11 | 52 | -1074 |

The bits below the sign, read as a number, are the *code* of the magnitude.  With `e` the exponent
field and `f` the fraction field of a code:

| code | magnitude |
| --- | --- |
| `e = 0` | `f · 2 ^ least` |
| `0 < e < 2 ^ w - 1` | `(2 ^ p + f) · 2 ^ (least + e - 1)` |
| `e = 2 ^ w - 1`, `f = 0` | infinity |
| `e = 2 ^ w - 1`, `f ≠ 0` | not a number |

Codes of finite magnitudes stand in the order of the magnitudes, and the code after the largest
finite one is infinity.
-/

namespace MethodMachine

/-- A binary interchange format, given by the sizes of its two fields. -/
structure Format where
  exponentBits : Nat
  fractionBits : Nat
deriving DecidableEq

namespace Format

/-- The 32-bit format. -/
def single : Format := ⟨8, 23⟩

/-- The 64-bit format. -/
def double : Format := ⟨11, 52⟩

/-- Bits below the sign. -/
def codeBits (fmt : Format) : Nat := fmt.exponentBits + fmt.fractionBits

/-- All bits of a word. -/
def width (fmt : Format) : Nat := fmt.codeBits + 1

/-- The code of infinity: every exponent bit set and no fraction bit. -/
def infinityCode (fmt : Format) : Nat := (1 <<< fmt.exponentBits - 1) <<< fmt.fractionBits

/-- The exponent of the last place of the smallest magnitudes. -/
def leastExponent (fmt : Format) : Int :=
  2 - (1 <<< (fmt.exponentBits - 1) : Nat) - fmt.fractionBits

end Format

/-- A floating-point number, held as its bit pattern. -/
structure Floating (fmt : Format) where
  bits : BitVec fmt.width
deriving DecidableEq

/-- A 32-bit floating-point number. -/
abbrev Single := Floating Format.single

/-- A 64-bit floating-point number. -/
abbrev Double := Floating Format.double

namespace Floating

/-- What a bit pattern stands for.  A finite number is `± significand · 2 ^ exponent`. -/
inductive Datum where
  | nan
  | infinite (negative : Bool)
  | finite (negative : Bool) (significand : Nat) (exponent : Int)
deriving DecidableEq

/-- The number with the given sign and the given code, of which the low bits count. -/
def ofCode (fmt : Format) (negative : Bool) (code : Nat) : Floating fmt :=
  ⟨BitVec.ofNat fmt.width (code + if negative then 1 <<< fmt.codeBits else 0)⟩

/-- The zero of either sign. -/
def zero (fmt : Format) (negative : Bool) : Floating fmt := ofCode fmt negative 0

/-- The infinity of either sign. -/
def infinity (fmt : Format) (negative : Bool) : Floating fmt :=
  ofCode fmt negative fmt.infinityCode

/-- The quiet not-a-number that operations produce. -/
def nan (fmt : Format) : Floating fmt :=
  ofCode fmt false (fmt.infinityCode + 1 <<< (fmt.fractionBits - 1))

variable {fmt : Format}

/-- The sign bit. -/
def negative (x : Floating fmt) : Bool := 1 <<< fmt.codeBits ≤ x.bits.toNat

/-- The bits below the sign, read as a number. -/
def code (x : Floating fmt) : Nat := x.bits.toNat % 1 <<< fmt.codeBits

/-- Whether the pattern is not a number: its code lies above infinity's. -/
def isNaN (x : Floating fmt) : Bool := fmt.infinityCode < x.code

/-- The integer `m` of a finite magnitude `m · 2 ^ exponent`. -/
def significand (x : Floating fmt) : Nat :=
  if x.code < 1 <<< fmt.fractionBits then x.code
  else 1 <<< fmt.fractionBits + x.code % 1 <<< fmt.fractionBits

/-- The exponent of the last place of a finite magnitude. -/
def exponent (x : Floating fmt) : Int :=
  fmt.leastExponent + (x.code >>> fmt.fractionBits - 1 : Nat)

/-- The view of a pattern by cases. -/
def datum (x : Floating fmt) : Datum :=
  if x.code < fmt.infinityCode then .finite x.negative x.significand x.exponent
  else if x.code = fmt.infinityCode then .infinite x.negative
  else .nan

/-- Sign and code determine a number. -/
theorem ofCode_negative_code (x : Floating fmt) : ofCode fmt x.negative x.code = x := by
  obtain ⟨b⟩ := x
  have hlt : b.toNat < 1 <<< fmt.codeBits * 2 := by
    rw [Nat.one_shiftLeft]
    exact b.isLt
  have hcode : b.toNat % 1 <<< fmt.codeBits
      + (if 1 <<< fmt.codeBits ≤ b.toNat then 1 <<< fmt.codeBits else 0) = b.toNat := by
    split
    · rw [Nat.mod_eq_sub_mod ‹_›, Nat.mod_eq_of_lt (by omega)]
      omega
    · rw [Nat.mod_eq_of_lt (by omega), Nat.add_zero]
  simp only [ofCode, negative, code, decide_eq_true_eq, hcode, BitVec.ofNat_toNat,
    BitVec.setWidth_eq]

end Floating

end MethodMachine
