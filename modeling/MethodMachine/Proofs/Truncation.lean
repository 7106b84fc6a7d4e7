/-
# Arithmetic on the low bits

Sums, differences, products and the bitwise operators are carried out on ints and on longs apart,
but the low bits of what they give depend on the low bits of their operands alone
(`Combination.setWidth_onBits`).  So it makes no difference when high bits are dropped:

| opcode | low bits | high bits of the result |
| --- | ---: | --- |
| `l2i` | 32 of a long | none, the result is an int |
| `i2b` | 8 of an int | copies of the sign |
| `i2c` | 16 of an int | zeros |
| `i2s` | 16 of an int | copies of the sign |

`l2i` carries arithmetic on longs over to ints (`Opcode.Transports`).  The other three give an int
again, which keeps its low bits when it is narrowed once more, so that operands may be narrowed or
not if the result is (`Opcode.Absorbs`).
-/

import MethodMachine.Proofs.Integers

namespace MethodMachine

namespace Bitwise

variable {w : Nat}

/-- A combination of bit vectors of any length. -/
def onBits : Bitwise → BitVec w → BitVec w → BitVec w
  | and, a, b => a &&& b
  | or, a, b => a ||| b
  | xor, a, b => a ^^^ b

theorem onInt_ofBitVec (operator : Bitwise) (a b : BitVec 32) :
    operator.onInt (.ofBitVec a) (.ofBitVec b) = .ofBitVec (operator.onBits a b) := by
  cases operator <;> rfl

theorem onLong_ofBitVec (operator : Bitwise) (a b : BitVec 64) :
    operator.onLong (.ofBitVec a) (.ofBitVec b) = .ofBitVec (operator.onBits a b) := by
  cases operator <;> rfl

/-- The opcode of an operator on integers of a kind. -/
def opcode : Bitwise → WordKind → Opcode
  | and, .int => 0x7E
  | and, .long => 0x7F
  | or, .int => 0x80
  | or, .long => 0x81
  | xor, .int => 0x82
  | xor, .long => 0x83

theorem ofOpcode_opcode (operator : Bitwise) (kind : WordKind) :
    Encoding.ofOpcode (operator.opcode kind) = .plain (.bitwise kind operator) := by
  cases operator <;> cases kind <;> decide +kernel

theorem computes_opcode (operator : Bitwise) (kind : WordKind) (a b : BitVec kind.bits) :
    (operator.opcode kind).Computes [kind.slot a, kind.slot b]
      (.ok (kind.slot (operator.onBits a b))) := by
  refine Opcode.computes_of_execute (operator.ofOpcode_opcode kind) fun origin f rest hstack => ?_
  cases kind with
  | int =>
    refine (Execution.popAs_popAs_of_cons Slot.asInt Slot.asInt hstack rfl rfl).trans ?_
    rw [operator.onInt_ofBitVec]
    rfl
  | long =>
    refine (Execution.popAs_popAs_of_cons Slot.asLong Slot.asLong hstack rfl rfl).trans ?_
    rw [operator.onLong_ofBitVec]
    rfl

end Bitwise

/-- The operators whose low bits depend on low bits alone. -/
inductive Combination where
  | add
  | sub
  | mul
  | and
  | or
  | xor
deriving DecidableEq

namespace Combination

variable {w : Nat}

/-- A combination of bit vectors of any length. -/
def onBits : Combination → BitVec w → BitVec w → BitVec w
  | add, a, b => a + b
  | sub, a, b => a - b
  | mul, a, b => a * b
  | and, a, b => a &&& b
  | or, a, b => a ||| b
  | xor, a, b => a ^^^ b

/-- The opcode of a combination of integers of a kind. -/
def opcode : Combination → WordKind → Opcode
  | add => Arithmetic.add.opcode
  | sub => Arithmetic.sub.opcode
  | mul => Arithmetic.mul.opcode
  | and => Bitwise.and.opcode
  | or => Bitwise.or.opcode
  | xor => Bitwise.xor.opcode

/-- The name of a combination, without the letter of a kind. -/
def name : Combination → String
  | add => "add"
  | sub => "sub"
  | mul => "mul"
  | and => "and"
  | or => "or"
  | xor => "xor"

theorem name?_opcode (c : Combination) (kind : WordKind) :
    (c.opcode kind).name? = some (kind.letter ++ c.name) := by
  cases c <;> cases kind <;> decide +kernel

theorem computes_opcode (c : Combination) (kind : WordKind) (a b : BitVec kind.bits) :
    (c.opcode kind).Computes [kind.slot a, kind.slot b] (.ok (kind.slot (c.onBits a b))) := by
  cases c with
  | add => exact Arithmetic.add.computes_opcode kind a b
  | sub => exact Arithmetic.sub.computes_opcode kind a b
  | mul => exact Arithmetic.mul.computes_opcode kind a b
  | and => exact Bitwise.and.computes_opcode kind a b
  | or => exact Bitwise.or.computes_opcode kind a b
  | xor => exact Bitwise.xor.computes_opcode kind a b

/-- **The low bits of a combination are the combination of the low bits.** -/
theorem setWidth_onBits (c : Combination) {m : Nat} (h : m ≤ w) (a b : BitVec w) :
    (c.onBits a b).setWidth m = c.onBits (a.setWidth m) (b.setWidth m) := by
  cases c with
  | add => exact BitVec.setWidth_add a b h
  | sub =>
    calc (a - b).setWidth m = (a + -b).setWidth m := by rw [BitVec.sub_eq_add_neg]
      _ = a.setWidth m + -(b.setWidth m) := by
        rw [BitVec.setWidth_add _ _ h, BitVec.setWidth_neg_of_le h]
      _ = a.setWidth m - b.setWidth m := (BitVec.sub_eq_add_neg _ _).symm
  | mul => exact BitVec.setWidth_mul a b h
  | and => exact BitVec.setWidth_and
  | or => exact BitVec.setWidth_or
  | xor => exact BitVec.setWidth_xor

end Combination

/-- Bits that are extended with copies of the sign are not lost. -/
theorem setWidth_signExtend {m w : Nat} (h : m ≤ w) (v : BitVec m) :
    (v.signExtend w).setWidth m = v := by
  apply BitVec.eq_of_toInt_eq
  rw [← BitVec.signExtend_eq_setWidth_of_le _ h, BitVec.toInt_signExtend_eq_toInt_bmod_of_le _ h,
    BitVec.toInt_signExtend_of_le h, BitVec.toInt_bmod_cancel]

namespace WordKind

/-- The opcode that changes the sign of an integer. -/
def negation : WordKind → Opcode
  | int => 0x74
  | long => 0x75

theorem name?_negation (kind : WordKind) :
    kind.negation.name? = some (kind.letter ++ "neg") := by
  cases kind <;> decide +kernel

theorem ofOpcode_negation (kind : WordKind) :
    Encoding.ofOpcode kind.negation = .plain (.negate kind.numericKind) := by
  cases kind <;> decide +kernel

theorem turns_negation (kind : WordKind) (v : BitVec kind.bits) :
    kind.negation.Turns (kind.slot v) (kind.slot (-v)) := by
  refine Opcode.computes_singleton_iff.1 ?_
  refine Opcode.computes_of_execute kind.ofOpcode_negation fun origin f rest hstack => ?_
  cases kind with
  | int => exact Execution.bind_of_ok (Execution.popAs_of_cons Slot.asInt hstack rfl)
  | long => exact Execution.bind_of_ok (Execution.popAs_of_cons Slot.asLong hstack rfl)

end WordKind

namespace Opcode

/-- The opcode that drops the high bits of a long. -/
def longToInt : Opcode := 0x88

/-- The opcode that makes a long of an int. -/
def intToLong : Opcode := 0x85

theorem turns_longToInt (v : BitVec 64) :
    longToInt.Turns (WordKind.long.slot v) (WordKind.int.slot (v.setWidth 32)) := by
  have hop : Encoding.ofOpcode longToInt = .plain (.convert .long .int) := by decide +kernel
  have hlow : (Int64.ofBitVec v).toInt32 = Int32.ofBitVec (v.setWidth 32) :=
    congrArg Int32.ofBitVec (BitVec.signExtend_eq_setWidth_of_le v (by decide))
  refine computes_singleton_iff.1 (computes_of_execute hop fun origin f rest hstack => ?_)
  have hpop : Execution.popNumber .long f = .ok (.long (.ofBitVec v)) { f with stack := rest } :=
    Execution.bind_of_ok (Execution.popAs_of_cons Slot.asLong hstack rfl)
  refine (Execution.bind_of_ok hpop).trans ?_
  rw [Number.toSlot, Number.toInt, hlow]
  rfl

theorem turns_intToLong (v : BitVec 32) :
    intToLong.Turns (WordKind.int.slot v) (WordKind.long.slot (v.signExtend 64)) := by
  have hop : Encoding.ofOpcode intToLong = .plain (.convert .int .long) := by decide +kernel
  refine computes_singleton_iff.1 (computes_of_execute hop fun origin f rest hstack => ?_)
  have hpop : Execution.popNumber .int f = .ok (.int (.ofBitVec v)) { f with stack := rest } :=
    Execution.bind_of_ok (Execution.popAs_of_cons Slot.asInt hstack rfl)
  exact Execution.bind_of_ok hpop

end Opcode

namespace Narrowing

/-- How many bits of an int the narrow type keeps. -/
@[reducible] def bits : Narrowing → Nat
  | byte => 8
  | char => 16
  | short => 16

/-- The int that bits of a narrow type are extended to. -/
def extend : (target : Narrowing) → BitVec target.bits → BitVec 32
  | byte, v => v.signExtend 32
  | char, v => v.setWidth 32
  | short, v => v.signExtend 32

/-- The low bits of an int are kept and extended again. -/
def onBits (target : Narrowing) (v : BitVec 32) : BitVec 32 :=
  target.extend (v.setWidth target.bits)

theorem onInt_ofBitVec (target : Narrowing) (v : BitVec 32) :
    target.onInt (.ofBitVec v) = .ofBitVec (target.onBits v) := by
  cases target with
  | byte =>
    have hlow : v.signExtend 8 = v.setWidth 8 := BitVec.signExtend_eq_setWidth_of_le v (by decide)
    exact congrArg (fun u => Int32.ofBitVec (u.signExtend 32)) hlow
  | char => rfl
  | short =>
    have hlow : v.signExtend 16 = v.setWidth 16 :=
      BitVec.signExtend_eq_setWidth_of_le v (by decide)
    exact congrArg (fun u => Int32.ofBitVec (u.signExtend 32)) hlow

theorem bits_le (target : Narrowing) : target.bits ≤ 32 := by
  cases target <;> decide

theorem setWidth_extend (target : Narrowing) (v : BitVec target.bits) :
    (target.extend v).setWidth target.bits = v := by
  cases target with
  | byte => exact setWidth_signExtend (by decide) v
  | char =>
    show (v.setWidth 32).setWidth 16 = v
    rw [BitVec.setWidth_setWidth_of_le v (by decide), BitVec.setWidth_eq]
  | short => exact setWidth_signExtend (by decide) v

/-- **A combination of narrowed ints is narrowed to what that of the ints is.** -/
theorem onBits_combination (target : Narrowing) (c : Combination) (x y : BitVec 32) :
    target.onBits (c.onBits (target.onBits x) (target.onBits y)) =
      target.onBits (c.onBits x y) := by
  have hkept : ∀ v : BitVec 32, (target.onBits v).setWidth target.bits = v.setWidth target.bits :=
    fun v => target.setWidth_extend _
  have hlow : (c.onBits (target.onBits x) (target.onBits y)).setWidth target.bits =
      (c.onBits x y).setWidth target.bits := by
    rw [c.setWidth_onBits target.bits_le, c.setWidth_onBits target.bits_le, hkept, hkept]
  exact congrArg target.extend hlow

/-- The opcode of a narrowing. -/
def opcode : Narrowing → Opcode
  | byte => 0x91
  | char => 0x92
  | short => 0x93

/-- The name of the opcode of a narrowing. -/
def name : Narrowing → String
  | byte => "i2b"
  | char => "i2c"
  | short => "i2s"

theorem name?_opcode (target : Narrowing) : target.opcode.name? = some target.name := by
  cases target <;> decide +kernel

theorem turns_opcode (target : Narrowing) (v : BitVec 32) :
    target.opcode.Turns (WordKind.int.slot v) (WordKind.int.slot (target.onBits v)) := by
  have hop : Encoding.ofOpcode target.opcode = .plain (.narrow target) := by
    cases target <;> decide +kernel
  have hturns := Opcode.turns_of_narrow target.opcode target (s := WordKind.int.slot v) hop rfl
  rwa [target.onInt_ofBitVec] at hturns

end Narrowing

namespace Opcode

/-- A change of slots takes one opcode over to another: to combine two slots and change the result
is to change the slots and combine what they become. -/
def Transports (change op op' : Opcode) (s t : Slot) : Prop :=
  ∃ s' t' r r', change.Turns s s' ∧ change.Turns t t' ∧ op.Computes [s, t] (.ok r) ∧
    op'.Computes [s', t'] (.ok r') ∧ change.Turns r r'

/-- A change of slots absorbs itself: the result of an opcode is changed to the same slot whether or
not its operands are changed before. -/
def Absorbs (change op : Opcode) (s t : Slot) : Prop :=
  ∃ s' t' r r' u, change.Turns s s' ∧ change.Turns t t' ∧ op.Computes [s, t] (.ok r) ∧
    op.Computes [s', t'] (.ok r') ∧ change.Turns r u ∧ change.Turns r' u

/-- **High bits can be dropped early or late.**  To make an int of what an operator gives on two
longs is to make ints of the longs and use the operator on ints, and so for the change of sign.  An
int that is made a long and an int again is itself.  And where the result of an operator on ints is
narrowed, its operands may be narrowed before. -/
theorem low_bits_are_independent :
    (longToInt.name? = some "l2i" ∧ intToLong.name? = some "i2l" ∧
      (∀ kind : WordKind, kind.negation.name? = some (kind.letter ++ "neg")) ∧
      (∀ target : Narrowing, target.opcode.name? = some target.name) ∧
      ∀ (c : Combination) (kind : WordKind),
        (c.opcode kind).name? = some (kind.letter ++ c.name)) ∧
    (∀ (c : Combination) (a b : Int64),
      longToInt.Transports (c.opcode .long) (c.opcode .int) (.long a) (.long b)) ∧
    (∀ a : Int64, ∃ b x y, WordKind.long.negation.Turns (.long a) b ∧ longToInt.Turns b y ∧
      longToInt.Turns (.long a) x ∧ WordKind.int.negation.Turns x y) ∧
    (∀ x : Int32, ∃ a, intToLong.Turns (.int x) a ∧ longToInt.Turns a (.int x)) ∧
    (∀ (target : Narrowing) (c : Combination) (x y : Int32),
      target.opcode.Absorbs (c.opcode .int) (.int x) (.int y)) := by
  refine ⟨⟨by decide +kernel, by decide +kernel, WordKind.name?_negation,
    Narrowing.name?_opcode, Combination.name?_opcode⟩, ?_, ?_, ?_, ?_⟩
  · intro c a b
    refine ⟨_, _, _, _, turns_longToInt a.toBitVec, turns_longToInt b.toBitVec,
      c.computes_opcode .long a.toBitVec b.toBitVec, c.computes_opcode .int _ _, ?_⟩
    have hresult := turns_longToInt (c.onBits a.toBitVec b.toBitVec)
    rwa [c.setWidth_onBits (by decide)] at hresult
  · intro a
    refine ⟨_, _, _, WordKind.long.turns_negation a.toBitVec, turns_longToInt _,
      turns_longToInt a.toBitVec, ?_⟩
    have hresult := WordKind.int.turns_negation (a.toBitVec.setWidth 32)
    rwa [← BitVec.setWidth_neg_of_le (by decide)] at hresult
  · intro x
    refine ⟨_, turns_intToLong x.toBitVec, ?_⟩
    have hresult := turns_longToInt (x.toBitVec.signExtend 64)
    rwa [setWidth_signExtend (by decide)] at hresult
  · intro target c x y
    refine ⟨_, _, _, _, _, target.turns_opcode x.toBitVec, target.turns_opcode y.toBitVec,
      c.computes_opcode .int x.toBitVec y.toBitVec, c.computes_opcode .int _ _,
      target.turns_opcode _, ?_⟩
    have hresult := target.turns_opcode
      (c.onBits (target.onBits x.toBitVec) (target.onBits y.toBitVec))
    rwa [target.onBits_combination] at hresult

end Opcode

end MethodMachine
