/-
# Division and shifts of ints and longs

An int has 32 bits and a long 64, and the machine does the same to both.  So an integer of either
kind is a bit vector here, and each operator is written once, for bit vectors of any length
(`Arithmetic.onBits`, `Shift.onBits`).  In terms of the numbers that bit vectors stand for in two's
complement, for a dividend `a` on top of a divisor `d`, and for an amount on top of an integer `v`:

| operator | number that the result stands for |
| --- | --- |
| `div` | `a / d` truncated toward zero, wrapped |
| `rem` | `a - d · (a / d)` with that quotient |
| `shl` | `v · 2 ^ k`, wrapped |
| `shr` | `v / 2 ^ k` rounded down |
| `ushr` | `(v mod 2 ^ w) / 2 ^ k` rounded down, wrapped |

Here `w` is the number of bits and `k` the amount modulo `w`, which is not negative even for an
amount that is.  To wrap is to take the congruent number from `-2 ^ (w - 1)` on and below
`2 ^ (w - 1)`.  A quotient is outside that range only if the least integer is divided by `-1`.

What an opcode makes of its operands is said by `Opcode.Computes`, for every frame in which it comes
next and every stack below the operands.
-/

import MethodMachine.Proofs.ArrayAccess
import Mathlib.Algebra.Order.Ring.Int

namespace MethodMachine

namespace Execution

variable {α β : Type} {f : Frame} {s t : Slot} {rest : OperandStack}

/-- Two operands are taken off the stack and given on. -/
theorem popAs_popAs_of_cons (first : Slot → Except Trap α) (second : Slot → Except Trap β) {a : α}
    {b : β} {k : α → β → Execution Unit} (hstack : f.stack = s :: t :: rest)
    (hs : first s = .ok a) (ht : second t = .ok b) :
    (onStack (OperandStack.popAs first) >>= fun x =>
      onStack (OperandStack.popAs second) >>= fun y => k x y) f =
      k a b { f with stack := rest } := by
  have hfirst := popAs_of_cons first hstack hs
  have hsecond := popAs_of_cons second (f := { f with stack := t :: rest }) rfl ht
  exact (bind_of_ok hfirst).trans (bind_of_ok hsecond)

/-- What remains of a frame whose operands are off the stack: the result is pushed, or a trap ends
it there. -/
def settle (outcome : Except Trap Slot) (f : Frame) : EStateM.Result Trap Frame Unit :=
  match outcome with
  | .ok r => .ok () { f with stack := r :: f.stack }
  | .error t => .error t f

theorem settle_inj {o o' : Except Trap Slot} (h : settle o f = settle o' f) : o = o' := by
  cases o with
  | ok r =>
    cases o' with
    | ok r' =>
      have hstack := congrArg (fun result => (left result).stack) h
      have hhead : r = r' := (List.cons.inj hstack).1
      rw [hhead]
    | error t' => cases h
  | error t =>
    cases o' with
    | ok r' => cases h
    | error t' =>
      cases h
      rfl

/-- A value that may be missing is pushed, or else the trap ends the operation. -/
theorem ofExcept_push (x : Except Trap α) (wrap : α → Slot) (f : Frame) :
    (ofExcept x >>= fun a => push (wrap a)) f = settle (x.map wrap) f := by
  cases x <;> rfl

end Execution

namespace Opcode

variable {op : Opcode} {operands : List Slot} {o o' : Except Trap Slot}

/-- An opcode makes a slot or a trap of the operands on top of the stack, wherever it is carried
out.  The operands are gone afterwards, and nothing else changes but for the step that is
counted. -/
def Computes (op : Opcode) (operands : List Slot) (outcome : Except Trap Slot) : Prop :=
  ∀ (f : Frame) (rest : OperandStack), f.status = .running → f.code[f.pc]? = some op →
    f.stack = operands ++ rest →
    Frame.step f =
      Execution.settle outcome { f with pc := f.pc + 1, steps := f.steps + 1, stack := rest }

/-- Turning the slot on top of the stack into another is computing with one operand. -/
theorem computes_singleton_iff {s r : Slot} : op.Computes [s] (.ok r) ↔ op.Turns s r := Iff.rfl

/-- What an opcode without bytes after it computes is what its operation does to the operands. -/
theorem computes_of_execute {operation : Operation} (hop : Encoding.ofOpcode op = .plain operation)
    (h : ∀ origin f rest, f.stack = operands ++ rest →
      Execution.execute origin operation f = Execution.settle o { f with stack := rest }) :
    op.Computes operands o := by
  intro f rest hrunning hcode hstack
  rw [Frame.step_of_decode hrunning (Operation.decode_of_plain hcode hop)]
  exact h _ _ _ hstack

/-- An opcode computes one result only. -/
theorem Computes.unique (h : op.Computes operands o) (h' : op.Computes operands o') : o = o' := by
  -- one frame in which the opcode comes next tells the results apart
  let f : Frame := { Frame.new #[op] 0 #[] with stack := operands }
  have hstack : f.stack = operands ++ [] := (List.append_nil operands).symm
  have hstep := h f [] rfl rfl hstack
  have hstep' := h' f [] rfl rfl hstack
  exact Execution.settle_inj (hstep.symm.trans hstep')

theorem Computes.iff_eq (h : op.Computes operands o) : op.Computes operands o' ↔ o' = o := by
  constructor
  · intro h'
    exact h'.unique h
  · rintro rfl
    exact h

end Opcode

namespace WordKind

/-- How many bits an integer of the kind has. -/
@[reducible] def bits : WordKind → Nat
  | int => 32
  | long => 64

/-- The slot that holds an integer of the kind. -/
def slot : (kind : WordKind) → BitVec kind.bits → Slot
  | int, v => .int (.ofBitVec v)
  | long, v => .long (.ofBitVec v)

/-- The letter that the names of the opcodes of the kind begin with. -/
def letter : WordKind → String
  | int => "i"
  | long => "l"

/-- The kind among all kinds of numbers. -/
def numericKind : WordKind → NumericKind
  | int => .int
  | long => .long

theorem bits_pos (kind : WordKind) : 0 < kind.bits := by
  cases kind <;> decide

end WordKind

namespace Arithmetic

variable {w : Nat}

/-- Arithmetic on bit vectors of any length. -/
def onBits : Arithmetic → BitVec w → BitVec w → Except Trap (BitVec w)
  | add, a, b => .ok (a + b)
  | sub, a, b => .ok (a - b)
  | mul, a, b => .ok (a * b)
  | div, a, b => if b = 0 then .error .divideByZero else .ok (a.sdiv b)
  | rem, a, b => if b = 0 then .error .divideByZero else .ok (a.srem b)

theorem onInt_ofBitVec (operator : Arithmetic) (a b : BitVec 32) :
    operator.onInt (.ofBitVec a) (.ofBitVec b) = (operator.onBits a b).map Int32.ofBitVec := by
  have hzero : Int32.ofBitVec b = 0 ↔ b = 0 := Int32.toBitVec_inj.symm
  cases operator with
  | div | rem =>
    simp only [onInt, onBits, hzero]
    split <;> rfl
  | _ => rfl

theorem onLong_ofBitVec (operator : Arithmetic) (a b : BitVec 64) :
    operator.onLong (.ofBitVec a) (.ofBitVec b) = (operator.onBits a b).map Int64.ofBitVec := by
  have hzero : Int64.ofBitVec b = 0 ↔ b = 0 := Int64.toBitVec_inj.symm
  cases operator with
  | div | rem =>
    simp only [onLong, onBits, hzero]
    split <;> rfl
  | _ => rfl

/-- The opcode of an operator on integers of a kind. -/
def opcode : Arithmetic → WordKind → Opcode
  | add, .int => 0x60
  | add, .long => 0x61
  | sub, .int => 0x64
  | sub, .long => 0x65
  | mul, .int => 0x68
  | mul, .long => 0x69
  | div, .int => 0x6C
  | div, .long => 0x6D
  | rem, .int => 0x70
  | rem, .long => 0x71

/-- The name of an operator, without the letter of a kind. -/
def name : Arithmetic → String
  | add => "add"
  | sub => "sub"
  | mul => "mul"
  | div => "div"
  | rem => "rem"

theorem name?_opcode (operator : Arithmetic) (kind : WordKind) :
    (operator.opcode kind).name? = some (kind.letter ++ operator.name) := by
  cases operator <;> cases kind <;> decide +kernel

theorem ofOpcode_opcode (operator : Arithmetic) (kind : WordKind) :
    Encoding.ofOpcode (operator.opcode kind) = .plain (.arithmetic kind.numericKind operator) := by
  cases operator <;> cases kind <;> decide +kernel

/-- **Arithmetic is carried out on the bits**, with the left operand on top. -/
theorem computes_opcode (operator : Arithmetic) (kind : WordKind) (a b : BitVec kind.bits) :
    (operator.opcode kind).Computes [kind.slot a, kind.slot b]
      ((operator.onBits a b).map kind.slot) := by
  refine Opcode.computes_of_execute (operator.ofOpcode_opcode kind) fun origin f rest hstack => ?_
  cases kind with
  | int =>
    refine (Execution.popAs_popAs_of_cons Slot.asInt Slot.asInt hstack rfl rfl).trans ?_
    rw [Execution.ofExcept_push, operator.onInt_ofBitVec]
    cases operator.onBits a b <;> rfl
  | long =>
    refine (Execution.popAs_popAs_of_cons Slot.asLong Slot.asLong hstack rfl rfl).trans ?_
    rw [Execution.ofExcept_push, operator.onLong_ofBitVec]
    cases operator.onBits a b <;> rfl

end Arithmetic

/-- The law of a division that truncates toward zero: `q` and `r` are the quotient and the remainder
of `a` by `d`. -/
structure TruncatedDivision {w : Nat} (a d q r : BitVec w) : Prop where
  /-- up to wrapping, the quotient and the remainder make up the dividend -/
  recombines : Int.bmod (q.toInt * d.toInt + r.toInt) (2 ^ w) = a.toInt
  remainder_lt : r.toInt.natAbs < d.toInt.natAbs
  remainder_sign : r.toInt = 0 ∨ r.toInt.sign = a.toInt.sign
  truncates : ¬(a.toInt = -2 ^ (w - 1) ∧ d.toInt = -1) → q.toInt = a.toInt.tdiv d.toInt
  /-- the one quotient that does not fit -/
  overflows : a.toInt = -2 ^ (w - 1) → d.toInt = -1 → q.toInt = -2 ^ (w - 1) ∧ r.toInt = 0

namespace TruncatedDivision

variable {w : Nat} {a d : BitVec w}

/-- The operands whose quotient does not fit, by the numbers that they stand for. -/
theorem eq_intMin_and_eq_neg_one_iff (hw : 0 < w) :
    (a = BitVec.intMin w ∧ d = -1#w) ↔ (a.toInt = -2 ^ (w - 1) ∧ d.toInt = -1) := by
  have hleast : (BitVec.intMin w).toInt = -2 ^ (w - 1) := BitVec.toInt_intMin_of_pos hw
  have hminus : (-1#w : BitVec w).toInt = -1 := by
    rw [BitVec.neg_one_eq_allOnes, BitVec.toInt_allOnes, if_pos hw]
  rw [← BitVec.toInt_inj, ← BitVec.toInt_inj, hleast, hminus]

/-- **Quotients and remainders of bit vectors satisfy the law.** -/
theorem of_ne_zero (hw : 0 < w) (hd : d ≠ 0) : TruncatedDivision a d (a.sdiv d) (a.srem d) := by
  have hquotient : (a.sdiv d).toInt = (a.toInt.tdiv d.toInt).bmod (2 ^ w) := BitVec.toInt_sdiv a d
  have hremainder : (a.srem d).toInt = a.toInt.tmod d.toInt := BitVec.toInt_srem a d
  have hdivisor : d.toInt ≠ 0 := fun h => hd (BitVec.toInt_inj.1 (h.trans BitVec.toInt_zero.symm))
  refine ⟨?_, ?_, ?_, ?_, ?_⟩
  -- the quotient is wrapped before the sum is, which makes no difference to the sum
  · calc ((a.sdiv d).toInt * d.toInt + (a.srem d).toInt).bmod (2 ^ w)
        = (a.toInt.tdiv d.toInt * d.toInt + a.toInt.tmod d.toInt).bmod (2 ^ w) := by
          rw [hquotient, hremainder, ← Int.bmod_add_bmod, Int.bmod_mul_bmod, Int.bmod_add_bmod]
      _ = a.toInt := by rw [Int.tdiv_mul_add_tmod, BitVec.toInt_bmod_cancel]
  · rw [hremainder, Int.natAbs_tmod]
    exact Nat.mod_lt _ (Int.natAbs_pos.2 hdivisor)
  · rw [hremainder, ← Int.sign_eq_zero_iff_zero, Int.sign_tmod]
    split
    · exact .inl rfl
    · exact .inr rfl
  · intro hfits
    rw [← eq_intMin_and_eq_neg_one_iff hw, not_and_or] at hfits
    exact BitVec.toInt_sdiv_of_ne_or_ne a d hfits
  · intro ha hminus
    obtain ⟨rfl, rfl⟩ := (eq_intMin_and_eq_neg_one_iff hw).2 ⟨ha, hminus⟩
    rw [BitVec.intMin_sdiv_neg_one, hremainder, hminus, Int.tmod_neg, Int.tmod_one]
    exact ⟨ha, rfl⟩

end TruncatedDivision

/-- **Division truncates toward zero.**  On ints and on longs, with the dividend on top of the
divisor, both opcodes trap if the divisor is zero.  Otherwise both push an integer, and the two
satisfy the law of division, with the remainder on the side of the dividend.  The least integer
divided by `-1` is the least integer again. -/
theorem Arithmetic.division_truncates (kind : WordKind) (a d : BitVec kind.bits) :
    (div.opcode kind).name? = some (kind.letter ++ "div") ∧
    (rem.opcode kind).name? = some (kind.letter ++ "rem") ∧
    (d = 0 →
      (div.opcode kind).Computes [kind.slot a, kind.slot d] (.error .divideByZero) ∧
      (rem.opcode kind).Computes [kind.slot a, kind.slot d] (.error .divideByZero)) ∧
    (d ≠ 0 → ∃ q r,
      (div.opcode kind).Computes [kind.slot a, kind.slot d] (.ok (kind.slot q)) ∧
      (rem.opcode kind).Computes [kind.slot a, kind.slot d] (.ok (kind.slot r)) ∧
      TruncatedDivision a d q r) := by
  have hdiv := computes_opcode div kind a d
  have hrem := computes_opcode rem kind a d
  refine ⟨name?_opcode div kind, name?_opcode rem kind, fun hd => ?_, fun hd => ?_⟩
  · simp only [onBits, if_pos hd] at hdiv hrem
    exact ⟨hdiv, hrem⟩
  · simp only [onBits, if_neg hd] at hdiv hrem
    exact ⟨a.sdiv d, a.srem d, hdiv, hrem, .of_ne_zero kind.bits_pos hd⟩

namespace Shift

variable {w : Nat}

/-- Shifts of bit vectors of any length. -/
def onBits : Shift → BitVec w → Nat → BitVec w
  | left, v, k => v <<< k
  | right, v, k => v.sshiftRight k
  | unsignedRight, v, k => v >>> k

/-- Bits read without a sign are what they stand for modulo `2 ^ w`. -/
theorem natCast_toNat (v : BitVec w) : (v.toNat : Int) = v.toInt % 2 ^ w := by
  have hlt : (v.toNat : Int) < 2 ^ w := by exact_mod_cast v.isLt
  have hpower : (2 ^ w : Int) = ((2 ^ w : Nat) : Int) := by push_cast; rfl
  rw [BitVec.toInt_eq_toNat_bmod, hpower, Int.bmod_emod, ← hpower]
  exact (Int.emod_eq_of_lt (Int.natCast_nonneg _) hlt).symm

theorem toInt_shiftLeft (v : BitVec w) (k : Nat) :
    (v <<< k).toInt = (v.toInt * 2 ^ k).bmod (2 ^ w) := by
  have hpower : ((v.toNat <<< k : Nat) : Int) = v.toNat * 2 ^ k := by
    rw [Nat.shiftLeft_eq]
    push_cast
    rfl
  rw [BitVec.toInt_shiftLeft, hpower, BitVec.toInt_eq_toNat_bmod, Int.bmod_mul_bmod]

theorem toInt_sshiftRight (v : BitVec w) (k : Nat) : (v.sshiftRight k).toInt = v.toInt / 2 ^ k := by
  rw [BitVec.toInt_sshiftRight, Int.shiftRight_eq_div_pow]
  push_cast
  rfl

theorem toInt_ushiftRight (v : BitVec w) (k : Nat) :
    (v >>> k).toInt = (v.toInt % 2 ^ w / 2 ^ k).bmod (2 ^ w) := by
  rw [BitVec.toInt_eq_toNat_bmod, BitVec.toNat_ushiftRight, Nat.shiftRight_eq_div_pow,
    ← natCast_toNat]
  push_cast
  rfl

/-- The amount of a shift to the left, or to the right with copies of the sign: modulo the number of
bits, and never negative. -/
theorem toNat_smod_bits (hpos : 0 < w) (hw : (BitVec.ofNat w w).toInt = w) (amount : BitVec w) :
    (amount.smod (.ofNat w w)).toNat = (amount.toInt % w).toNat := by
  have hsigned : (amount.smod (.ofNat w w)).toInt = amount.toInt % w := by
    rw [BitVec.toInt_smod, hw, Int.fmod_eq_emod_of_nonneg _ (Int.natCast_nonneg w)]
  have hnonneg : 0 ≤ amount.toInt % w := Int.emod_nonneg _ (by omega)
  have hbits : amount.toInt % w < w := Int.emod_lt_of_pos _ (by omega)
  have hpower : (w : Int) < 2 ^ w := by exact_mod_cast Nat.lt_two_pow_self
  have hcast : ((amount.smod (.ofNat w w)).toNat : Int) = amount.toInt % w := by
    rw [natCast_toNat, hsigned]
    exact Int.emod_eq_of_lt hnonneg (by omega)
  omega

/-- The amount of a shift to the right with zeros is read without a sign, which makes no difference
modulo the number of bits. -/
theorem toNat_mod_bits (hw : (w : Int) ∣ 2 ^ w) (amount : BitVec w) :
    amount.toNat % w = (amount.toInt % w).toNat := by
  have hcast : ((amount.toNat % w : Nat) : Int) = amount.toInt % w := by
    rw [Int.natCast_emod, natCast_toNat, Int.emod_emod_of_dvd _ hw]
  omega

theorem onInt_ofBitVec (s : Shift) (v : BitVec 32) (amount : Int32) :
    s.onInt (.ofBitVec v) amount = .ofBitVec (s.onBits v (amount.toInt % 32).toNat) := by
  have hsigned := toNat_smod_bits (w := 32) (by decide) (by decide) amount.toBitVec
  have hunsigned := toNat_mod_bits (w := 32) (by decide) amount.toBitVec
  cases s with
  | left =>
    exact congrArg (fun k => Int32.ofBitVec (v <<< k)) hsigned
  | right =>
    exact congrArg (fun k => Int32.ofBitVec (v.sshiftRight k)) hsigned
  | unsignedRight =>
    exact congrArg (fun k => Int32.ofBitVec (v >>> k)) hunsigned

theorem onLong_ofBitVec (s : Shift) (v : BitVec 64) (amount : Int32) :
    s.onLong (.ofBitVec v) amount = .ofBitVec (s.onBits v (amount.toInt % 64).toNat) := by
  have hsigned := toNat_smod_bits (w := 64) (by decide) (by decide) amount.toInt64.toBitVec
  have hunsigned := toNat_mod_bits (w := 64) (by decide) amount.toInt64.toBitVec
  have hextended : amount.toInt64.toBitVec.toInt = amount.toInt := amount.toInt_toInt64
  rw [hextended] at hsigned hunsigned
  cases s with
  | left =>
    exact congrArg (fun k => Int64.ofBitVec (v <<< k)) hsigned
  | right =>
    exact congrArg (fun k => Int64.ofBitVec (v.sshiftRight k)) hsigned
  | unsignedRight =>
    exact congrArg (fun k => Int64.ofBitVec (v >>> k)) hunsigned

/-- The opcode of a shift of integers of a kind. -/
def opcode : Shift → WordKind → Opcode
  | left, .int => 0x78
  | left, .long => 0x79
  | right, .int => 0x7A
  | right, .long => 0x7B
  | unsignedRight, .int => 0x7C
  | unsignedRight, .long => 0x7D

/-- The name of a shift, without the letter of a kind. -/
def name : Shift → String
  | left => "shl"
  | right => "shr"
  | unsignedRight => "ushr"

theorem name?_opcode (s : Shift) (kind : WordKind) :
    (s.opcode kind).name? = some (kind.letter ++ s.name) := by
  cases s <;> cases kind <;> decide +kernel

theorem ofOpcode_opcode (s : Shift) (kind : WordKind) :
    Encoding.ofOpcode (s.opcode kind) = .plain (.shift kind s) := by
  cases s <;> cases kind <;> decide +kernel

/-- **A shift moves an integer by the amount on top of it, modulo the number of its bits.** -/
theorem computes_opcode (s : Shift) (kind : WordKind) (v : BitVec kind.bits) (amount : Int32) :
    (s.opcode kind).Computes [.int amount, kind.slot v]
      (.ok (kind.slot (s.onBits v (amount.toInt % kind.bits).toNat))) := by
  refine Opcode.computes_of_execute (s.ofOpcode_opcode kind) fun origin f rest hstack => ?_
  cases kind with
  | int =>
    refine (Execution.popAs_popAs_of_cons Slot.asInt Slot.asInt hstack rfl rfl).trans ?_
    rw [s.onInt_ofBitVec]
    rfl
  | long =>
    refine (Execution.popAs_popAs_of_cons Slot.asInt Slot.asLong hstack rfl rfl).trans ?_
    rw [s.onLong_ofBitVec]
    rfl

/-- **Shifts are multiplications and divisions by powers of two.**  With `k` the amount modulo the
number of bits, a shift to the left multiplies by `2 ^ k` and wraps; a shift to the right divides by
`2 ^ k` and rounds down; a shift to the right with zeros does so to the bits read without a sign,
and what it gives is not negative unless nothing is shifted.  Amounts that are congruent modulo the
number of bits are as good as equal. -/
theorem shifts_scale_by_powers_of_two (kind : WordKind) (v : BitVec kind.bits) (amount : Int32) :
    let k := (amount.toInt % kind.bits).toNat
    (∀ s : Shift, (s.opcode kind).name? = some (kind.letter ++ s.name)) ∧
    ((k : Int) = amount.toInt % kind.bits ∧ k < kind.bits) ∧
    (∃ r, (left.opcode kind).Computes [.int amount, kind.slot v] (.ok (kind.slot r)) ∧
      r.toInt = (v.toInt * 2 ^ k).bmod (2 ^ kind.bits)) ∧
    (∃ r, (right.opcode kind).Computes [.int amount, kind.slot v] (.ok (kind.slot r)) ∧
      r.toInt = v.toInt / 2 ^ k) ∧
    (∃ r, (unsignedRight.opcode kind).Computes [.int amount, kind.slot v] (.ok (kind.slot r)) ∧
      r.toInt = (v.toInt % 2 ^ kind.bits / 2 ^ k).bmod (2 ^ kind.bits) ∧
      (0 < k → 0 ≤ r.toInt) ∧ (k = 0 → r = v)) ∧
    ∀ (s : Shift) (other : Int32) (o : Except Trap Slot),
      other.toInt % kind.bits = amount.toInt % kind.bits →
      ((s.opcode kind).Computes [.int other, kind.slot v] o ↔
        (s.opcode kind).Computes [.int amount, kind.slot v] o) := by
  intro k
  have hpos := kind.bits_pos
  have hnonneg : 0 ≤ amount.toInt % kind.bits := Int.emod_nonneg _ (by omega)
  have hlt : amount.toInt % kind.bits < kind.bits := Int.emod_lt_of_pos _ (by omega)
  refine ⟨fun s => s.name?_opcode kind, by omega, ⟨_, left.computes_opcode kind v amount, ?_⟩,
    ⟨_, right.computes_opcode kind v amount, ?_⟩,
    ⟨_, unsignedRight.computes_opcode kind v amount, ?_, ?_, ?_⟩, ?_⟩
  · exact toInt_shiftLeft v k
  · exact toInt_sshiftRight v k
  · exact toInt_ushiftRight v k
  · intro hk
    show 0 ≤ (v >>> k).toInt
    rw [BitVec.toInt_ushiftRight_of_lt hk]
    exact Int.natCast_nonneg _
  · intro hk
    show v >>> k = v
    rw [hk, BitVec.ushiftRight_zero]
  · intro s other o hcongruent
    have hamount := s.computes_opcode kind v amount
    have hother := s.computes_opcode kind v other
    rw [hamount.iff_eq, hother.iff_eq, hcongruent]

/-- A shift to the right rounds down where a division truncates. -/
example : (right.onBits (-7#32) 1).toInt = -4 ∧ ((-7#32).sdiv 2).toInt = -3 := by decide

end Shift

end MethodMachine
