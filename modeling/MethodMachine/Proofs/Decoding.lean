/-
# What an instruction stands for

Decoding fills the operands of an instruction into what its opcode announces.  `Encoding.Allows`
says which operations an encoding stands for, whatever bytes follow the opcode, and
`Operation.shape` is what is left of an operation when the numbers in those bytes are forgotten.  The
opcode alone tells the shape (`shape?_of_decode`), where the opcode of a `wide` is the one that it modifies
(`Code.opcodeAt?`).  So what depends only on the shape of an operation is a table over the 256
opcodes.

Where nothing is decoded, the code ends too early or the instruction is refused, and no other trap
is raised (`isEarly_of_decode`).
-/

import MethodMachine.Proofs.DecoderAgreement

namespace MethodMachine

namespace Code

/-- The opcode of the instruction at an address; for a `wide`, the opcode that it modifies. -/
def opcodeAt? (code : Code) (address : Nat) : Option Opcode :=
  if code[address]? = some 0xC4 then code[address + 1]? else code[address]?

end Code

namespace Operation

/-- The operation with the numbers forgotten that are read from its operands. -/
def shape : Operation → Operation
  | push (.int _) => push (.int 0)
  | load kind _ => load kind 0
  | store kind _ => store kind 0
  | increment _ _ => increment 0 0
  | newArray _ => newArray .int
  | branch b _ => branch b 0
  | returnFromSubroutine _ => returnFromSubroutine 0
  | operation => operation

end Operation

namespace Encoding

variable {e : Encoding} {operation : Operation}

/-- An encoding stands for an operation, with some operands. -/
def Allows : Encoding → Operation → Prop
  | plain operation, o => o = operation
  | constantByte, o => ∃ v, o = .push (.int v)
  | constantShort, o => ∃ v, o = .push (.int v)
  | indexed access, o => ∃ index, o = access.operation index
  | increment, o => ∃ index delta, o = .increment index delta
  | arrayType, o => ∃ element, o = .newArray element
  | branch b, o => ∃ target, o = .branch b target
  | wideBranch b, o => ∃ target, o = .branch b target
  | widened, _ => False
  | reserved, _ => False
  | unsupported, _ => False

/-- The shape of the operations that an encoding stands for, if there are any. -/
def shape? : Encoding → Option Operation
  | plain operation => some operation.shape
  | constantByte => some (.push (.int 0))
  | constantShort => some (.push (.int 0))
  | indexed access => some (access.operation 0)
  | increment => some (.increment 0 0)
  | arrayType => some (.newArray .int)
  | branch b => some (.branch b 0)
  | wideBranch b => some (.branch b 0)
  | widened => none
  | reserved => none
  | unsupported => none

/-- An encoding stands for operations of one shape. -/
theorem Allows.shape? (h : e.Allows operation) : e.shape? = some operation.shape := by
  cases e with
  | plain o =>
    cases h
    rfl
  | indexed access =>
    obtain ⟨index, rfl⟩ := h
    cases access <;> rfl
  | increment =>
    obtain ⟨index, delta, rfl⟩ := h
    rfl
  | widened | reserved | unsupported => cases h
  | _ =>
    obtain ⟨operand, rfl⟩ := h
    rfl

end Encoding

namespace Operation

variable {code : Code} {address next : Nat} {op : Opcode} {e : Encoding} {operation : Operation}

theorem exists_of_bind {α β : Type} {x : Except Trap α} {k : α → Except Trap β} {b : β}
    (h : x >>= k = .ok b) : ∃ a, x = .ok a ∧ k a = .ok b := by
  cases x with
  | ok a => exact ⟨a, rfl, h⟩
  | error t => cases h

theorem operand_eq_ok {start count n : Nat} (h : operand code start count = .ok n) :
    start + count ≤ code.size ∧ n = code.unsigned start count := by
  unfold operand at h
  split at h
  · rename_i hle
    cases h
    exact ⟨hle, rfl⟩
  · cases h

/-- What a `wide` is decoded to is what the opcode after it stands for. -/
theorem allows_decodeWidened (h : decodeWidened code address = .ok (operation, next)) :
    ∃ inner : Opcode, code[address + 1]? = some inner ∧
      (Encoding.ofOpcode inner).Allows operation := by
  obtain ⟨n, hn, h⟩ := exists_of_bind h
  obtain ⟨index, -, h⟩ := exists_of_bind h
  obtain ⟨hle, rfl⟩ := operand_eq_ok hn
  have hinner : code[address + 1]? = some code[address + 1] := Array.getElem?_eq_getElem (by omega)
  rw [ofNat_unsigned_one hinner] at h
  refine ⟨_, hinner, ?_⟩
  dsimp only at h
  split at h
  · rename_i access haccess
    cases h
    rw [haccess]
    exact ⟨index, rfl⟩
  · rename_i hincrement
    obtain ⟨delta, -, h⟩ := exists_of_bind h
    cases h
    rw [hincrement]
    exact ⟨index, _, rfl⟩
  · cases h

theorem allows_decodeAs (he : e ≠ .widened)
    (h : decodeAs code address op e = .ok (operation, next)) : e.Allows operation := by
  cases e with
  | plain operation =>
    cases h
    rfl
  | constantByte | constantShort =>
    obtain ⟨v, -, h⟩ := exists_of_bind h
    cases h
    exact ⟨_, rfl⟩
  | indexed access =>
    obtain ⟨index, -, h⟩ := exists_of_bind h
    cases h
    exact ⟨index, rfl⟩
  | increment =>
    obtain ⟨index, -, h⟩ := exists_of_bind h
    obtain ⟨delta, -, h⟩ := exists_of_bind h
    cases h
    exact ⟨index, _, rfl⟩
  | arrayType =>
    obtain ⟨type, -, h⟩ := exists_of_bind h
    dsimp only at h
    split at h
    · cases h
      exact ⟨_, rfl⟩
    · cases h
  | branch b | wideBranch b =>
    obtain ⟨distance, -, h⟩ := exists_of_bind h
    cases h
    exact ⟨_, rfl⟩
  | widened => exact absurd rfl he
  | reserved => cases h
  | unsupported => cases h

theorem ofOpcode_eq_widened_iff (op : Opcode) : Encoding.ofOpcode op = .widened ↔ op = 0xC4 := by
  revert op
  refine Opcode.forall_of_fin ?_
  decide +kernel

/-- **What is decoded is what the opcode stands for.** -/
theorem allows_decode (h : decode code address = .ok (operation, next)) :
    ∃ op, code.opcodeAt? address = some op ∧ (Encoding.ofOpcode op).Allows operation := by
  unfold decode at h
  split at h
  · cases h
  · rename_i op hop
    by_cases hwide : op = 0xC4
    · subst hwide
      obtain ⟨inner, hinner, hallows⟩ := allows_decodeWidened h
      refine ⟨inner, ?_, hallows⟩
      rw [Code.opcodeAt?, if_pos hop, hinner]
    · have hne : Encoding.ofOpcode op ≠ .widened := mt (ofOpcode_eq_widened_iff op).1 hwide
      refine ⟨op, ?_, allows_decodeAs hne h⟩
      rw [Code.opcodeAt?, if_neg (by rw [hop]; exact mt Option.some.inj hwide), hop]

/-- **The opcode alone tells the shape of an instruction.** -/
theorem shape?_of_decode (h : decode code address = .ok (operation, next)) :
    ∃ op, code.opcodeAt? address = some op ∧
      (Encoding.ofOpcode op).shape? = some operation.shape := by
  obtain ⟨op, hop, hallows⟩ := allows_decode h
  exact ⟨op, hop, hallows.shape?⟩

end Operation

namespace Trap

/-- Whether the trap stops a step before its operation is carried out. -/
def isEarly : Trap → Bool
  | alreadyReturned => true
  | codeOutOfBounds _ => true
  | unknownOpcode _ => true
  | reservedOpcode _ => true
  | unknownArrayType _ => true
  | _ => false

/-- A result that is a value, or else an early trap. -/
def Early {α : Type} : Except Trap α → Prop
  | .ok _ => True
  | .error t => t.isEarly = true

theorem Early.bind {α β : Type} {x : Except Trap α} {k : α → Except Trap β} (hx : Early x)
    (hk : ∀ a, Early (k a)) : Early (x >>= k) := by
  cases x with
  | ok a => exact hk a
  | error t => exact hx

end Trap

namespace Operation

open Trap (Early)

variable {code : Code} {address : Nat}

theorem early_operand (code : Code) (start count : Nat) : Early (operand code start count) := by
  unfold operand
  split
  · trivial
  · rfl

theorem early_signedOperand (code : Code) (start count : Nat) :
    Early (signedOperand code start count) := by
  unfold signedOperand
  split
  · trivial
  · rfl

theorem early_decodeWidened (code : Code) (address : Nat) : Early (decodeWidened code address) := by
  refine (early_operand ..).bind fun inner => (early_operand ..).bind fun index => ?_
  dsimp only
  split
  · trivial
  · exact (early_signedOperand ..).bind fun _ => trivial
  · rfl

theorem early_decodeAs (code : Code) (address : Nat) (op : Opcode) (e : Encoding) :
    Early (decodeAs code address op e) := by
  cases e with
  | plain operation => trivial
  | constantByte | constantShort | branch b | wideBranch b =>
    exact (early_signedOperand ..).bind fun _ => trivial
  | indexed access => exact (early_operand ..).bind fun _ => trivial
  | increment =>
    exact (early_operand ..).bind fun _ => (early_signedOperand ..).bind fun _ => trivial
  | arrayType =>
    refine (early_operand ..).bind fun type => ?_
    dsimp only
    split
    · trivial
    · rfl
  | widened => exact early_decodeWidened code address
  | reserved => rfl
  | unsupported => rfl

/-- **Decoding raises only early traps.** -/
theorem isEarly_of_decode {t : Trap} (h : decode code address = .error t) : t.isEarly = true := by
  unfold decode at h
  split at h
  · cases h
    rfl
  · rename_i op hop
    have hearly := early_decodeAs code address op (Encoding.ofOpcode op)
    rw [h] at hearly
    exact hearly

end Operation

end MethodMachine
