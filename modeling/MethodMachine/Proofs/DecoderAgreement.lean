/-
# The disassembler and the machine read the same instructions

Two decoders read the same bytes.  `Code.operandCount` measures an instruction by the layout of its
opcode, `Operation.decode` reads its operands one by one.  They meet in `Encoding.layout?`, the
layout of the operands that an encoding reads:

| encoding | layout |
| --- | --- |
| plain, reserved | no byte |
| constant byte, indexed, array type | one byte |
| constant short, increment, branch | two bytes |
| wide branch | four bytes |
| widened | three bytes or five |
| unsupported | none of its own |

The two tables of opcodes agree line by line (`layout?_eq_of_ofOpcode`), so a measured instruction
is decoded to its end or refused for what it is (`spans_decode`), a decoded one is measured to its
end (`operandCount_of_decode`), and a byte that is no opcode is unknown to both
(`decode_of_unknownOpcode`).  The target of a branch is the same number in both
(`decode_of_isBranch`, `target?_of_isBranch`).
-/

import MethodMachine.Instruction
import MethodMachine.Operation.Decoding

namespace MethodMachine

namespace Opcode

/-- A property of opcodes holds of all of them if it holds of the 256 bytes. -/
theorem forall_of_fin {p : Opcode → Prop} (h : ∀ n : Fin 256, p (.ofNat n)) (op : Opcode) :
    p op := by
  simpa using h ⟨op.toNat, op.toNat_lt⟩

end Opcode

namespace Encoding

/-- The layout of the operands that an encoding reads. -/
def layout? : Encoding → Option OperandLayout
  | plain _ => some (.fixed 0)
  | constantByte => some (.fixed 1)
  | constantShort => some (.fixed 2)
  | indexed _ => some (.fixed 1)
  | increment => some (.fixed 2)
  | arrayType => some (.fixed 1)
  | branch _ => some (.fixed 2)
  | wideBranch _ => some (.fixed 4)
  | widened => some .widened
  | reserved => some (.fixed 0)
  | unsupported => none

/-- Whether an encoding reads the distance of a branch. -/
def isBranch : Encoding → Bool
  | branch _ => true
  | wideBranch _ => true
  | _ => false

/-- **The two tables of opcodes agree.**  What the machine reads after an opcode is what the layout
of the opcode prescribes. -/
theorem layout?_eq_of_ofOpcode (op : Opcode) :
    ofOpcode op = unsupported ∨ op.layout? = (ofOpcode op).layout? := by
  revert op
  refine Opcode.forall_of_fin ?_
  decide +kernel

/-- An opcode that is not defined is not supported. -/
theorem ofOpcode_of_layout?_eq_none (op : Opcode) :
    op.layout? = none → ofOpcode op = unsupported := by
  revert op
  refine Opcode.forall_of_fin ?_
  decide +kernel

/-- The branches of the machine are those of the opcode table. -/
theorem isBranch_ofOpcode (op : Opcode) : (ofOpcode op).isBranch = op.isBranch := by
  revert op
  refine Opcode.forall_of_fin ?_
  decide +kernel

/-- Only `iinc` increments a local. -/
theorem ofOpcode_eq_increment_iff (op : Opcode) : ofOpcode op = increment ↔ op = 0x84 := by
  revert op
  refine Opcode.forall_of_fin ?_
  decide +kernel

/-- An encoding reads a fixed number of bytes, unless it is widened. -/
theorem layout?_eq_some {e : Encoding} {layout : OperandLayout} (h : e.layout? = some layout) :
    (∃ count, layout = .fixed count) ∨ e = widened ∧ layout = .widened := by
  cases e <;> cases h <;> simp

end Encoding

namespace Trap

/-- Whether the trap refuses an instruction for what it is, wherever the code ends. -/
def isRefusal : Trap → Bool
  | unknownOpcode _ => true
  | reservedOpcode _ => true
  | unknownArrayType _ => true
  | _ => false

end Trap

namespace Code

variable {code : Code} {offset : Nat}

/-- There is an operand count where the opcode is defined, the code tells the length, and the
operands are in the code. -/
theorem operandCount_eq_ok_iff {count : Nat} :
    code.operandCount offset = .ok count ↔
      ∃ (op : Opcode) (layout : OperandLayout), code[offset]? = some op ∧ op.layout? = some layout ∧
        code.measure? offset layout = some count ∧ offset + 1 + count ≤ code.size := by
  unfold operandCount
  constructor
  · intro h
    split at h <;> try contradiction
    rename_i op hop
    split at h <;> try contradiction
    rename_i layout hlayout
    split at h <;> try contradiction
    rename_i n hn
    split at h <;> try contradiction
    rename_i hle
    obtain rfl := Except.ok.inj h
    exact ⟨op, layout, hop, hlayout, hn, hle⟩
  · rintro ⟨op, layout, hop, hlayout, hn, hle⟩
    simp only [hop, hlayout, hn, hle, if_true]

/-- A measured instruction lies within the code. -/
theorem le_size_of_operandCount {count : Nat} (h : code.operandCount offset = .ok count) :
    offset + 1 + count ≤ code.size := by
  obtain ⟨op, layout, -, -, -, hle⟩ := operandCount_eq_ok_iff.1 h
  exact hle

/-- An opcode is reported as unknown where it stands and has no layout. -/
theorem operandCount_eq_unknownOpcode {o : Nat} {op : Opcode}
    (h : code.operandCount offset = .error (.unknownOpcode o op)) :
    o = offset ∧ code[offset]? = some op ∧ op.layout? = none := by
  unfold operandCount at h
  split at h
  · simp at h
  · rename_i op' hop
    split at h
    · rename_i hlayout
      obtain ⟨rfl, rfl⟩ := DisassemblyError.unknownOpcode.inj (Except.error.inj h)
      exact ⟨rfl, hop, hlayout⟩
    · split at h
      · simp at h
      · split at h <;> simp at h

end Code

namespace Operation

variable {code : Code} {address : Nat} {op : Opcode}

/-- An operand that is in the code is read. -/
theorem operand_of_le {start count : Nat} (h : start + count ≤ code.size) :
    operand code start count = .ok (code.unsigned start count) := if_pos h

/-- An operand that the code ends before is a trap. -/
theorem operand_of_lt {start count : Nat} (h : code.size < start + count) :
    operand code start count = .error (.codeOutOfBounds code.size) := if_neg (by omega)

/-- A signed operand that is in the code is read. -/
theorem signedOperand_of_le {start count : Nat} (h : start + count ≤ code.size) :
    signedOperand code start count = .ok (code.signed start count) := if_pos h

/-- A signed operand that the code ends before is a trap. -/
theorem signedOperand_of_lt {start count : Nat} (h : code.size < start + count) :
    signedOperand code start count = .error (.codeOutOfBounds code.size) := if_neg (by omega)

/-- A result of decoding that ends at `next`, unless the instruction is refused. -/
def Spans (result : Except Trap (Operation × Nat)) (next : Nat) : Prop :=
  (∃ operation, result = .ok (operation, next)) ∨ ∃ t, result = .error t ∧ t.isRefusal = true

/-- Operands that are all there are read to their end. -/
theorem spans_decodeAs {e : Encoding} {count : Nat} (he : e.layout? = some (.fixed count))
    (h : address + 1 + count ≤ code.size) :
    Spans (decodeAs code address op e) (address + 1 + count) := by
  cases e with
  | plain operation =>
    cases he
    exact .inl ⟨operation, rfl⟩
  | constantByte =>
    cases he
    rw [decodeAs, signedOperand_of_le (by omega)]
    exact .inl ⟨_, rfl⟩
  | constantShort =>
    cases he
    rw [decodeAs, signedOperand_of_le (by omega)]
    exact .inl ⟨_, rfl⟩
  | indexed access =>
    cases he
    rw [decodeAs, operand_of_le (by omega)]
    exact .inl ⟨_, rfl⟩
  | increment =>
    cases he
    rw [decodeAs, operand_of_le (by omega), signedOperand_of_le (by omega)]
    exact .inl ⟨_, rfl⟩
  | arrayType =>
    cases he
    rw [decodeAs, operand_of_le (by omega)]
    simp only [bind, Except.bind]
    split
    · exact .inl ⟨_, rfl⟩
    · exact .inr ⟨_, rfl, rfl⟩
  | branch b =>
    cases he
    rw [decodeAs, signedOperand_of_le (by omega)]
    exact .inl ⟨_, rfl⟩
  | wideBranch b =>
    cases he
    rw [decodeAs, signedOperand_of_le (by omega)]
    exact .inl ⟨_, rfl⟩
  | widened => cases he
  | reserved =>
    cases he
    exact .inr ⟨_, rfl, rfl⟩
  | unsupported => cases he

/-- If the code ends before the operands do, that is the trap, whatever they would have been. -/
theorem decodeAs_of_lt {e : Encoding} {count : Nat} (he : e.layout? = some (.fixed count))
    (ha : address < code.size) (h : code.size < address + 1 + count) :
    decodeAs code address op e = .error (.codeOutOfBounds code.size) := by
  cases e with
  | plain operation => cases he; omega
  | constantByte => cases he; rw [decodeAs, signedOperand_of_lt (by omega)]; rfl
  | constantShort => cases he; rw [decodeAs, signedOperand_of_lt (by omega)]; rfl
  | indexed access => cases he; rw [decodeAs, operand_of_lt (by omega)]; rfl
  | increment =>
    cases he
    -- the code may end before the index or between the index and the number
    by_cases hindex : address + 1 + 1 ≤ code.size
    · rw [decodeAs, operand_of_le hindex, signedOperand_of_lt (by omega)]
      rfl
    · rw [decodeAs, operand_of_lt (by omega)]
      rfl
  | arrayType => cases he; rw [decodeAs, operand_of_lt (by omega)]; rfl
  | branch b => cases he; rw [decodeAs, signedOperand_of_lt (by omega)]; rfl
  | wideBranch b => cases he; rw [decodeAs, signedOperand_of_lt (by omega)]; rfl
  | widened => cases he
  | reserved => cases he; omega
  | unsupported => cases he

/-- The opcode that a `wide` modifies is the byte after it. -/
theorem ofNat_unsigned_one {inner : Opcode} (h : code[address]? = some inner) :
    UInt8.ofNat (code.unsigned address 1) = inner := by
  simp [Code.unsigned, h]

/-- How long the operands of `wide` are depends on the opcode after it. -/
theorem measure?_widened {count : Nat} (h : code.measure? address .widened = some count) :
    ∃ inner : Opcode, code[address + 1]? = some inner ∧ count = if inner = 0x84 then 5 else 3 := by
  obtain ⟨inner, hinner, rfl⟩ := Option.map_eq_some_iff.1 h
  exact ⟨inner, hinner, rfl⟩

/-- Operands of `wide` that are all there are read to their end. -/
theorem spans_decodeWidened {count : Nat} (hm : code.measure? address .widened = some count)
    (h : address + 1 + count ≤ code.size) :
    Spans (decodeWidened code address) (address + 1 + count) := by
  obtain ⟨inner, hinner, rfl⟩ := measure?_widened hm
  have hindex : address + 1 + 3 ≤ code.size := by split at h <;> omega
  simp only [decodeWidened, operand_of_le (show address + 1 + 1 ≤ code.size by omega),
    operand_of_le (show address + 2 + 2 ≤ code.size by omega), ofNat_unsigned_one hinner, bind,
    Except.bind]
  split
  · rename_i access haccess
    have hne : inner ≠ 0x84 := by
      intro heq
      rw [(Encoding.ofOpcode_eq_increment_iff inner).2 heq] at haccess
      cases haccess
    rw [if_neg hne]
    exact .inl ⟨_, rfl⟩
  · rename_i hinc
    rw [if_pos ((Encoding.ofOpcode_eq_increment_iff inner).1 hinc)] at h ⊢
    rw [signedOperand_of_le (by omega)]
    exact .inl ⟨_, rfl⟩
  · exact .inr ⟨_, rfl, rfl⟩

/-- If the code ends before they do, that is the trap. -/
theorem decodeWidened_of_lt {count : Nat} (hm : code.measure? address .widened = some count)
    (h : code.size < address + 1 + count) :
    decodeWidened code address = .error (.codeOutOfBounds code.size) := by
  obtain ⟨inner, hinner, rfl⟩ := measure?_widened hm
  have hin : address + 1 < code.size := (Array.getElem?_eq_some_iff.1 hinner).1
  simp only [decodeWidened, operand_of_le (show address + 1 + 1 ≤ code.size by omega),
    ofNat_unsigned_one hinner, bind, Except.bind]
  by_cases hindex : address + 2 + 2 ≤ code.size
  · -- only an increment asks for more bytes than an index
    have heq : inner = 0x84 := by
      split at h
      · assumption
      · omega
    rw [if_pos heq] at h
    simp only [operand_of_le hindex, (Encoding.ofOpcode_eq_increment_iff inner).2 heq,
      signedOperand_of_lt (show code.size < address + 4 + 2 by omega)]
  · rw [operand_of_lt (by omega)]

/-- A `wide` at the end of the code has no opcode after it. -/
theorem decodeWidened_of_measure?_eq_none (h : code.measure? address .widened = none) :
    decodeWidened code address = .error (.codeOutOfBounds code.size) := by
  have hnone : code[address + 1]? = none := Option.map_eq_none_iff.1 h
  have hle : code.size ≤ address + 1 := Array.getElem?_eq_none_iff.1 hnone
  rw [decodeWidened, operand_of_lt (by omega)]
  rfl

/-- **A measured instruction is decoded to its end, or refused for what it is.** -/
theorem spans_decode {count : Nat} (h : code.operandCount address = .ok count) :
    Spans (decode code address) (address + 1 + count) := by
  obtain ⟨op, layout, hop, hlayout, hm, hle⟩ := Code.operandCount_eq_ok_iff.1 h
  rw [decode, hop]
  show Spans (decodeAs code address op (Encoding.ofOpcode op)) _
  rcases Encoding.layout?_eq_of_ofOpcode op with hun | heq
  · rw [hun]
    exact .inr ⟨_, rfl, rfl⟩
  · rw [heq] at hlayout
    rcases Encoding.layout?_eq_some hlayout with ⟨n, rfl⟩ | ⟨hwide, rfl⟩
    · cases hm
      exact spans_decodeAs hlayout hle
    · rw [hwide]
      exact spans_decodeWidened hm hle

/-- **A decoded instruction is measured to its end.** -/
theorem operandCount_of_decode {operation : Operation} {next : Nat}
    (h : decode code address = .ok (operation, next)) :
    ∃ count, code.operandCount address = .ok count ∧ next = address + 1 + count := by
  -- it is enough to measure it: where a measured instruction ends is known
  suffices hcount : ∃ count, code.operandCount address = .ok count by
    obtain ⟨count, hcount⟩ := hcount
    rcases spans_decode hcount with ⟨operation', hok⟩ | ⟨t, herr, -⟩
    · rw [hok] at h
      cases h
      exact ⟨count, hcount, rfl⟩
    · rw [herr] at h
      cases h
  unfold decode at h
  split at h
  · cases h
  rename_i op hop
  have haddress : address < code.size := (Array.getElem?_eq_some_iff.1 hop).1
  rcases Encoding.layout?_eq_of_ofOpcode op with hun | heq
  · rw [hun] at h
    cases h
  obtain ⟨layout, hlayout⟩ : ∃ layout, (Encoding.ofOpcode op).layout? = some layout := by
    cases he : Encoding.ofOpcode op with
    | unsupported => rw [he] at h; cases h
    | _ => exact ⟨_, rfl⟩
  rcases Encoding.layout?_eq_some hlayout with ⟨count, rfl⟩ | ⟨hwide, rfl⟩
  · refine ⟨count, Code.operandCount_eq_ok_iff.2 ⟨op, _, hop, heq.trans hlayout, rfl, ?_⟩⟩
    refine Nat.le_of_not_lt fun hlt => ?_
    rw [decodeAs_of_lt hlayout haddress hlt] at h
    cases h
  · rw [hwide] at h
    change decodeWidened code address = _ at h
    cases hm : code.measure? address .widened with
    | none =>
      rw [decodeWidened_of_measure?_eq_none hm] at h
      cases h
    | some count =>
      refine ⟨count, Code.operandCount_eq_ok_iff.2 ⟨op, _, hop, heq.trans hlayout, hm, ?_⟩⟩
      refine Nat.le_of_not_lt fun hlt => ?_
      rw [decodeWidened_of_lt hm hlt] at h
      cases h

/-- An operation that is decoded lies in the code. -/
theorem le_size_of_decode {operation : Operation} {next : Nat}
    (h : decode code address = .ok (operation, next)) : next ≤ code.size := by
  obtain ⟨count, hcount, rfl⟩ := operandCount_of_decode h
  exact Code.le_size_of_operandCount hcount

/-- An opcode that the disassembler does not know is not executed either. -/
theorem decode_of_unknownOpcode {o : Nat} {op : Opcode}
    (h : code.operandCount address = .error (.unknownOpcode o op)) :
    decode code address = .error (.unknownOpcode op) := by
  obtain ⟨-, hop, hlayout⟩ := Code.operandCount_eq_unknownOpcode h
  rw [decode, hop]
  show decodeAs code address op (Encoding.ofOpcode op) = _
  rw [Encoding.ofOpcode_of_layout?_eq_none op hlayout]
  rfl

/-- Reading a signed number from code is reading its bytes. -/
theorem signed_eq_signedWord {start count : Nat} (h : start + count ≤ code.size) :
    code.signed start count = signedWord (code.extract start (start + count)).toList := by
  have hlength : (code.extract start (start + count)).toList.length = count := by simp; omega
  rw [Code.signed, signedWord, Code.unsigned_eq_unsignedWord h, hlength]

/-- What a branch opcode decodes to: the distance after it, added to its own address. -/
theorem decode_of_isBranch {count : Nat} (hop : code[address]? = some op)
    (hbranch : op.isBranch = true) (hcount : code.operandCount address = .ok count) :
    (count = 2 ∨ count = 4) ∧ ∃ b, decode code address =
      .ok (.branch b (address + code.signed (address + 1) count), address + 1 + count) := by
  obtain ⟨op', layout, hop', hlayout, hm, hle⟩ := Code.operandCount_eq_ok_iff.1 hcount
  obtain rfl : op' = op := Option.some.inj (hop'.symm.trans hop)
  rw [decode, hop]
  rw [← Encoding.isBranch_ofOpcode] at hbranch
  rcases Encoding.layout?_eq_of_ofOpcode op' with hun | heq
  · rw [hun] at hbranch
    cases hbranch
  rw [heq] at hlayout
  show _ ∧ ∃ b, decodeAs code address op' (Encoding.ofOpcode op') = _
  cases he : Encoding.ofOpcode op' with
  | branch b =>
    rw [he] at hlayout
    cases hlayout
    cases hm
    refine ⟨.inl rfl, b, ?_⟩
    rw [decodeAs, signedOperand_of_le hle]
    rfl
  | wideBranch b =>
    rw [he] at hlayout
    cases hlayout
    cases hm
    refine ⟨.inr rfl, b, ?_⟩
    rw [decodeAs, signedOperand_of_le hle]
    rfl
  | _ => rw [he] at hbranch; cases hbranch

/-- The target that the disassembler gives a branch. -/
theorem target?_of_isBranch {count : Nat} (hbranch : op.isBranch = true)
    (hcount : count = 2 ∨ count = 4) (hle : address + 1 + count ≤ code.size) :
    Instruction.target? ⟨address, op, (code.extract (address + 1) (address + 1 + count)).toList⟩ =
      if 0 ≤ address + code.signed (address + 1) count then
        some (address + code.signed (address + 1) count).toNat
      else none := by
  have hlength : (code.extract (address + 1) (address + 1 + count)).toList.length = count := by
    simp; omega
  have hwidth : (decide (count = 2) || decide (count = 4)) = true := by simpa using hcount
  rw [Instruction.target?, hlength, hbranch, hwidth, signed_eq_signedWord hle]
  rfl

end Operation

/-- **The machine and the disassembler agree on every buffer.**  Where the machine decodes an
instruction, the disassembler measures it to the same end; what the disassembler measures, the
machine decodes or refuses for what it is, and never runs out of code; a byte that is no opcode for
the disassembler is an unknown opcode for the machine; and a branch has the same target for both,
where the disassembler has none for a target before the code. -/
theorem decode_agrees_with_operandCount (code : Code) (offset : Nat) :
    (∀ operation next, Operation.decode code offset = .ok (operation, next) →
      offset + 1 ≤ next ∧ code.operandCount offset = .ok (next - offset - 1)) ∧
    (∀ count, code.operandCount offset = .ok count →
      (∃ operation, Operation.decode code offset = .ok (operation, offset + 1 + count)) ∨
      (∃ op, Operation.decode code offset = .error (.unknownOpcode op)) ∨
      (∃ op, Operation.decode code offset = .error (.reservedOpcode op)) ∨
      (∃ type, Operation.decode code offset = .error (.unknownArrayType type))) ∧
    (∀ o op, code.operandCount offset = .error (.unknownOpcode o op) →
      Operation.decode code offset = .error (.unknownOpcode op)) ∧
    (∀ op count operation next, code[offset]? = some op → Opcode.isBranch op = true →
      code.operandCount offset = .ok count →
      Operation.decode code offset = .ok (operation, next) →
      ∃ b target, operation = .branch b target ∧
        (∀ t : Nat, target = t ↔ Instruction.target?
          ⟨offset, op, (code.extract (offset + 1) (offset + 1 + count)).toList⟩ = some t) ∧
        (target < 0 ↔ Instruction.target?
          ⟨offset, op, (code.extract (offset + 1) (offset + 1 + count)).toList⟩ = none)) := by
  refine ⟨?_, ?_, ?_, ?_⟩
  · intro operation next h
    obtain ⟨count, hcount, rfl⟩ := Operation.operandCount_of_decode h
    rw [show offset + 1 + count - offset - 1 = count by omega]
    exact ⟨by omega, hcount⟩
  · intro count hcount
    rcases Operation.spans_decode hcount with hok | ⟨t, herr, ht⟩
    · exact .inl hok
    · cases t with
      | unknownOpcode op => exact .inr (.inl ⟨op, herr⟩)
      | reservedOpcode op => exact .inr (.inr (.inl ⟨op, herr⟩))
      | unknownArrayType type => exact .inr (.inr (.inr ⟨type, herr⟩))
      | _ => cases ht
  · intro o op h
    exact Operation.decode_of_unknownOpcode h
  · intro op count operation next hop hbranch hcount h
    obtain ⟨hwidth, b, hdecode⟩ := Operation.decode_of_isBranch hop hbranch hcount
    have hle := Code.le_size_of_operandCount hcount
    rw [hdecode] at h
    cases h
    rw [Operation.target?_of_isBranch hbranch hwidth hle]
    refine ⟨b, _, rfl, fun t => ?_, ?_⟩
    · split <;> simp <;> omega
    · split <;> simp <;> omega

end MethodMachine
