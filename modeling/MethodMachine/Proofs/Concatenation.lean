/-
# Disassembling code that is put together

An instruction is measured by its own bytes and by where its address stands between two multiples of
four.  So nothing that follows an instruction changes it (`LaidOut.append`), and nothing that comes
before it does either if its length is a multiple of four (`operandCount_append_add`).  For code
`front ++ back`:

| `front` | the whole |
| --- | --- |
| disassembled, `4 ∣ front.size` | what `back` gives, moved, after the instructions of `front` |
| unknown opcode | the same error |
| truncated at `o` | an instruction at `o`, or an error at `o` or later |

The length matters only for the switches, whose operands are aligned.
-/

import MethodMachine.Proofs.Flattening

namespace MethodMachine

/-- The instruction with its offset moved. -/
def Instruction.relocate (n : Nat) (i : Instruction) : Instruction :=
  { i with offset := i.offset + n }

/-- The error with its offset moved. -/
def DisassemblyError.relocate (n : Nat) : DisassemblyError → DisassemblyError
  | unknownOpcode offset opcode => unknownOpcode (offset + n) opcode
  | truncated offset opcode => truncated (offset + n) opcode

namespace Code

variable {front code : Code} {offset : Nat} {is : List Instruction}

/-! ### Code in front -/

theorem getElem?_append_add (front code : Code) (k : Nat) :
    (front ++ code)[k + front.size]? = code[k]? := by
  rw [Array.getElem?_append_right (Nat.le_add_left ..), Nat.add_sub_cancel]

theorem extract_append_add (front code : Code) (start stop : Nat) :
    (front ++ code).extract (start + front.size) (stop + front.size) = code.extract start stop := by
  rw [Array.extract_append, Nat.add_sub_cancel, Nat.add_sub_cancel,
    Array.extract_empty_of_size_le_start (Nat.le_add_left ..), Array.empty_append]

theorem slice?_append_add (front code : Code) (start count : Nat) :
    (front ++ code).slice? (start + front.size) count = code.slice? start count := by
  have hfits : start + front.size + count ≤ (front ++ code).size ↔ start + count ≤ code.size := by
    rw [Array.size_append]
    omega
  rw [slice?, slice?, Nat.add_right_comm, extract_append_add, ← Nat.add_right_comm]
  simp only [hfits]

theorem word?_append_add (front code : Code) (start : Nat) :
    (front ++ code).word? (start + front.size) = code.word? start := by
  rw [word?, word?, slice?_append_add]

/-- Moving a switch by a multiple of four keeps its padding. -/
theorem switchPadding_add {n : Nat} (h : 4 ∣ n) (offset : Nat) :
    switchPadding (offset + n) = switchPadding offset := by
  unfold switchPadding
  omega

theorem measure?_append_add (halign : 4 ∣ front.size) (code : Code) (offset : Nat)
    (layout : OperandLayout) :
    (front ++ code).measure? (offset + front.size) layout = code.measure? offset layout := by
  have hword (padding k : Nat) : (front ++ code).word? (offset + front.size + 1 + padding + k) =
      code.word? (offset + 1 + padding + k) := by
    rw [← word?_append_add front code]
    congr 1
    omega
  cases layout with
  | fixed count => rfl
  | widened => rw [measure?, measure?, Nat.add_right_comm, getElem?_append_add]
  | tableSwitch | lookupSwitch => simp only [measure?, switchPadding_add halign, hword]

/-- **Code in front whose length is a multiple of four moves an instruction**, and changes nothing
else about it. -/
theorem operandCount_append_add (halign : 4 ∣ front.size) (code : Code) (offset : Nat) :
    (front ++ code).operandCount (offset + front.size) =
      (code.operandCount offset).mapError (.relocate front.size) := by
  have hfits (count : Nat) : offset + front.size + 1 + count ≤ (front ++ code).size ↔
      offset + 1 + count ≤ code.size := by
    rw [Array.size_append]
    omega
  rw [operandCount, operandCount, getElem?_append_add]
  cases code[offset]? with
  | none => rfl
  | some opcode =>
    dsimp only
    cases Opcode.layout? opcode with
    | none => rfl
    | some layout =>
      simp only [measure?_append_add halign, hfits]
      cases code.measure? offset layout with
      | none => rfl
      | some count =>
        dsimp only
        split <;> rfl

/-- Behind a single byte, a switch without pairs has one byte of padding less than at the start. -/
example : Code.operandCount #[0xAB, 0, 0, 0, 0, 0, 0, 0, 0, 0, 0, 0] 0 = .ok 11 ∧
    Code.operandCount (#[0x00] ++ #[0xAB, 0, 0, 0, 0, 0, 0, 0, 0, 0, 0, 0]) 1 = .ok 10 :=
  ⟨rfl, rfl⟩

/-- The disassembler finds in the code behind `front` what it finds in that code alone, moved. -/
theorem disassembleFrom_append_add (halign : 4 ∣ front.size) (code : Code) (offset : Nat) :
    (front ++ code).disassembleFrom (offset + front.size) =
      ((code.disassembleFrom offset).map (List.map (.relocate front.size))).mapError
        (.relocate front.size) := by
  have hcount := operandCount_append_add halign code
  have hin (offset : Nat) :
      offset + front.size < (front ++ code).size ↔ offset < code.size := by
    rw [Array.size_append]
    omega
  fun_induction disassembleFrom code offset
  case case1 offset hlt e herror =>
    rw [disassembleFrom, dif_pos ((hin offset).2 hlt), hcount, herror]
    rfl
  case case2 offset hlt count hok next instruction ih =>
    have hnext : offset + front.size + 1 + count = next + front.size := by omega
    have hopcode (hlt' : offset + front.size < (front ++ code).size) :
        (front ++ code)[offset + front.size] = code[offset] := by
      rw [Array.getElem_append_right (Nat.le_add_left ..)]
      simp
    have hoperands : (front ++ code).extract (offset + front.size + 1) (next + front.size) =
        code.extract (offset + 1) next := by
      rw [Nat.add_right_comm, extract_append_add]
    have hmoved : (front ++ code).operandCount (offset + front.size) = .ok count := by
      rw [hcount, hok]
      rfl
    rw [disassembleFrom, dif_pos ((hin offset).2 hlt), hmoved]
    simp only [hnext, ih, hopcode, hoperands]
    cases code.disassembleFrom next <;> rfl
  case case3 offset hlt =>
    rw [disassembleFrom, dif_neg (mt (hin offset).1 hlt)]
    rfl

/-! ### Code behind -/

/-- **Instructions stay laid out when code is added behind them.** -/
theorem LaidOut.append (h : code.LaidOut offset is) (back : Code) :
    LaidOut (code ++ back) offset is where
  holds := by
    unfold Holds
    rw [Array.toList_append, List.drop_append]
    exact h.holds.trans (List.prefix_append ..)
  consecutive := h.consecutive
  wellFormed := h.wellFormed

/-- The disassembler goes through instructions that are laid out up to `n`, whatever follows. -/
theorem LaidOut.disassemble_append {n : Nat} (h : code.LaidOut 0 is)
    (hlength : 0 + (is.flatMap Instruction.bytes).length = n) (back : Code) :
    (code ++ back).disassemble = ((code ++ back).disassembleFrom n).map (is ++ ·) := by
  rw [disassemble, (h.append back).disassembleFrom, hlength]

theorem operandCount_of_layout?_eq_none {op : Opcode} (hop : code[offset]? = some op)
    (hlayout : op.layout? = none) :
    code.operandCount offset = .error (.unknownOpcode offset op) := by
  simp only [operandCount, hop, hlayout]

/-- Before the end of the code, the disassembler finds an instruction at the offset where it begins,
or gives an error at that offset or a later one. -/
theorem disassembleFrom_cases (hlt : offset < code.size) :
    (∃ i rest, code.disassembleFrom offset = .ok (i :: rest) ∧ i.offset = offset) ∨
      ∃ e, code.disassembleFrom offset = .error e ∧ offset ≤ e.offset := by
  cases hfrom : code.disassembleFrom offset with
  | error e =>
    obtain ⟨-, -, is, -, hlength⟩ := laidOut_of_disassembleFrom_error hfrom
    exact .inr ⟨e, rfl, by omega⟩
  | ok is =>
    cases listing_of_disassembleFrom (Nat.le_of_lt hlt) hfrom with
    | done => exact absurd hlt (Nat.lt_irrefl _)
    | next _ _ => exact .inl ⟨_, _, rfl, rfl⟩

/-- **Disassembling is compositional at multiples of four, and keeps what it has found when code is
added.**  If `front` is disassembled and its length is a multiple of four, then what `back` gives
follows, with the length of `front` added to the offsets, be it instructions or an error.  Where
`front` has an unknown opcode, that is the error of the whole.  Where `front` ends within an
instruction, the whole has an instruction there, or is refused there or later. -/
theorem disassembly_is_compositional (front back : Code) :
    (∀ is, front.disassemble = .ok is → 4 ∣ front.size →
      (∀ more, back.disassemble = .ok more →
        (front ++ back).disassemble = .ok (is ++ more.map (.relocate front.size))) ∧
      ∀ e, back.disassemble = .error e →
        (front ++ back).disassemble = .error (e.relocate front.size)) ∧
    (∀ offset op, front.disassemble = .error (.unknownOpcode offset op) →
      (front ++ back).disassemble = .error (.unknownOpcode offset op)) ∧
    ∀ offset op, front.disassemble = .error (.truncated offset op) →
      (∃ is, (front ++ back).disassemble = .ok is ∧ ∃ i ∈ is, i.offset = offset) ∨
        ∃ e, (front ++ back).disassemble = .error e ∧ offset ≤ e.offset := by
  refine ⟨fun is hfront halign => ?_, fun offset op hfront => ?_, fun offset op hfront => ?_⟩
  · obtain ⟨hlaid, hlength⟩ := (listing_of_disassembleFrom (Nat.zero_le _) hfront).laidOut
    have hback := disassembleFrom_append_add halign back 0
    rw [Nat.zero_add, ← disassemble] at hback
    rw [hlaid.disassemble_append hlength, hback]
    refine ⟨fun more hmore => ?_, fun e he => ?_⟩
    · rw [hmore]
      rfl
    · rw [he]
      rfl
  · obtain ⟨hlt, hcount, is, hlaid, hlength⟩ := laidOut_of_disassembleFrom_error hfront
    obtain ⟨-, hop, hlayout⟩ := operandCount_eq_unknownOpcode hcount
    have hopcode : (front ++ back)[offset]? = some op := (Array.getElem?_append_left hlt).trans hop
    have hin : offset < (front ++ back).size := (Array.getElem?_eq_some_iff.1 hopcode).1
    rw [hlaid.disassemble_append hlength, DisassemblyError.offset, disassembleFrom, dif_pos hin,
      operandCount_of_layout?_eq_none hopcode hlayout]
    rfl
  · obtain ⟨hlt, -, is, hlaid, hlength⟩ := laidOut_of_disassembleFrom_error hfront
    have hin : offset < (front ++ back).size := by
      rw [Array.size_append]
      exact Nat.lt_add_right _ hlt
    rw [hlaid.disassemble_append hlength, DisassemblyError.offset]
    rcases disassembleFrom_cases hin with ⟨i, rest, hok, hi⟩ | ⟨e, herror, hle⟩
    · rw [hok]
      exact .inl ⟨_, rfl, i, by simp, hi⟩
    · rw [herror]
      exact .inr ⟨e, rfl, hle⟩

/-- A switch without pairs keeps its three bytes of padding behind four bytes of code. -/
theorem switch_behind_aligned_code :
    let front : Code := #[0x10, 0x07, 0x57, 0x00]
    let back : Code := #[0xAB, 0, 0, 0, 0, 0, 0, 0, 0, 0, 0, 0]
    let is : List Instruction := [⟨0, 0x10, [0x07]⟩, ⟨2, 0x57, []⟩, ⟨3, 0x00, []⟩]
    front.disassemble = .ok is ∧ back.disassemble = .ok [⟨0, 0xAB, List.replicate 11 0⟩] ∧
      (front ++ back).disassemble = .ok (is ++ [⟨4, 0xAB, List.replicate 11 0⟩]) := by
  intro front back is
  have hfront : front.disassemble = .ok is := by cbv
  have hformed : Instruction.WellFormed ⟨0, 0xAB, List.replicate 11 0⟩ :=
    ⟨by decide +kernel, 3, by decide, by decide, by decide +kernel⟩
  have hback : back.disassemble = .ok [⟨0, 0xAB, List.replicate 11 0⟩] :=
    disassemble_eq_ok_iff.2 ⟨rfl, ⟨rfl, trivial⟩, List.forall_mem_singleton.2 hformed⟩
  have halign : 4 ∣ front.size := by decide
  exact ⟨hfront, hback, ((disassembly_is_compositional front back).1 is hfront halign).1 _ hback⟩

end Code

end MethodMachine
