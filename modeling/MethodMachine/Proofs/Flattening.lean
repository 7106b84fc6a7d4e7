/-
# Disassembling undoes flattening

A list of instructions is flattened by writing the bytes of each after those of the one before.  Not
every list comes back when the code is disassembled: the offsets have to be those at which the
instructions come to stand (`Instruction.Consecutive`), and every instruction has to be well formed
(`Instruction.WellFormed`), that is, its opcode is defined and prescribes just the operands it has:

| opcode | operand bytes |
| --- | --- |
| `wide` | five before `iinc`, else three |
| `tableswitch` | `p + 12 + 4 · max 0 (high - low + 1)` |
| `lookupswitch` | `p + 8 + 8 · max 0 pairs` |
| any other | a fixed number, by family (`Opcode.fixedCount`) |

Here `p` is the padding up to a multiple of four, and the words are the instruction's own.  So being
well formed is said of an instruction alone, without the code it stands in, and what the code holds
decides nothing more (`standsIn_iff`): no byte outside an instruction is looked at to measure it.

Code is therefore disassembled into a list exactly if it is what the list flattens to.  Where this
fails, the instructions before the offset of the error are themselves such a list, which is all
there is of the code up to there (`LaidOut`).
-/

import MethodMachine.Proofs.Listing

namespace MethodMachine

namespace Opcode

/-- The number of operand bytes of an opcode that is neither `wide` nor a switch. -/
def fixedCount (op : Opcode) : Nat :=
  let isIndexed := (0x15 ≤ op && op ≤ 0x19) || (0x36 ≤ op && op ≤ 0x3A) || op = 0xA9
  -- fields, methods but for the two longer calls, classes
  let isReference := (0xB2 ≤ op && op ≤ 0xB8) || op = 0xBB || op = 0xBD || op = 0xC0 || op = 0xC1
  if op = 0x10 || op = 0x12 || op = 0xBC || isIndexed then 1
  else if op = 0x11 || op = 0x13 || op = 0x14 || op = 0x84 || isReference then 2
  else if op.isBranch then if op.isWideBranch then 4 else 2
  else if op = 0xC5 then 3
  else if op = 0xB9 || op = 0xBA then 4
  else 0

/-- The layout that a defined opcode prescribes. -/
def prescription (op : Opcode) : OperandLayout :=
  if op = 0xC4 then .widened
  else if op = 0xAA then .tableSwitch
  else if op = 0xAB then .lookupSwitch
  else .fixed op.fixedCount

/-- The table of layouts gives the defined opcodes what they prescribe, and the others nothing. -/
theorem layout?_eq_prescription (op : Opcode) :
    op.layout? = if op.name?.isSome then some op.prescription else none := by
  revert op
  refine forall_of_fin ?_
  decide +kernel

end Opcode

namespace Instruction

/-- The signed word of four bytes at an address among the operands. -/
def wordAt (i : Instruction) (address : Nat) : Int :=
  signedWord ((i.operands.drop (address - (i.offset + 1))).take 4)

/-- The operands are as many as a layout prescribes at the offset. -/
def Fits (i : Instruction) : OperandLayout → Prop
  | .fixed count => i.operands.length = count
  | .widened => i.operands.length = if i.operands.head? = some 0x84 then 5 else 3
  | .tableSwitch =>
    ∃ padding ≤ 3,
      let base := i.offset + 1 + padding
      4 ∣ base ∧ (i.operands.length : Int) =
        padding + 12 + 4 * max 0 (i.wordAt (base + 8) - i.wordAt (base + 4) + 1)
  | .lookupSwitch =>
    ∃ padding ≤ 3,
      let base := i.offset + 1 + padding
      4 ∣ base ∧ (i.operands.length : Int) = padding + 8 + 8 * max 0 (i.wordAt (base + 4))

/-- The opcode is defined, and prescribes the operands at the offset. -/
structure WellFormed (i : Instruction) : Prop where
  defined : i.opcode.name?.isSome = true
  fits : i.Fits i.opcode.prescription

theorem bytes_ne_nil (i : Instruction) : i.bytes ≠ [] := List.cons_ne_nil _ _

/-- Each instruction begins where the one before it ends, the first at `start`. -/
def Consecutive (start : Nat) : List Instruction → Prop
  | [] => True
  | i :: rest => i.offset = start ∧ Consecutive (start + i.size) rest

end Instruction

namespace Code

variable {code : Code} {offset : Nat} {bytes more : List UInt8} {i : Instruction}
  {is rest : List Instruction} {e : DisassemblyError}

/-- The code holds some bytes from an offset on. -/
def Holds (code : Code) (offset : Nat) (bytes : List UInt8) : Prop :=
  bytes <+: code.toList.drop offset

theorem holds_append :
    code.Holds offset (bytes ++ more) ↔
      code.Holds offset bytes ∧ code.Holds (offset + bytes.length) more := by
  unfold Holds
  rw [← List.drop_drop]
  constructor
  · rintro ⟨after, hafter⟩
    rw [← hafter, List.append_assoc, List.drop_left]
    exact ⟨List.prefix_append .., List.prefix_append ..⟩
  · rintro ⟨⟨after, hafter⟩, hmore⟩
    rw [← hafter, List.drop_left] at hmore
    rw [← hafter]
    exact (List.prefix_append_right_inj bytes).2 hmore

theorem Holds.le_size (h : code.Holds offset bytes) (hne : bytes ≠ []) :
    offset + bytes.length ≤ code.size := by
  have hlength := h.length_le
  have hpos := List.length_pos_iff.2 hne
  simp only [List.length_drop, Array.length_toList] at hlength
  omega

theorem Holds.getElem? (h : code.Holds offset bytes) {k : Nat} (hk : k < bytes.length) :
    code[offset + k]? = bytes[k]? := by
  obtain ⟨after, hafter⟩ := h
  rw [← Array.getElem?_toList, ← List.getElem?_drop, ← hafter, List.getElem?_append_left hk]

/-- A part of the bytes that the code holds is read at its own address. -/
theorem Holds.slice? (h : code.Holds offset bytes) {k n : Nat} (hend : k + n ≤ bytes.length)
    (hne : bytes ≠ []) : code.slice? (offset + k) n = some ((bytes.drop k).take n) := by
  have hsize := h.le_size hne
  obtain ⟨after, hafter⟩ := h
  rw [slice?_eq_some_iff]
  refine ⟨by omega, ?_⟩
  have htake : n ≤ (bytes.drop k).length := by
    rw [List.length_drop]
    omega
  rw [Array.toList_extract, List.extract_eq_take_drop, ← List.drop_drop, ← hafter,
    List.drop_append_of_le_length (by omega), Nat.add_sub_cancel_left,
    List.take_append_of_le_length htake]

/-- A word among the operands is read off the code at the same address. -/
theorem Holds.word? (h : code.Holds i.offset i.bytes) {address : Nat}
    (hstart : i.offset + 1 ≤ address) (hend : address + 4 ≤ i.offset + i.size) :
    code.word? address = some (i.wordAt address) := by
  obtain ⟨k, rfl⟩ := Nat.exists_eq_add_of_le hstart
  have hread : code.slice? (i.offset + (1 + k)) 4 = some ((i.bytes.drop (1 + k)).take 4) := by
    refine h.slice? ?_ i.bytes_ne_nil
    rw [Instruction.length_bytes]
    omega
  have hskipped : i.bytes.drop (1 + k) = i.operands.drop k := by
    rw [← List.drop_drop]
    rfl
  rw [Code.word?, Nat.add_assoc, hread, hskipped, Instruction.wordAt, ← Nat.add_assoc,
    Nat.add_sub_cancel_left]
  rfl

/-- The padding of a switch is the one that leads to a multiple of four. -/
theorem switchPadding_eq_iff {padding : Nat} :
    switchPadding offset = padding ↔ padding ≤ 3 ∧ 4 ∣ offset + 1 + padding := by
  unfold switchPadding
  omega

theorem measure?_widened_eq_length_iff (h : code.Holds i.offset i.bytes) :
    code.measure? i.offset .widened = some i.operands.length ↔ i.Fits .widened := by
  unfold measure? Instruction.Fits
  cases hoperands : i.operands with
  | nil =>
    -- the byte after the opcode, if there is one, belongs to the next instruction
    cases hnext : code[i.offset + 1]? with
    | none => simp
    | some inner =>
      simp only [Option.map_some, Option.some.injEq]
      split <;> simp
  | cons inner others =>
    have hinner : code[i.offset + 1]? = some inner := by
      have hget := h.getElem? (k := 1) (by simp [Instruction.bytes, hoperands])
      simpa [Instruction.bytes, hoperands] using hget
    simp only [hinner, Option.map_some, Option.some.injEq, List.head?_cons]
    exact eq_comm

theorem measure?_tableSwitch_eq_length_iff (h : code.Holds i.offset i.bytes) :
    code.measure? i.offset .tableSwitch = some i.operands.length ↔ i.Fits .tableSwitch := by
  have hsize : i.size = 1 + i.operands.length := rfl
  simp only [measure?, Instruction.Fits, Option.bind_eq_bind, Option.bind_eq_some_iff,
    Option.some.injEq]
  constructor
  · rintro ⟨low, hlow, high, hhigh, hcount⟩
    obtain ⟨hle, hdvd⟩ := switchPadding_eq_iff.1 (Eq.refl (switchPadding i.offset))
    -- the count itself shows that both words lie among the operands
    rw [h.word? (by omega) (by omega)] at hlow hhigh
    cases hlow
    cases hhigh
    exact ⟨_, hle, hdvd, by omega⟩
  · rintro ⟨padding, hle, hdvd, hlength⟩
    rw [switchPadding_eq_iff.2 ⟨hle, hdvd⟩]
    exact ⟨_, h.word? (by omega) (by omega), _, h.word? (by omega) (by omega), by omega⟩

theorem measure?_lookupSwitch_eq_length_iff (h : code.Holds i.offset i.bytes) :
    code.measure? i.offset .lookupSwitch = some i.operands.length ↔ i.Fits .lookupSwitch := by
  have hsize : i.size = 1 + i.operands.length := rfl
  simp only [measure?, Instruction.Fits, Option.bind_eq_bind, Option.bind_eq_some_iff,
    Option.some.injEq]
  constructor
  · rintro ⟨pairs, hpairs, hcount⟩
    obtain ⟨hle, hdvd⟩ := switchPadding_eq_iff.1 (Eq.refl (switchPadding i.offset))
    rw [h.word? (by omega) (by omega)] at hpairs
    cases hpairs
    exact ⟨_, hle, hdvd, by omega⟩
  · rintro ⟨padding, hle, hdvd, hlength⟩
    rw [switchPadding_eq_iff.2 ⟨hle, hdvd⟩]
    exact ⟨_, h.word? (by omega) (by omega), by omega⟩

/-- The code measures an instruction that it holds as its layout does. -/
theorem measure?_eq_length_iff (h : code.Holds i.offset i.bytes) (layout : OperandLayout) :
    code.measure? i.offset layout = some i.operands.length ↔ i.Fits layout := by
  cases layout with
  | fixed count =>
    simp only [measure?, Instruction.Fits, Option.some.injEq]
    exact eq_comm
  | widened => exact measure?_widened_eq_length_iff h
  | tableSwitch => exact measure?_tableSwitch_eq_length_iff h
  | lookupSwitch => exact measure?_lookupSwitch_eq_length_iff h

/-- The operands of an instruction that the code holds are counted right exactly if it is well
formed. -/
theorem operandCount_eq_length_iff (h : code.Holds i.offset i.bytes) :
    code.operandCount i.offset = .ok i.operands.length ↔ i.WellFormed := by
  have hopcode : code[i.offset]? = some i.opcode := h.getElem? (k := 0) (Nat.zero_lt_succ _)
  have hsize : i.offset + 1 + i.operands.length ≤ code.size := by
    have hle := h.le_size i.bytes_ne_nil
    rwa [Instruction.length_bytes, Instruction.size, ← Nat.add_assoc] at hle
  rw [operandCount_eq_ok_iff]
  constructor
  · rintro ⟨op, layout, hop, hlayout, hmeasure, -⟩
    obtain rfl : i.opcode = op := Option.some.inj (hopcode.symm.trans hop)
    rw [Opcode.layout?_eq_prescription] at hlayout
    split at hlayout
    · rename_i hdefined
      cases hlayout
      exact ⟨hdefined, (measure?_eq_length_iff h _).1 hmeasure⟩
    · cases hlayout
  · rintro ⟨hdefined, hfits⟩
    refine ⟨_, _, hopcode, ?_, (measure?_eq_length_iff h _).2 hfits, hsize⟩
    rw [Opcode.layout?_eq_prescription, if_pos hdefined]

/-- **An instruction stands in the code** if the code holds its bytes and it is well formed. -/
theorem standsIn_iff : i.StandsIn code ↔ code.Holds i.offset i.bytes ∧ i.WellFormed := by
  constructor
  · intro hstands
    obtain ⟨hlt, hopcode⟩ := Array.getElem?_eq_some_iff.1 hstands.opcode
    have hholds : code.Holds i.offset i.bytes := by
      have hcons : code.toList.drop i.offset = i.opcode :: code.toList.drop (i.offset + 1) := by
        rw [List.drop_eq_getElem_cons (by simpa using hlt), Array.getElem_toList, hopcode]
      have hoperands : i.operands = (code.toList.drop (i.offset + 1)).take i.operands.length := by
        have hextract := hstands.operands
        rwa [Array.toList_extract, List.extract_eq_take_drop, Nat.add_sub_cancel_left] at hextract
      unfold Holds
      rw [hcons, Instruction.bytes, hoperands]
      exact (List.prefix_cons_inj _).2 (List.take_prefix ..)
    exact ⟨hholds, (operandCount_eq_length_iff hholds).1 hstands.count⟩
  · rintro ⟨hholds, hformed⟩
    have hcount := (operandCount_eq_length_iff hholds).2 hformed
    refine ⟨hholds.getElem? (k := 0) (Nat.zero_lt_succ _), hcount, ?_⟩
    have hslice := hholds.slice? (k := 1) (n := i.operands.length)
      (by rw [Instruction.length_bytes]; exact Nat.le_refl _) i.bytes_ne_nil
    rw [(slice?_eq_some_iff.1 hslice).2]
    exact (List.take_length).symm

/-- Well-formed instructions that stand in the code one after the other, from an offset on. -/
structure LaidOut (code : Code) (offset : Nat) (is : List Instruction) : Prop where
  holds : code.Holds offset (is.flatMap Instruction.bytes)
  consecutive : Instruction.Consecutive offset is
  wellFormed : ∀ i ∈ is, i.WellFormed

theorem laidOut_nil : code.LaidOut offset [] where
  holds := List.nil_prefix
  consecutive := trivial
  wellFormed _ hi := nomatch hi

theorem laidOut_cons :
    code.LaidOut offset (i :: rest) ↔
      i.offset = offset ∧ i.StandsIn code ∧ code.LaidOut (offset + i.size) rest := by
  constructor
  · rintro ⟨hholds, ⟨rfl, hconsecutive⟩, hformed⟩
    rw [List.flatMap_cons, holds_append, Instruction.length_bytes] at hholds
    rw [List.forall_mem_cons] at hformed
    exact ⟨rfl, standsIn_iff.2 ⟨hholds.1, hformed.1⟩, hholds.2, hconsecutive, hformed.2⟩
  · rintro ⟨rfl, hstands, hrest⟩
    obtain ⟨hholds, hformed⟩ := standsIn_iff.1 hstands
    refine ⟨?_, ⟨rfl, hrest.consecutive⟩, List.forall_mem_cons.2 ⟨hformed, hrest.wellFormed⟩⟩
    rw [List.flatMap_cons, holds_append, Instruction.length_bytes]
    exact ⟨hholds, hrest.holds⟩

/-- The disassembler takes an instruction that stands at the offset, and goes on after it. -/
theorem disassembleFrom_of_standsIn (h : i.StandsIn code) :
    code.disassembleFrom i.offset = (code.disassembleFrom (i.offset + i.size)).map (i :: ·) := by
  obtain ⟨hlt, hopcode⟩ := Array.getElem?_eq_some_iff.1 h.opcode
  have hcut : ⟨i.offset, code[i.offset],
      (code.extract (i.offset + 1) (i.offset + 1 + i.operands.length)).toList⟩ = i := by
    rw [hopcode, ← h.operands]
  rw [disassembleFrom, dif_pos hlt, h.count]
  simp only [hcut]
  rw [Instruction.size, Nat.add_assoc]

/-- **The disassembler goes through instructions that are laid out**, and on from their end. -/
theorem LaidOut.disassembleFrom (h : code.LaidOut offset is) :
    code.disassembleFrom offset =
      (code.disassembleFrom (offset + (is.flatMap Instruction.bytes).length)).map (is ++ ·) := by
  induction is generalizing offset with
  | nil =>
    rw [List.flatMap_nil, List.length_nil, Nat.add_zero]
    cases code.disassembleFrom offset <;> rfl
  | cons i rest ih =>
    obtain ⟨rfl, hstands, hrest⟩ := laidOut_cons.1 h
    rw [disassembleFrom_of_standsIn hstands, ih hrest, List.flatMap_cons, List.length_append,
      Instruction.length_bytes, ← Nat.add_assoc]
    cases code.disassembleFrom _ <;> rfl

/-- A listing is laid out, up to the end of the code. -/
theorem Listing.laidOut (h : Listing code offset is) :
    code.LaidOut offset is ∧ offset + (is.flatMap Instruction.bytes).length = code.size := by
  induction h with
  | done => exact ⟨laidOut_nil, rfl⟩
  | next hstands _ ih =>
    refine ⟨laidOut_cons.2 ⟨rfl, hstands, ih.1⟩, ?_⟩
    rw [List.flatMap_cons, List.length_append, Instruction.length_bytes, ← Nat.add_assoc]
    exact ih.2

theorem disassembleFrom_size : code.disassembleFrom code.size = .ok [] := by
  rw [disassembleFrom, dif_neg (Nat.lt_irrefl _)]

/-- Code that is laid out whole is what the instructions flatten to. -/
theorem laidOut_whole_iff :
    (code.LaidOut 0 is ∧ (is.flatMap Instruction.bytes).length = code.size) ↔
      is.flatMap Instruction.bytes = code.toList ∧ Instruction.Consecutive 0 is ∧
        ∀ i ∈ is, i.WellFormed := by
  constructor
  · rintro ⟨⟨hholds, hconsecutive, hformed⟩, hlength⟩
    exact ⟨hholds.eq_of_length (by simpa using hlength), hconsecutive, hformed⟩
  · rintro ⟨hflat, hconsecutive, hformed⟩
    refine ⟨⟨?_, hconsecutive, hformed⟩, by rw [hflat, Array.length_toList]⟩
    rw [hflat]
    exact List.prefix_refl _

/-- **Code is disassembled into the instructions that flatten to it.** -/
theorem disassemble_eq_ok_iff :
    code.disassemble = .ok is ↔ is.flatMap Instruction.bytes = code.toList ∧
      Instruction.Consecutive 0 is ∧ ∀ i ∈ is, i.WellFormed := by
  rw [← laidOut_whole_iff]
  constructor
  · intro h
    have hlaid := (listing_of_disassembleFrom (Nat.zero_le _) h).laidOut
    rwa [Nat.zero_add] at hlaid
  · rintro ⟨hlaid, hlength⟩
    rw [disassemble, hlaid.disassembleFrom, Nat.zero_add, hlength, disassembleFrom_size]
    simp [Except.map]

theorem offset_of_operandCount (h : code.operandCount offset = .error e) : e.offset = offset := by
  unfold operandCount at h
  split at h
  · cases h
    rfl
  · split at h
    · cases h
      rfl
    · split at h
      · cases h
        rfl
      · split at h
        · cases h
        · cases h
          rfl

/-- Where the disassembler fails, it has gone through instructions that are laid out up to there. -/
theorem laidOut_of_disassembleFrom_error (h : code.disassembleFrom offset = .error e) :
    e.offset < code.size ∧ code.operandCount e.offset = .error e ∧ ∃ is,
      code.LaidOut offset is ∧ offset + (is.flatMap Instruction.bytes).length = e.offset := by
  fun_induction disassembleFrom code offset
  case case1 offset hlt e' hcount =>
    cases h
    rw [offset_of_operandCount hcount]
    exact ⟨hlt, hcount, [], laidOut_nil, rfl⟩
  case case2 offset hlt count hcount next instruction ih =>
    have hstands : instruction.StandsIn code := standsIn_of_operandCount hlt hcount
    have hsize : offset + instruction.size = next := by
      rw [Instruction.size, length_of_operandCount hcount, ← Nat.add_assoc]
    cases hnext : code.disassembleFrom next with
    | ok rest =>
      rw [hnext] at h
      cases h
    | error e' =>
      rw [hnext] at h
      cases h
      obtain ⟨hend, herror, rest, hrest, hlength⟩ := ih hnext
      refine ⟨hend, herror, instruction :: rest, laidOut_cons.2 ⟨rfl, hstands, ?_⟩, ?_⟩
      · rw [hsize]
        exact hrest
      · rw [List.flatMap_cons, List.length_append, Instruction.length_bytes, ← Nat.add_assoc,
          hsize, hlength]
  case case3 offset hlt => cases h

/-- Instructions that are laid out up to an address are what the code before it flattens to. -/
theorem laidOut_iff_disassemble_take {n : Nat} (hn : n ≤ code.size) :
    (code.LaidOut 0 is ∧ (is.flatMap Instruction.bytes).length = n) ↔
      Code.disassemble (code.take n) = .ok is := by
  have hsize : (code.take n).size = n := by
    rw [Array.take_eq_extract, Array.size_extract]
    omega
  have htake : (code.take n).toList = code.toList.take n := by simp
  rw [disassemble_eq_ok_iff, ← laidOut_whole_iff, hsize]
  refine and_congr_left fun hlength => ?_
  constructor
  · rintro ⟨hholds, hconsecutive, hformed⟩
    refine ⟨?_, hconsecutive, hformed⟩
    show _ <+: (code.take n).toList
    rw [htake]
    exact List.prefix_take_iff.2 ⟨hholds, by omega⟩
  · rintro ⟨hholds, hconsecutive, hformed⟩
    refine ⟨?_, hconsecutive, hformed⟩
    have hprefix : is.flatMap Instruction.bytes <+: (code.take n).toList := hholds
    rw [htake] at hprefix
    exact (List.prefix_take_iff.1 hprefix).1

/-- **Code is refused at the first offset where no instruction can be measured**: what comes before
the offset can be disassembled on its own. -/
theorem disassemble_eq_error_iff :
    code.disassemble = .error e ↔ e.offset < code.size ∧ code.operandCount e.offset = .error e ∧
      ∃ is, Code.disassemble (code.take e.offset) = .ok is := by
  constructor
  · intro h
    obtain ⟨hlt, herror, is, hlaid, hlength⟩ := laidOut_of_disassembleFrom_error h
    rw [Nat.zero_add] at hlength
    exact ⟨hlt, herror, is, (laidOut_iff_disassemble_take (by omega)).1 ⟨hlaid, hlength⟩⟩
  · rintro ⟨hlt, herror, is, htake⟩
    obtain ⟨hlaid, hlength⟩ := (laidOut_iff_disassemble_take (by omega)).2 htake
    rw [disassemble, hlaid.disassembleFrom, Nat.zero_add, hlength, disassembleFrom, dif_pos hlt,
      herror]
    rfl

/-- **Disassembling is the inverse of flattening.**  Code is disassembled into a list of
instructions exactly if their bytes, written one after the other, are the code, their offsets are
the sums of the sizes before them, and each is well formed.  It is refused with an error exactly if
the code before the offset of the error can be disassembled on its own and the error is what
measuring the instruction there gives. -/
theorem disassemble_inverts_flattening (code : Code) :
    (∀ is, code.disassemble = .ok is ↔ is.flatMap Instruction.bytes = code.toList ∧
      Instruction.Consecutive 0 is ∧ ∀ i ∈ is, i.WellFormed) ∧
    ∀ e, code.disassemble = .error e ↔ e.offset < code.size ∧
      code.operandCount e.offset = .error e ∧
      ∃ is, Code.disassemble (code.take e.offset) = .ok is :=
  ⟨fun _ => disassemble_eq_ok_iff, fun _ => disassemble_eq_error_iff⟩

end Code

end MethodMachine
