/-
# An assembled program is disassembled again

A directive is *regular* if what it writes is an instruction: its opcode takes the operands that the
directive gives it.  When a builder has been given the calls of a program of regular directives, its
code is disassembled into one instruction for each directive but `bind`, in order (`Builder.lines`),
and every instruction is what its directive asks for (`Directive.AsksFor`):

| directive | instruction, where the builder stood when the call was made |
| --- | --- |
| `op` | the opcode alone |
| `opByte`, `opSignedByte`, `opShort` | the opcode; the operands read back as the number |
| `increment` | `iinc`; the operands are the index and the number |
| `branch` | the opcode; its target is where the builder stood when the label was bound |

The builder fills in the distances at the end, which comes to assembling in two passes
(`assemble_eq_assembleInPasses`).  The first pass over the program gives a label its address,
whether the branches to it come before or after (`Resolves`).  In the second pass each directive
comes to the bytes of the instruction it asks for (`exists_asksFor_of_block`), so the code is what
these instructions flatten to, and they are well formed.
-/

import Mathlib.Data.List.Forall2
import MethodMachine.Proofs.Backpatching
import MethodMachine.Proofs.Flattening

namespace MethodMachine

namespace Directive

/-- Whether the directive writes an instruction, or nothing. -/
def isRegular : Directive → Bool
  | op opcode => opcode.layout? = some (.fixed 0)
  | opByte opcode _ => opcode.layout? = some (.fixed 1)
  | opSignedByte opcode _ => opcode.layout? = some (.fixed 1)
  | opShort opcode _ => opcode.layout? = some (.fixed 2)
  | increment .. => true
  | raw _ => false
  | bind _ => true
  | branch opcode _ => opcode.isBranch

end Directive

/-- The calls that write an instruction, each with where the builder stands when it is made. -/
def Builder.lines (b : Builder) : Program → List (Nat × Directive)
  | [] => []
  | .bind label :: rest => lines (b.bind label) rest
  | d :: rest => (b.code.size, d) :: lines (b.call d) rest

namespace Program

variable {program rest : Program} {d : Directive} {label : Label} {address start : Nat}

/-- Where a new builder stands after the calls of a program: the number of bytes it has. -/
def position (done : Program) : Nat := (Builder.new.calls done).code.size

/-- A program binds a label at an address: there the builder stands when the label is bound. -/
def Binds (program : Program) (label : Label) (address : Nat) : Prop :=
  ∃ before after : Program, program = before ++ .bind label :: after ∧ address = before.position

/-- A new builder stands after the bytes of the calls made to it. -/
theorem position_eq_size (done : Program) : done.position = done.size :=
  (Builder.size_code_calls .new done).trans (Nat.zero_add _)

/-- A program without directives binds no label. -/
theorem not_binds_nil : ¬Binds [] label address := by
  rintro ⟨before, after, heq, -⟩
  simp at heq

/-- A label is bound by the first directive at the start, or by the others, which stand after it. -/
theorem binds_cons :
    Binds (d :: rest) label address ↔ d = .bind label ∧ address = 0 ∨
      ∃ later, Binds rest label later ∧ address = d.size + later := by
  simp only [Binds, position_eq_size]
  constructor
  · rintro ⟨before, after, heq, rfl⟩
    cases before with
    | nil => exact .inl ⟨(List.cons.inj heq).1, rfl⟩
    | cons first before =>
      obtain ⟨rfl, rfl⟩ := List.cons.inj heq
      exact .inr ⟨_, ⟨before, after, rfl, rfl⟩, rfl⟩
  · rintro (⟨rfl, rfl⟩ | ⟨later, ⟨before, after, rfl, rfl⟩, rfl⟩)
    · exact ⟨[], rest, rfl, rfl⟩
    · exact ⟨d :: before, after, rfl, rfl⟩

/-- The first pass notes a label at every address where the program binds it. -/
theorem mem_labels_iff :
    (label, address) ∈ program.labels start ↔
      ∃ later, program.Binds label later ∧ address = start + later := by
  induction program generalizing start with
  | nil => simp [labels, not_binds_nil]
  | cons d rest ih =>
    cases d with
    | bind bound =>
      simp only [labels, List.mem_cons, Prod.mk.injEq, ih, binds_cons, Directive.bind.injEq,
        Directive.size, Nat.zero_add]
      constructor
      · rintro (⟨rfl, rfl⟩ | ⟨later, hlater, rfl⟩)
        · exact ⟨0, .inl ⟨rfl, rfl⟩, rfl⟩
        · exact ⟨later, .inr ⟨later, hlater, rfl⟩, rfl⟩
      · rintro ⟨_, ⟨rfl, rfl⟩ | ⟨later, hlater, rfl⟩, rfl⟩
        · exact .inl ⟨rfl, rfl⟩
        · exact .inr ⟨_, hlater, rfl⟩
    | _ =>
      simp only [labels, ih, binds_cons, reduceCtorEq, false_and, false_or]
      constructor
      · rintro ⟨later, hlater, rfl⟩
        exact ⟨_, ⟨later, hlater, rfl⟩, Nat.add_assoc ..⟩
      · rintro ⟨_, ⟨later, hlater, rfl⟩, rfl⟩
        exact ⟨later, hlater, (Nat.add_assoc ..).symm⟩

end Program

namespace LabelTable

/-- A table gives a label of a program the one address at which the program binds it. -/
def Resolves (table : LabelTable) (program : Program) : Prop :=
  ∀ label target, table.lookup label = some target →
    ∀ address, program.Binds label address ↔ address = target

/-- **The first pass resolves the labels**, if none is bound twice. -/
theorem resolves_labels {program : Program}
    (h : Program.firstRepeated? [] (program.labels 0) = none) :
    Resolves (program.labels 0) program := by
  intro label target hlookup address
  have hmem :
      (program.labels 0).lookup label = some address ↔ (label, address) ∈ program.labels 0 :=
    lookup_eq_some_iff_mem (Program.nodup_of_firstRepeated? h).1
  rw [Program.mem_labels_iff, hlookup, Option.some.injEq] at hmem
  simpa [eq_comm] using hmem.symm

end LabelTable

/-- A branch has a distance after its opcode and nothing else. -/
theorem Opcode.layout?_of_isBranch (op : Opcode) :
    op.isBranch = true → op.layout? = some (.fixed op.distanceSize) := by
  revert op
  refine forall_of_fin ?_
  decide +kernel

/-- A signed byte is read back. -/
theorem signedWord_toUInt8 (v : Int8) : signedWord [v.toUInt8] = v.toInt := by
  show Int.bmod ((256 * 0 + v.toUInt8.toNat : Nat) : Int) 256 = v.toBitVec.toInt
  rw [BitVec.toInt_eq_toNat_bmod, Nat.mul_zero, Nat.zero_add]
  rfl

/-- A signed number of two bytes is read back. -/
theorem signedWord_bigEndian_int16 (v : Int16) : signedWord (bigEndian 2 v.toInt) = v.toInt := by
  have hlow := v.le_toInt
  have hhigh := v.toInt_lt
  have hcount : wordCount 2 = 65536 := rfl
  exact signedWord_bigEndian (by omega) (by omega)

/-- An instruction with a fixed number of operands is well formed if it has that many. -/
theorem Instruction.wellFormed_of_layout? {i : Instruction} {count : Nat}
    (hlayout : i.opcode.layout? = some (.fixed count)) (hlength : i.operands.length = count) :
    i.WellFormed := by
  rw [Opcode.layout?_eq_prescription] at hlayout
  split at hlayout
  · rename_i hdefined
    refine ⟨hdefined, ?_⟩
    rw [Option.some.inj hlayout]
    exact hlength
  · cases hlayout

/-- The target of a branch whose operand is the distance to it. -/
theorem Instruction.target?_of_distance {opcode : Opcode} {operands : List UInt8}
    {origin target : Nat} (hbranch : opcode.isBranch = true)
    (hlength : operands.length = opcode.distanceSize)
    (hdistance : signedWord operands = (target : Int) - origin) :
    target? ⟨origin, opcode, operands⟩ = some target := by
  have hwidth : operands.length = 2 ∨ operands.length = 4 := by
    rw [hlength, Opcode.distanceSize]
    split
    · exact .inr rfl
    · exact .inl rfl
  have htarget : (origin : Int) + signedWord operands = target := by omega
  simp [target?, hbranch, hwidth, htarget]

namespace Directive

variable {program : Program} {table : LabelTable} {address : Nat} {d : Directive}
  {bytes : List UInt8}

/-- An instruction is what a directive asks for at an address of a program. -/
def AsksFor (program : Program) (address : Nat) (d : Directive) (i : Instruction) : Prop :=
  i.offset = address ∧
    match d with
    | op opcode => i.opcode = opcode ∧ i.operands = []
    | opByte opcode operand => i.opcode = opcode ∧ i.operands = [operand]
    | opSignedByte opcode operand =>
      i.opcode = opcode ∧ ∃ b, i.operands = [b] ∧ signedWord [b] = operand.toInt
    | opShort opcode operand =>
      i.opcode = opcode ∧ i.operands.length = 2 ∧ signedWord i.operands = operand.toInt
    | increment index delta =>
      i.opcode = 0x84 ∧ ∃ b, i.operands = [index, b] ∧ signedWord [b] = delta.toInt
    | branch opcode label =>
      i.opcode = opcode ∧ ∃ target, i.target? = some target ∧
        ∀ address, program.Binds label address ↔ address = target
    -- these write no instruction, or bytes of their own
    | bind _ => False
    | raw _ => False

/-- **A regular directive comes to the bytes of the instruction it asks for.** -/
theorem exists_asksFor_of_block (htable : table.Resolves program) (hregular : d.isRegular = true)
    (hbind : ∀ label, d ≠ .bind label) (h : d.block table address = .ok bytes) :
    ∃ i, AsksFor program address d i ∧ i.WellFormed ∧ i.bytes = bytes ∧ i.size = d.size := by
  cases d with
  | op opcode =>
    cases h
    exact ⟨⟨address, opcode, []⟩, ⟨rfl, rfl, rfl⟩,
      Instruction.wellFormed_of_layout? (of_decide_eq_true hregular) rfl, rfl, rfl⟩
  | opByte opcode operand =>
    cases h
    exact ⟨⟨address, opcode, [operand]⟩, ⟨rfl, rfl, rfl⟩,
      Instruction.wellFormed_of_layout? (of_decide_eq_true hregular) rfl, rfl, rfl⟩
  | opSignedByte opcode operand =>
    cases h
    exact ⟨⟨address, opcode, [operand.toUInt8]⟩,
      ⟨rfl, rfl, _, rfl, signedWord_toUInt8 operand⟩,
      Instruction.wellFormed_of_layout? (of_decide_eq_true hregular) rfl, rfl, rfl⟩
  | opShort opcode operand =>
    cases h
    exact ⟨⟨address, opcode, bigEndian 2 operand.toInt⟩,
      ⟨rfl, rfl, rfl, signedWord_bigEndian_int16 operand⟩,
      Instruction.wellFormed_of_layout? (of_decide_eq_true hregular) rfl, rfl, rfl⟩
  | increment index delta =>
    cases h
    exact ⟨⟨address, 0x84, [index, delta.toUInt8]⟩,
      ⟨rfl, rfl, _, rfl, signedWord_toUInt8 delta⟩,
      Instruction.wellFormed_of_layout? rfl rfl, rfl, rfl⟩
  | raw bytes => cases hregular
  | bind label => exact absurd rfl (hbind label)
  | branch opcode label =>
    cases hlookup : table.lookup label with
    | none => simp [block, hlookup] at h
    | some target =>
      simp only [block, hlookup, branchBytes] at h
      split at h
      · rename_i hfits
        cases h
        have hdistance := signedWord_bigEndian hfits.1 hfits.2
        refine ⟨⟨address, opcode, bigEndian opcode.distanceSize (target - address)⟩,
          ⟨rfl, rfl, target, ?_, htable label target hlookup⟩, ?_, rfl, ?_⟩
        · exact Instruction.target?_of_distance hregular (length_bigEndian ..) hdistance
        · exact Instruction.wellFormed_of_layout? (opcode.layout?_of_isBranch hregular)
            (length_bigEndian ..)
        · rw [Instruction.size, length_bigEndian, size]
      · cases h

end Directive

namespace Program

variable {program whole rest : Program} {table : LabelTable} {b : Builder} {d : Directive}
  {bytes : List UInt8} {code : Code}

/-- A directive but `bind` has a line of its own, at the address where the builder stands. -/
theorem lines_cons (hbind : ∀ label, d ≠ .bind label) :
    b.lines (d :: rest) = (b.code.size, d) :: (b.call d).lines rest := by
  cases d with
  | bind label => exact absurd rfl (hbind label)
  | _ => rfl

/-- The second pass writes the first directive, and the others behind it. -/
theorem blocks_cons {address : Nat} (h : blocks table address (d :: rest) = .ok bytes) :
    ∃ first others, d.block table address = .ok first ∧
      blocks table (address + d.size) rest = .ok others ∧ bytes = first ++ others := by
  rw [blocks] at h
  cases hfirst : d.block table address with
  | error e =>
    rw [hfirst] at h
    cases h
  | ok first =>
    rw [hfirst] at h
    cases hothers : blocks table (address + d.size) rest with
    | error e =>
      rw [hothers] at h
      cases h
    | ok others =>
      rw [hothers] at h
      cases h
      exact ⟨first, others, rfl, rfl, rfl⟩

/-- **The second pass writes the instructions that the directives ask for**, one after the other. -/
theorem exists_asksFor_of_blocks (htable : table.Resolves whole)
    (hregular : ∀ d ∈ program, d.isRegular = true)
    (h : program.blocks table b.code.size = .ok bytes) :
    ∃ is, List.Forall₂ (fun line i => line.2.AsksFor whole line.1 i) (b.lines program) is ∧
      Instruction.Consecutive b.code.size is ∧ (∀ i ∈ is, i.WellFormed) ∧
      is.flatMap Instruction.bytes = bytes := by
  induction program generalizing b bytes with
  | nil =>
    cases h
    exact ⟨[], .nil, trivial, (fun _ hi => nomatch hi), rfl⟩
  | cons d rest ih =>
    obtain ⟨first, others, hfirst, hothers, rfl⟩ := blocks_cons h
    obtain ⟨hd, hrest⟩ := List.forall_mem_cons.1 hregular
    rw [← Builder.size_code_call] at hothers
    obtain ⟨is, hlines, hconsecutive, hformed, hbytes⟩ := ih hrest hothers
    by_cases hbind : ∃ label, d = .bind label
    · -- a label comes to no bytes, and the rest starts at the same address
      obtain ⟨label, rfl⟩ := hbind
      cases hfirst
      exact ⟨is, hlines, hconsecutive, hformed, hbytes⟩
    · have hne : ∀ label, d ≠ .bind label := fun label heq => hbind ⟨label, heq⟩
      obtain ⟨i, hasks, hi, hfirstBytes, hsize⟩ :=
        Directive.exists_asksFor_of_block htable hd hne hfirst
      refine ⟨i :: is, ?_, ⟨hasks.1, ?_⟩, List.forall_mem_cons.2 ⟨hi, hformed⟩, ?_⟩
      · rw [lines_cons hne]
        exact .cons hasks hlines
      · rw [hsize, ← Builder.size_code_call]
        exact hconsecutive
      · rw [List.flatMap_cons, hfirstBytes, hbytes]

/-- **Disassembling an assembled program gives the program back.**  If a builder is given the calls
of a program of regular directives and gives code, the code is disassembled into one instruction for
each directive but `bind`, in order: the one that the directive asks for, at the address where the
builder stood when the call was made. -/
theorem disassemble_gives_program_back (program : Program)
    (hregular : ∀ d ∈ program, d.isRegular = true) (code : Code)
    (h : (Builder.new.calls program).build = .ok code) :
    ∃ is, code.disassemble = .ok is ∧
      List.Forall₂ (fun line i => line.2.AsksFor program line.1 i)
        (Builder.new.lines program) is := by
  obtain ⟨hrepeated, hblocks⟩ := build_eq_ok h
  have htable := LabelTable.resolves_labels hrepeated
  obtain ⟨is, hlines, hconsecutive, hformed, hbytes⟩ :=
    @exists_asksFor_of_blocks _ _ _ .new _ htable hregular hblocks
  exact ⟨is, Code.disassemble_eq_ok_iff.2 ⟨hbytes, hconsecutive, hformed⟩, hlines⟩

/-- A loop with a way out: the jump at 8 goes back to 0, and the branch at 1 forward to 13. -/
theorem loop_is_given_back :
    let program : Program := [.bind 7, .op 0x1A, .branch 0x99 9, .increment 0 (-1), .op 0x00,
      .branch 0xC8 7, .bind 9, .opShort 0x11 (-2), .opSignedByte 0x10 (-1), .opByte 0xBC 10,
      .op 0xB1]
    let code : Code := #[0x1A, 0x99, 0x00, 0x0C, 0x84, 0x00, 0xFF, 0x00, 0xC8, 0xFF, 0xFF, 0xFF,
      0xF8, 0x11, 0xFF, 0xFE, 0x10, 0xFF, 0xBC, 0x0A, 0xB1]
    (Builder.new.calls program).build = .ok code ∧ (∀ d ∈ program, d.isRegular = true) ∧
      ∃ is, code.disassemble = .ok is ∧
        List.Forall₂ (fun line i => line.2.AsksFor program line.1 i)
          (Builder.new.lines program) is := by
  intro program code
  have hbuild : (Builder.new.calls program).build = .ok code := by decide +kernel
  have hregular : ∀ d ∈ program, d.isRegular = true := by decide +kernel
  exact ⟨hbuild, hregular, disassemble_gives_program_back program hregular code hbuild⟩

end Program

end MethodMachine
