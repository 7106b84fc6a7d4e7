/-
# Listings

The disassembler walks through the code from one instruction to the next.  `Listing code offset is`
describes what it finds without the walk: every instruction of `is` stands in the code
(`Instruction.StandsIn`), each begins where the one before it ends, the first at `offset`, and the
last ends where the code does.

The addresses that a listing knows are its boundaries, the offsets of its instructions and the end
of the code.  From one boundary the next instruction leads to another (`Listing.boundary_next`).
-/

import MethodMachine.Proofs.DecoderAgreement

namespace MethodMachine

namespace Instruction

/-- An instruction is the one that the code has at its offset. -/
structure StandsIn (i : Instruction) (code : Code) : Prop where
  opcode : code[i.offset]? = some i.opcode
  count : code.operandCount i.offset = .ok i.operands.length
  operands : i.operands = (code.extract (i.offset + 1) (i.offset + 1 + i.operands.length)).toList

end Instruction

namespace Code

variable {code : Code} {offset address : Nat} {is rest : List Instruction} {i : Instruction}

/-- Instructions that follow one another from an offset to the end of the code. -/
inductive Listing (code : Code) : Nat → List Instruction → Prop where
  | done : Listing code code.size []
  | next {i : Instruction} {rest : List Instruction} : i.StandsIn code →
    Listing code (i.offset + i.size) rest → Listing code i.offset (i :: rest)

theorem length_of_operandCount {count : Nat} (h : code.operandCount offset = .ok count) :
    (code.extract (offset + 1) (offset + 1 + count)).toList.length = count := by
  have hle := le_size_of_operandCount h
  simp
  omega

/-- The instruction at an offset, as the disassembler cuts it out. -/
theorem standsIn_of_operandCount {count : Nat} (hlt : offset < code.size)
    (hcount : code.operandCount offset = .ok count) :
    Instruction.StandsIn
      ⟨offset, code[offset], (code.extract (offset + 1) (offset + 1 + count)).toList⟩ code := by
  have hlength := length_of_operandCount hcount
  refine ⟨Array.getElem?_eq_getElem hlt, ?_, ?_⟩
  · rw [hlength, hcount]
  · rw [hlength]

/-- **The disassembler gives a listing.** -/
theorem listing_of_disassembleFrom (hle : offset ≤ code.size)
    (h : code.disassembleFrom offset = .ok is) : Listing code offset is := by
  fun_induction disassembleFrom code offset generalizing is
  case case1 offset hlt e hcount => cases h
  case case2 offset hlt count hcount next instruction ih =>
    have hnext := le_size_of_operandCount hcount
    have hsize : instruction.offset + instruction.size = next := by
      rw [Instruction.size, length_of_operandCount hcount, ← Nat.add_assoc]
    cases hrest : code.disassembleFrom next with
    | error e =>
      rw [hrest] at h
      cases h
    | ok rest =>
      rw [hrest] at h
      cases h
      refine .next (standsIn_of_operandCount hlt hcount) ?_
      exact hsize ▸ ih hnext hrest
  case case3 offset hlt =>
    cases h
    obtain rfl : offset = code.size := by omega
    exact .done

/-- An address that a listing knows: the offset of an instruction, or the end of the code. -/
def Boundary (code : Code) (is : List Instruction) (address : Nat) : Prop :=
  (∃ i ∈ is, i.offset = address) ∨ address = code.size

theorem Boundary.cons (h : Boundary code rest address) : Boundary code (i :: rest) address := by
  rcases h with ⟨j, hj, hoffset⟩ | hend
  · exact .inl ⟨j, List.mem_cons_of_mem i hj, hoffset⟩
  · exact .inr hend

/-- A listing begins at a boundary. -/
theorem Listing.boundary (h : Listing code offset is) : Boundary code is offset := by
  cases h with
  | done => exact .inr rfl
  | @next i rest _ _ => exact .inl ⟨i, List.mem_cons_self .., rfl⟩

theorem Listing.standsIn (h : Listing code offset is) (hi : i ∈ is) : i.StandsIn code := by
  induction h with
  | done => cases hi
  | next hstands _ ih =>
    rcases List.mem_cons.1 hi with rfl | hi
    · exact hstands
    · exact ih hi

/-- An instruction of a listing ends at a boundary. -/
theorem Listing.boundary_next (h : Listing code offset is) (hi : i ∈ is) :
    Boundary code is (i.offset + i.size) := by
  induction h with
  | done => cases hi
  | next _ hrest ih =>
    rcases List.mem_cons.1 hi with rfl | hi
    · exact hrest.boundary.cons
    · exact (ih hi).cons

end Code

end MethodMachine
