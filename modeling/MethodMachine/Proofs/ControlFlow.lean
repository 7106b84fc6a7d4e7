/-
# Control stays within the listing

A frame holds addresses in its program counter and in the return addresses on its stack and in its
locals.  `Confined P f` says that all of them meet `P`, and `Code.Closed code P` that decoding at an
address that meets `P` leads to no other: neither the address after the instruction nor the target
of a branch.  A step of a frame with closed code keeps it confined:

| the program counter goes to | which is |
| --- | --- |
| the next instruction | the address after this one |
| the target of a branch | a target in the code |
| the address in a local | a return address that the frame holds |

and a return address comes into a frame only by a branch to a subroutine, as the address after it:
no instruction has one for a constant (`decode_ne_push_returnAddress`).

The boundaries of a listing are closed if every branch of the listing goes to one, so a frame that
starts at the first of them never leaves them.
-/

import MethodMachine.Proofs.Decoding
import MethodMachine.Proofs.Listing
import MethodMachine.Proofs.Runs

namespace MethodMachine

namespace Operation

/-- Whether an operation neither branches nor pushes a reference to anything. -/
def isPlain : Operation → Bool
  | push (.reference (some _)) => false
  | branch .. => false
  | _ => true

end Operation

namespace Encoding

variable {operation : Operation}

/-- The operation of an encoding without operands. -/
def operation? : Encoding → Option Operation
  | plain operation => some operation
  | _ => none

theorem isPlain_of_operation? (op : Opcode) :
    ∀ operation ∈ (ofOpcode op).operation?, operation.isPlain = true := by
  revert op
  refine Opcode.forall_of_fin ?_
  decide +kernel

/-- The operations that an encoding can stand for, whatever the bytes of its operands. -/
inductive Announces (e : Encoding) : Operation → Prop where
  | plain {operation : Operation} : e = .plain operation → Announces e operation
  | constant (v : Int32) : Announces e (.push (.int v))
  | access (a : LocalAccess) (index : Nat) : Announces e (a.operation index)
  | increment (index : Nat) (delta : Int32) : Announces e (.increment index delta)
  | newArray (element : ElementType) : Announces e (.newArray element)
  | branch (b : Branch) (target : Int) : e.isBranch = true → Announces e (.branch b target)

theorem Allows.announces {e : Encoding} (h : e.Allows operation) : e.Announces operation := by
  cases e with
  | plain o =>
    cases h
    exact .plain rfl
  | constantByte | constantShort =>
    obtain ⟨v, rfl⟩ := h
    exact .constant v
  | indexed access =>
    obtain ⟨index, rfl⟩ := h
    exact .access access index
  | increment =>
    obtain ⟨index, delta, rfl⟩ := h
    exact .increment index delta
  | arrayType =>
    obtain ⟨element, rfl⟩ := h
    exact .newArray element
  | branch b | wideBranch b =>
    obtain ⟨target, rfl⟩ := h
    exact .branch b target rfl
  | widened | reserved | unsupported => cases h

/-- What is not plain is a branch. -/
theorem Announces.isPlain_or_isBranch {op : Opcode} (h : Announces (ofOpcode op) operation) :
    operation.isPlain = true ∨ op.isBranch = true ∧ ∃ b target, operation = .branch b target := by
  cases h with
  | plain he =>
    refine .inl (isPlain_of_operation? op operation ?_)
    rw [he]
    rfl
  | constant v => exact .inl rfl
  | access a index => cases a <;> exact .inl rfl
  | increment index delta => exact .inl rfl
  | newArray element => exact .inl rfl
  | branch b target he => exact .inr ⟨isBranch_ofOpcode op ▸ he, b, target, rfl⟩

end Encoding

namespace Operation

variable {code : Code} {address next : Nat} {op : Opcode} {e : Encoding} {operation : Operation}

theorem announces_decodeWidened (h : decodeWidened code address = .ok (operation, next)) :
    e.Announces operation := by
  obtain ⟨inner, -, h⟩ := exists_of_bind h
  obtain ⟨index, -, h⟩ := exists_of_bind h
  dsimp only at h
  split at h
  · cases h
    exact .access _ index
  · obtain ⟨delta, -, h⟩ := exists_of_bind h
    cases h
    exact .increment index _
  · cases h

theorem announces_decodeAs (h : decodeAs code address op e = .ok (operation, next)) :
    e.Announces operation := by
  by_cases he : e = .widened
  · subst he
    exact announces_decodeWidened h
  · exact (allows_decodeAs he h).announces

/-- What is decoded is what the opcode announces. -/
theorem announces_decode (h : decode code address = .ok (operation, next)) :
    ∃ op, code[address]? = some op ∧ (Encoding.ofOpcode op).Announces operation := by
  unfold decode at h
  split at h
  · cases h
  · rename_i op hop
    exact ⟨op, hop, announces_decodeAs h⟩

/-- No instruction has a return address for a constant. -/
theorem decode_ne_push_returnAddress {s : Slot} (h : decode code address = .ok (.push s, next))
    (pc : Nat) : s ≠ .ofReference (.returnAddress pc) := by
  rintro rfl
  obtain ⟨op, -, hannounces⟩ := announces_decode h
  rcases hannounces.isPlain_or_isBranch with hplain | ⟨-, b, target, hbranch⟩
  · cases hplain
  · cases hbranch

/-- Only a branch opcode branches. -/
theorem isBranch_of_decode {b : Branch} {target : Int}
    (h : decode code address = .ok (.branch b target, next)) :
    ∃ op : Opcode, code[address]? = some op ∧ op.isBranch = true := by
  obtain ⟨op, hop, hannounces⟩ := announces_decode h
  rcases hannounces.isPlain_or_isBranch with hplain | ⟨hbranch, -⟩
  · cases hplain
  · exact ⟨op, hop, hbranch⟩

end Operation

/-- Decoding at an address that meets a property leads only to addresses that meet it. -/
structure Code.Closed (code : Code) (P : Nat → Prop) : Prop where
  next {address next : Nat} {operation : Operation} : P address →
    Operation.decode code address = .ok (operation, next) → P next
  target {address next target : Nat} {b : Branch} : P address →
    Operation.decode code address = .ok (.branch b target, next) → target < code.size → P target

namespace Frame

variable {P : Nat → Prop} {f g : Frame} {operation : Operation}

/-- All addresses that a frame holds meet a property. -/
structure Confined (P : Nat → Prop) (f : Frame) : Prop where
  pc : P f.pc
  stack (address : Nat) : .ofReference (.returnAddress address) ∈ f.stack → P address
  locals (address : Nat) : .ofReference (.returnAddress address) ∈ f.locals → P address

/-- A return address that an operation supplies was there before, or is the address after a branch
to a subroutine. -/
theorem Confined.of_supplies (h : Confined P f) {address : Nat}
    (hpush : operation ≠ .push (.ofReference (.returnAddress address)))
    (hsupplies : operation.Supplies f (.ofReference (.returnAddress address))) : P address := by
  cases hsupplies with
  | stack hmem => exact h.stack address hmem
  | locals hmem => exact h.locals address hmem
  | constant heq => exact absurd heq hpush
  | returnAddress _ => exact h.pc

/-- An operation keeps a frame confined if its constant and its target are. -/
theorem Confined.of_change (h : Confined P f) (hchange : operation.Change f g)
    (hpush : ∀ address, operation ≠ .push (.ofReference (.returnAddress address)))
    (htarget : ∀ b (target : Nat), operation = .branch b target → target < f.code.size → P target) :
    Confined P g where
  pc := by
    rcases hchange.pc with hpc | hleads
    · rw [hpc]
      exact h.pc
    · cases hleads with
      | branch hbranch hlt => exact htarget _ _ hbranch hlt
      | returnAddress _ hmem _ => exact h.locals _ hmem
  stack address hmem := h.of_supplies (hpush address) (hchange.stack _ hmem)
  locals address hmem := h.of_supplies (hpush address) (hchange.locals _ hmem)

/-- **A step keeps a frame confined**, trap or not. -/
theorem Confined.next (hclosed : f.code.Closed P) (h : Confined P f) : Confined P f.next := by
  unfold Frame.next
  rcases step_cases f with ⟨t, hstep, -⟩ | ⟨operation, pc, hdecode, hstep⟩
  · rw [hstep]
    exact h
  · rw [hstep]
    have hmoved : Confined P { f with pc := pc, steps := f.steps + 1 } :=
      { h with pc := hclosed.next h.pc hdecode }
    refine hmoved.of_change (Execution.follows_execute ..).change ?_ ?_
    · rintro address rfl
      exact Operation.decode_ne_push_returnAddress hdecode address rfl
    · rintro b target rfl hlt
      exact hclosed.target h.pc hdecode hlt

/-- **Any number of steps keeps a frame confined.** -/
theorem Confined.after (hclosed : f.code.Closed P) (h : Confined P f) (n : Nat) :
    Confined P (f.after n) := by
  induction n with
  | zero => exact h
  | succ n ih =>
    refine Confined.next ?_ ih
    rw [code_after]
    exact hclosed

theorem confined_new (code : Code) (locals : Nat) (heap : Heap) (h : P 0) :
    Confined P (new code locals heap) where
  pc := h
  stack _ hmem := nomatch hmem
  locals _ hmem := by
    have hempty := (Array.mem_replicate.1 hmem).2
    cases hempty

/-- The frame with slots put into its locals.  A slot for a local that it does not have is left
out. -/
def setLocals (f : Frame) : List (Nat × Slot) → Frame
  | [] => f
  | (index, s) :: rest =>
    match f.setLocal index s with
    | .ok g => g.setLocals rest
    | .error _ => f.setLocals rest

theorem setLocal_eq_ok {index : Nat} {s : Slot} (h : f.setLocal index s = .ok g) :
    g = { f with locals := f.locals.setIfInBounds index s } := by
  unfold setLocal Locals.store at h
  split at h
  · cases h
    rfl
  · cases h

/-- Arguments change the locals only. -/
theorem setLocals_eq (f : Frame) (args : List (Nat × Slot)) :
    f.setLocals args = { f with locals := (f.setLocals args).locals } := by
  fun_induction setLocals f args with
  | case1 f => rfl
  | case2 f index s rest g hset ih =>
    obtain rfl := setLocal_eq_ok hset
    exact ih
  | case3 f index s rest t hset ih => exact ih

@[simp] theorem code_setLocals (f : Frame) (args : List (Nat × Slot)) :
    (f.setLocals args).code = f.code := by
  rw [setLocals_eq]

@[simp] theorem status_setLocals (f : Frame) (args : List (Nat × Slot)) :
    (f.setLocals args).status = f.status := by
  rw [setLocals_eq]

@[simp] theorem stack_setLocals (f : Frame) (args : List (Nat × Slot)) :
    (f.setLocals args).stack = f.stack := by
  rw [setLocals_eq]

/-- Arguments that are no return addresses bring no address into a frame. -/
theorem Confined.setLocals {args : List (Nat × Slot)} (h : Confined P f)
    (hargs : ∀ arg ∈ args, ∀ address, arg.2 ≠ .ofReference (.returnAddress address)) :
    Confined P (f.setLocals args) := by
  fun_induction Frame.setLocals f args with
  | case1 f => exact h
  | case2 f index s rest g hset ih =>
    obtain rfl := setLocal_eq_ok hset
    refine ih { h with locals := fun address hmem => ?_ } fun arg harg =>
      hargs arg (List.mem_cons_of_mem _ harg)
    rcases Array.mem_or_eq_of_mem_setIfInBounds hmem with hold | hnew
    · exact h.locals address hold
    · exact absurd hnew.symm (hargs (index, s) (List.mem_cons_self ..) address)
  | case3 f index s rest t hset ih =>
    exact ih h fun arg harg => hargs arg (List.mem_cons_of_mem _ harg)

end Frame

namespace Code

variable {code : Code} {offset : Nat} {is : List Instruction} {i : Instruction}

/-- The target of a branch in a listing is the one that the machine decodes. -/
theorem target?_of_decode {b : Branch} {target next : Nat} (hi : i.StandsIn code)
    (h : Operation.decode code i.offset = .ok (.branch b target, next)) :
    i.target? = some target := by
  obtain ⟨op, hop, hbranch⟩ := Operation.isBranch_of_decode h
  obtain rfl : i.opcode = op := Option.some.inj (hi.opcode.symm.trans hop)
  obtain ⟨hwidth, b', hdecode⟩ := Operation.decode_of_isBranch hop hbranch hi.count
  have htarget := Operation.target?_of_isBranch hbranch hwidth (le_size_of_operandCount hi.count)
  rw [← hi.operands] at htarget
  rw [hdecode] at h
  obtain ⟨-, heq⟩ := Operation.branch.inj (congrArg Prod.fst (Except.ok.inj h))
  rw [heq] at htarget
  exact htarget

/-- **The boundaries of a listing are closed** if every branch of the listing that stays in the code
goes to one. -/
theorem Listing.closed (h : Listing code offset is)
    (htargets : ∀ i ∈ is, ∀ target, i.target? = some target → target < code.size →
      ∃ j ∈ is, j.offset = target) :
    code.Closed (Boundary code is) where
  next {address next operation} haddress hdecode := by
    obtain ⟨count, hcount, rfl⟩ := Operation.operandCount_of_decode hdecode
    rcases haddress with ⟨i, hi, rfl⟩ | rfl
    · have hlength : i.operands.length = count :=
        Except.ok.inj ((h.standsIn hi).count.symm.trans hcount)
      have hnext := h.boundary_next hi
      rwa [Instruction.size, hlength, ← Nat.add_assoc] at hnext
    · have hle := le_size_of_operandCount hcount
      omega
  target {address next target b} haddress hdecode hlt := by
    rcases haddress with ⟨i, hi, rfl⟩ | rfl
    · exact .inl (htargets i hi target (target?_of_decode (h.standsIn hi) hdecode) hlt)
    · obtain ⟨op, hop, -⟩ := Operation.isBranch_of_decode hdecode
      obtain ⟨hsize, -⟩ := Array.getElem?_eq_some_iff.1 hop
      omega

end Code

namespace Frame

variable {f g : Frame} {is : List Instruction} {offset : Nat}

/-- At a boundary, a step runs out of code only at the end of the code. -/
theorem pc_of_codeOutOfBounds {pc : Nat} (hlisting : f.code.Listing offset is)
    (hboundary : f.code.Boundary is f.pc) (h : step f = .error (.codeOutOfBounds pc) g) :
    f.pc = f.code.size := by
  rcases hboundary with ⟨i, hi, hoffset⟩ | hend
  · have hcount := (hlisting.standsIn hi).count
    rw [hoffset] at hcount
    rcases step_cases f with ⟨t, hstep, rfl | hdecode⟩ | ⟨operation, next, -, hstep⟩
    · rw [hstep] at h
      cases h
    · rw [hstep] at h
      cases h
      -- a measured instruction is refused for what it is, or decoded
      rcases Operation.spans_decode hcount with ⟨operation, hok⟩ | ⟨t, herror, hrefusal⟩
      · rw [hok] at hdecode
        cases hdecode
      · rw [herror] at hdecode
        cases hdecode
        cases hrefusal
    · have hmeets := (Execution.follows_execute f.pc operation
        { f with pc := next, steps := f.steps + 1 }).meets
      rw [← hstep, h] at hmeets
      cases hmeets
  · exact hend

/-- **The listing covers every execution.**  If every branch of the listing that stays in the code
goes to an instruction of the listing, then a frame that starts without return addresses is, after
any number of steps, at an instruction of the listing or at the end of the code, and only there
does it run out of code. -/
theorem control_stays_in_listing (code : Code) (is : List Instruction)
    (hlisting : code.disassemble = .ok is)
    (htargets : ∀ i ∈ is, ∀ target, i.target? = some target → target < code.size →
      ∃ j ∈ is, j.offset = target)
    (locals : Nat) (heap : Heap) (args : List (Nat × Slot))
    (hargs : ∀ arg ∈ args, ∀ address, arg.2 ≠ .ofReference (.returnAddress address)) (n : Nat) :
    let f := ((new code locals heap).setLocals args).after n
    ((∃ i ∈ is, i.offset = f.pc) ∨ f.pc = code.size) ∧
      ∀ pc g, step f = .error (.codeOutOfBounds pc) g → f.pc = code.size := by
  intro f
  have hlisting := Code.listing_of_disassembleFrom (Nat.zero_le _) hlisting
  have hclosed := hlisting.closed htargets
  have hstart : Confined (code.Boundary is) ((new code locals heap).setLocals args) :=
    (confined_new code locals heap hlisting.boundary).setLocals hargs
  have hcode : ((new code locals heap).setLocals args).code = code := code_setLocals ..
  have hconfined : Confined (code.Boundary is) f := by
    refine hstart.after ?_ n
    rwa [hcode]
  have hsame : f.code = code := (code_after ..).trans hcode
  refine ⟨hconfined.pc, fun pc g hstep => ?_⟩
  rw [← hsame] at hlisting ⊢
  refine pc_of_codeOutOfBounds hlisting ?_ hstep
  rw [hsame]
  exact hconfined.pc

/-- A subroutine keeps its return address in a local and goes back to it: the jump at 0 goes to 4,
and the return at 5 to 3. -/
theorem subroutine_stays_in_listing :
    let code : Code := #[0xA8, 0x00, 0x04, 0xB1, 0x4B, 0xA9, 0x00]
    let is : List Instruction :=
      [⟨0, 0xA8, [0x00, 0x04]⟩, ⟨3, 0xB1, []⟩, ⟨4, 0x4B, []⟩, ⟨5, 0xA9, [0x00]⟩]
    let f := ((new code 2 #[]).setLocals [(1, .int 7)]).after 3
    code.disassemble = .ok is ∧ f.pc = 3 ∧
      ((∃ i ∈ is, i.offset = f.pc) ∨ f.pc = code.size) ∧
      ∀ pc g, step f = .error (.codeOutOfBounds pc) g → f.pc = code.size := by
  intro code is f
  have hlisting : code.disassemble = .ok is := by cbv
  have htargets : ∀ i ∈ is, ∀ target ∈ i.target?, target < code.size →
      ∃ j ∈ is, j.offset = target := by decide
  have hargs : ∀ arg ∈ [(1, Slot.int 7)], ∀ address,
      arg.2 ≠ .ofReference (.returnAddress address) := by
    rintro arg harg address heq
    cases List.mem_singleton.1 harg
    cases heq
  have hpc : f.pc = 3 := by decide +kernel
  exact ⟨hlisting, hpc, control_stays_in_listing code is hlisting htargets 2 #[] _ hargs 3⟩

end Frame

end MethodMachine
