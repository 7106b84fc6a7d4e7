/-
# Return addresses come from calls

A return address is a reference like any other: it is stored, loaded, copied and returned.  But no
instruction makes one except a branch to a subroutine, which pushes the address after itself.  So
every return address that a frame holds after some steps was put in as an argument, or it is the
address after a branch to a subroutine that the code has somewhere (`Code.FollowsCall`).  This asks
nothing of the code: the branch may stand in the middle of another instruction, and it may have been
refused, in which case its return address is on the stack all the same.

So without return addresses among the arguments, a return from a subroutine goes to such an address.
What it can meet instead is this:

| local | trap |
| --- | --- |
| missing | index of a local out of bounds |
| holds something else | not a return address |
| holds the end of the code | branch out of bounds, to the end of the code |

The last happens when a branch to a subroutine is the last instruction of the code.
-/

import MethodMachine.Proofs.ControlFlow
import MethodMachine.Proofs.Footprint

namespace MethodMachine

/-- An address is the one after a branch to a subroutine that can be decoded somewhere in the
code. -/
def Code.FollowsCall (code : Code) (address : Nat) : Prop :=
  ∃ call target, Operation.decode code call = .ok (.branch .subroutine target, address)

theorem Code.FollowsCall.le_size {code : Code} {address : Nat} (h : code.FollowsCall address) :
    address ≤ code.size := by
  obtain ⟨call, target, hdecode⟩ := h
  exact Operation.le_size_of_decode hdecode

namespace Execution

variable {origin index : Nat} {f : Frame}

theorem jump_of_lt {address : Nat} (h : address < f.code.size) :
    jump origin address f = .ok () { f with pc := address } := by
  have hbounds : 0 ≤ (address : Int) ∧ (address : Int) < f.code.size := by omega
  show (if 0 ≤ (address : Int) ∧ (address : Int) < f.code.size then _ else _ : Execution Unit) f = _
  rw [if_pos hbounds]
  rfl

theorem jump_of_size_le {address : Nat} (h : f.code.size ≤ address) :
    jump origin address f = .error (.branchOutOfBounds origin (Int64.ofInt address)) f := by
  have hbounds : ¬(0 ≤ (address : Int) ∧ (address : Int) < f.code.size) := by omega
  show (if 0 ≤ (address : Int) ∧ (address : Int) < f.code.size then _ else _ : Execution Unit) f = _
  rw [if_neg hbounds]
  rfl

theorem loadLocal_of_some {s : Slot} (h : f.locals[index]? = some s) :
    loadLocal index f = .ok s f := by
  show ofExcept (f.locals.load index) f = _
  rw [Locals.load, h]
  rfl

theorem loadLocal_of_none (h : f.locals[index]? = none) :
    loadLocal index f = .error (.localIndexOutOfBounds index) f := by
  show ofExcept (f.locals.load index) f = _
  rw [Locals.load, h]
  rfl

/-- A return from a subroutine jumps to a return address among the locals, or it is refused. -/
theorem returnFromSubroutine_cases (origin index : Nat) (f : Frame) :
    (∃ address : Nat, .ofReference (.returnAddress address) ∈ f.locals ∧
      returnFromSubroutine origin index f = jump origin address f) ∨
    returnFromSubroutine origin index f = .error (.notAReturnAddress index) f ∨
    returnFromSubroutine origin index f = .error (.localIndexOutOfBounds index) f := by
  unfold returnFromSubroutine
  cases hlocal : f.locals[index]? with
  | none =>
    rw [bind_of_error (loadLocal_of_none hlocal)]
    exact .inr (.inr rfl)
  | some s =>
    rw [bind_of_ok (loadLocal_of_some hlocal)]
    cases s with
    | reference r =>
      rcases r with _ | (id | address)
      · exact .inr (.inl rfl)
      · exact .inr (.inl rfl)
      · exact .inl ⟨address, Array.mem_of_getElem? hlocal, rfl⟩
    | _ => exact .inr (.inl rfl)

end Execution

namespace Frame

variable {f : Frame}

/-- Every return address that a frame holds follows a branch to a subroutine. -/
def ReturnsToCalls (f : Frame) : Prop :=
  ∀ address, f.Holds (.ofReference (.returnAddress address)) → f.code.FollowsCall address

/-- **A step makes no return address but after a branch to a subroutine**, trap or not. -/
theorem ReturnsToCalls.next (h : f.ReturnsToCalls) : f.next.ReturnsToCalls := by
  intro address hholds
  rw [code_next]
  rcases holds_next hholds with
    hold | (hnumber | hnull) | ⟨hobject, -⟩ | ⟨target, pc, hdecode, hcall⟩
  · exact h address hold
  · cases hnumber
  · cases hnull
  · cases hobject
  · cases hcall
    exact ⟨f.pc, target, hdecode⟩

/-- **Nor do any number of steps.** -/
theorem ReturnsToCalls.after (h : f.ReturnsToCalls) (n : Nat) : (f.after n).ReturnsToCalls :=
  after_induction h (fun _ => ReturnsToCalls.next) n

/-- A slot in a local is an argument or was there before. -/
theorem mem_locals_setLocals {args : List (Nat × Slot)} {s : Slot}
    (h : s ∈ (f.setLocals args).locals) : s ∈ f.locals ∨ ∃ arg ∈ args, arg.2 = s := by
  fun_induction setLocals f args with
  | case1 f => exact .inl h
  | case2 f index s' rest g hset ih =>
    rcases ih h with hmem | ⟨arg, harg, rfl⟩
    · obtain rfl := setLocal_eq_ok hset
      rcases Array.mem_or_eq_of_mem_setIfInBounds hmem with hold | rfl
      · exact .inl hold
      · exact .inr ⟨(index, s), List.mem_cons_self .., rfl⟩
    · exact .inr ⟨arg, List.mem_cons_of_mem _ harg, rfl⟩
  | case3 f index s' rest t hset ih =>
    rcases ih h with hmem | ⟨arg, harg, rfl⟩
    · exact .inl hmem
    · exact .inr ⟨arg, List.mem_cons_of_mem _ harg, rfl⟩

/-- A new frame holds its arguments and empty slots. -/
theorem holds_setLocals_new {code : Code} {locals : Nat} {heap : Heap} {args : List (Nat × Slot)}
    {s : Slot} (h : ((new code locals heap).setLocals args).Holds s) :
    s = .empty ∨ ∃ arg ∈ args, arg.2 = s := by
  cases h with
  | stack hmem =>
    rw [stack_setLocals] at hmem
    cases hmem
  | locals hmem =>
    rcases mem_locals_setLocals hmem with hempty | harg
    · exact .inl (Array.mem_replicate.1 hempty).2
    · exact .inr harg
  | value hvalue =>
    rw [value?, status_setLocals] at hvalue
    cases hvalue

/-- What a step does that returns from a subroutine: it goes to an address after a branch to one, or
it traps for what its local is. -/
theorem step_of_return {operation : Operation} {next : Nat} (h : f.ReturnsToCalls)
    (hrunning : f.status = .running) (hop : f.code.opcodeAt? f.pc = some 0xA9)
    (hdecode : Operation.decode f.code f.pc = .ok (operation, next)) :
    (∃ address, f.code.FollowsCall address ∧
      step f = .ok () { f with pc := address, steps := f.steps + 1 }) ∨
    ∃ t g, step f = .error t g ∧
      ((∃ index, t = .notAReturnAddress index) ∨ (∃ index, t = .localIndexOutOfBounds index) ∨
        t = .branchOutOfBounds f.pc (Int64.ofInt f.code.size)) := by
  obtain ⟨op, hop', hallows⟩ := Operation.allows_decode hdecode
  obtain rfl : op = 0xA9 := Option.some.inj (hop'.symm.trans hop)
  obtain ⟨index, rfl⟩ : ∃ index, operation = .returnFromSubroutine index := hallows
  rw [step_of_decode hrunning hdecode]
  rcases Execution.returnFromSubroutine_cases f.pc index
    { f with pc := next, steps := f.steps + 1 } with ⟨address, hlocal, hjump⟩ | htrap | htrap
  · have hfollows : f.code.FollowsCall address := h address (.locals hlocal)
    rcases Nat.lt_or_eq_of_le hfollows.le_size with hlt | hend
    · exact .inl ⟨address, hfollows, hjump.trans (Execution.jump_of_lt hlt)⟩
    · -- the branch to the subroutine was the last instruction of the code
      have hrefused := hjump.trans (Execution.jump_of_size_le (Nat.le_of_eq hend.symm))
      rw [hend] at hrefused
      exact .inr ⟨_, _, hrefused, .inr (.inr rfl)⟩
  · exact .inr ⟨_, _, htrap, .inl ⟨index, rfl⟩⟩
  · exact .inr ⟨_, _, htrap, .inr (.inl ⟨index, rfl⟩)⟩

/-- **Return addresses come from calls.**  In a frame that starts without return addresses, whatever
its code is, every return address on the stack, in a local or in the value is after any number of
steps the address after a branch to a subroutine, so it lies in the code or at its end.  A return
from a subroutine, plain or `wide`, goes to such an address or traps, and if the trap is for the
address, that is the end of the code. -/
theorem return_addresses_follow_calls (code : Code) (locals : Nat) (heap : Heap)
    (args : List (Nat × Slot))
    (hargs : ∀ arg ∈ args, ∀ address, arg.2 ≠ .ofReference (.returnAddress address)) (n : Nat) :
    let f := ((new code locals heap).setLocals args).after n
    (∀ address, f.Holds (.ofReference (.returnAddress address)) →
      code.FollowsCall address ∧ address ≤ code.size) ∧
    ∀ operation next, f.status = .running → code.opcodeAt? f.pc = some 0xA9 →
      Operation.decode code f.pc = .ok (operation, next) →
      (∃ address, code.FollowsCall address ∧
        step f = .ok () { f with pc := address, steps := f.steps + 1 }) ∨
      ∃ t g, step f = .error t g ∧
        ((∃ index, t = .notAReturnAddress index) ∨ (∃ index, t = .localIndexOutOfBounds index) ∨
          t = .branchOutOfBounds f.pc (Int64.ofInt code.size)) := by
  intro f
  have hcode : f.code = code := (code_after ..).trans (code_setLocals ..)
  have hstart : ((new code locals heap).setLocals args).ReturnsToCalls := by
    intro address hholds
    rcases holds_setLocals_new hholds with hempty | ⟨arg, harg, heq⟩
    · cases hempty
    · exact absurd heq (hargs arg harg address)
  have hcalls : f.ReturnsToCalls := hstart.after n
  refine ⟨fun address hholds => ?_, fun operation next hrunning hop hdecode => ?_⟩
  · have hfollows := hcalls address hholds
    rw [hcode] at hfollows
    exact ⟨hfollows, hfollows.le_size⟩
  · rw [← hcode] at hop hdecode ⊢
    exact step_of_return hcalls hrunning hop hdecode

/-- A call at the end of the code, from 6 to 3, has the end of the code for its return address, and
the return at 4 is refused. -/
theorem call_at_end_cannot_return :
    let code : Code := #[0xA7, 0x00, 0x06, 0x4B, 0xA9, 0x00, 0xA8, 0xFF, 0xFD]
    let f := ((new code 1 #[]).setLocals [(0, .int 7)]).after 3
    f.Holds (.ofReference (.returnAddress 9)) ∧ code.FollowsCall 9 ∧
      f.trap? = some (.branchOutOfBounds 4 9) ∧
      ((∃ address, code.FollowsCall address ∧
        step f = .ok () { f with pc := address, steps := f.steps + 1 }) ∨
      ∃ t g, step f = .error t g ∧
        ((∃ index, t = .notAReturnAddress index) ∨ (∃ index, t = .localIndexOutOfBounds index) ∨
          t = .branchOutOfBounds f.pc (Int64.ofInt code.size))) := by
  intro code f
  have hargs : ∀ arg ∈ [(0, Slot.int 7)], ∀ address,
      arg.2 ≠ .ofReference (.returnAddress address) := by
    rintro arg harg address heq
    cases List.mem_singleton.1 harg
    cases heq
  have hholds : f.Holds (.ofReference (.returnAddress 9)) := .locals (by decide +kernel)
  have hpc : f.pc = 4 := by decide +kernel
  have hdecode : Operation.decode code f.pc = .ok (.returnFromSubroutine 0, 6) := by
    rw [hpc]
    rfl
  obtain ⟨hfollows, hreturn⟩ := return_addresses_follow_calls code 1 #[] _ hargs 3
  exact ⟨hholds, (hfollows 9 hholds).1, by decide +kernel,
    hreturn _ _ (by decide +kernel) (by decide +kernel) hdecode⟩

end Frame

end MethodMachine
