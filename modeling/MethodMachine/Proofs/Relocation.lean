/-
# Code runs wherever it stands

An instruction is decoded from its own bytes, a branch goes a distance from its own address, and a
return address is made from the program counter.  So code does the same wherever it stands in other
code, with all its addresses moved.  Run from the start behind `n` instructions that do nothing,
with anything behind it, code makes `n` steps to reach its own beginning and from there the steps it
makes alone (`execution_is_position_independent`).

The arguments must hold no return address: one that comes from outside does not move with the code.
-/

import MethodMachine.Proofs.ViewedSteps

namespace MethodMachine

/-- A slot with its return address moved, if it is one. -/
def Slot.relocate (n : Nat) : Slot → Slot
  | reference (some (.returnAddress pc)) => reference (some (.returnAddress (pc + n)))
  | s => s

/-- A status with the return address in its value moved, if it is one. -/
def Status.relocate (n : Nat) : Status → Status
  | running => running
  | returned value => returned (value.map (Slot.relocate n))

/-- The code with `n` instructions in front that do nothing, and other code behind it. -/
def Code.padded (code : Code) (n : Nat) (suffix : Code) : Code :=
  Array.replicate n 0x00 ++ code ++ suffix

namespace Frame

variable {f : Frame} {n : Nat}

/-- The frame in padded code, with all its addresses moved, after `n` more steps. -/
def relocate (f : Frame) (n : Nat) (suffix : Code) : Frame where
  code := f.code.padded n suffix
  pc := f.pc + n
  stack := f.stack.map (Slot.relocate n)
  locals := f.locals.map (Slot.relocate n)
  heap := f.heap
  status := f.status.relocate n
  steps := f.steps + n

/-- The view of a frame behind instructions that do nothing. -/
def padding (n : Nat) (suffix : Code) : View where
  front := Array.replicate n 0x00
  back := suffix
  earlier := n

theorem slot_padding (n : Nat) (suffix : Code) (s : Slot) :
    (padding n suffix).slot s = s.relocate n := by
  have hsize : (padding n suffix).front.size = n := Array.size_replicate
  match s with
  | .reference (some (.returnAddress pc)) =>
    rw [View.slot, Option.map_some, View.reference, hsize, Nat.add_comm]
    rfl
  | .reference (some (.object id)) => rfl
  | .reference none => rfl
  | .boolean b => rfl
  | .empty | .int _ | .long _ | .float _ | .double _ => rfl

theorem frame_padding (n : Nat) (suffix : Code) (f : Frame) :
    (padding n suffix).frame f = f.relocate n suffix := by
  have hslot : (padding n suffix).slot = Slot.relocate n := funext (slot_padding n suffix)
  have hsize : (padding n suffix).front.size = n := Array.size_replicate
  have hstatus : (padding n suffix).status f.status = f.status.relocate n := by
    cases f.status with
    | running => rfl
    | returned value => rw [View.status, hslot]; rfl
  rw [View.frame, View.stack, View.locals, hslot, hstatus, hsize]
  simp [padding, relocate, Code.padded, View.code, Nat.add_comm]

/-- An instruction that does nothing goes on to the next. -/
theorem step_of_nop (hrunning : f.status = .running) (hop : f.code[f.pc]? = some 0x00) :
    step f = .ok () { f with pc := f.pc + 1, steps := f.steps + 1 } := by
  have hdecode : Operation.decode f.code f.pc = .ok (.nop, f.pc + 1) := by
    rw [Operation.decode, hop]
    rfl
  rw [step_of_decode hrunning hdecode]
  rfl

theorem after_of_nops (hrunning : f.status = .running)
    (hops : ∀ i < n, f.code[f.pc + i]? = some 0x00) :
    f.after n = { f with pc := f.pc + n, steps := f.steps + n } := by
  induction n with
  | zero => rfl
  | succ n ih =>
    have hbefore := ih fun i hi => hops i (Nat.lt_succ_of_lt hi)
    have hstep := @step_of_nop { f with pc := f.pc + n, steps := f.steps + n } hrunning
      (hops n (Nat.lt_succ_self n))
    rw [after, hbefore, next, hstep]
    rfl

theorem trap?_of_nops (hrunning : f.status = .running)
    (hops : ∀ i < n, f.code[f.pc + i]? = some 0x00) {i : Nat} (hi : i < n) :
    (f.after i).trap? = none := by
  have hbefore := after_of_nops hrunning fun j hj => hops j (Nat.lt_trans hj hi)
  have hstep := @step_of_nop { f with pc := f.pc + i, steps := f.steps + i } hrunning (hops i hi)
  rw [hbefore, trap?, hstep]

/-- Arguments are stored without regard to the code and the program counter. -/
theorem setLocals_with (f : Frame) (code : Code) (pc steps : Nat) (args : List (Nat × Slot)) :
    { f with code := code, pc := pc, steps := steps }.setLocals args =
      { f.setLocals args with code := code, pc := pc, steps := steps } := by
  induction args generalizing f with
  | nil => rfl
  | cons arg args ih =>
    obtain ⟨index, s⟩ := arg
    rw [setLocals, setLocals, setLocal, setLocal]
    cases f.locals.store index s with
    | ok locals => exact ih { f with locals := locals }
    | error t => exact ih f

theorem relocate_of_not_returnAddress {s : Slot}
    (h : ∀ address, s ≠ .ofReference (.returnAddress address)) : s.relocate n = s := by
  unfold Slot.relocate
  split
  · rename_i pc
    exact absurd rfl (h pc)
  · rfl

section fresh

variable (code suffix : Code) (locals : Nat) (heap : Heap) {args : List (Nat × Slot)} (n : Nat)

/-- A fresh frame in padded code differs from one in the code alone only by its code. -/
theorem setLocals_new_padded (args : List (Nat × Slot)) :
    (new (code.padded n suffix) locals heap).setLocals args =
      { (new code locals heap).setLocals args with
        code := code.padded n suffix, pc := 0, steps := 0 } :=
  setLocals_with (new code locals heap) (code.padded n suffix) 0 0 args

theorem getElem?_padded {i : Nat} (hi : i < n) : (code.padded n suffix)[i]? = some 0x00 := by
  simp [Code.padded, Array.getElem?_append, hi]

/-- The instructions that do nothing lead to the beginning of the code. -/
theorem after_padding
    (hargs : ∀ arg ∈ args, ∀ address, arg.2 ≠ .ofReference (.returnAddress address)) :
    ((new (code.padded n suffix) locals heap).setLocals args).after n =
      ((new code locals heap).setLocals args).relocate n suffix := by
  have hsame : args.map (fun arg => (arg.1, (padding n suffix).slot arg.2)) = args := by
    have hslot : ∀ arg ∈ args, (arg.1, (padding n suffix).slot arg.2) = arg := fun arg harg => by
      rw [slot_padding, relocate_of_not_returnAddress (hargs arg harg)]
    rw [List.map_congr_left hslot, List.map_id']
  have hnew : (new code locals heap).relocate n suffix =
      { new code locals heap with code := code.padded n suffix, pc := n, steps := n } := by
    simp [relocate, new, Locals.new, Status.relocate, Slot.relocate]
  have hmoved : ((new code locals heap).setLocals args).relocate n suffix =
      { (new code locals heap).setLocals args with
        code := code.padded n suffix, pc := n, steps := n } := by
    rw [← frame_padding, ← View.setLocals_frame rfl, hsame, frame_padding, hnew]
    exact setLocals_with (new code locals heap) _ n n args
  rw [hmoved, setLocals_new_padded, after_of_nops]
  · simp
  · exact status_setLocals ..
  · intro i hi
    rw [Nat.zero_add]
    exact getElem?_padded code suffix n hi

end fresh

/-- **Code runs wherever it stands.**  If `k` steps from the start of the code do not trap, then
behind `n` instructions that do nothing, and with any code behind it, `n + k` steps do not trap, and
lead to the same frame with all its addresses moved by `n`. -/
theorem execution_is_position_independent (code suffix : Code) (locals : Nat) (heap : Heap)
    (args : List (Nat × Slot))
    (hargs : ∀ arg ∈ args, ∀ address, arg.2 ≠ .ofReference (.returnAddress address)) (n k : Nat)
    (hsteps : ∀ i < k, (((new code locals heap).setLocals args).after i).trap? = none) :
    let f := (new code locals heap).setLocals args
    let g := (new (code.padded n suffix) locals heap).setLocals args
    (∀ i < n + k, (g.after i).trap? = none) ∧ g.after (n + k) = (f.after k).relocate n suffix := by
  intro f g
  have hstart : g.after n = (padding n suffix).frame f := by
    rw [frame_padding]
    exact after_padding code suffix locals heap n hargs
  have hlifts : ∀ i < k, ∀ t ∈ (f.after i).trap?, (padding n suffix).lifts t = false := by
    intro i hi t ht
    rw [hsteps i hi] at ht
    cases ht
  refine ⟨fun i hi => ?_, ?_⟩
  · by_cases hin : i < n
    · -- before the code itself begins
      have hg : g = { f with code := code.padded n suffix, pc := 0, steps := 0 } :=
        setLocals_new_padded code suffix locals heap n args
      rw [hg]
      refine trap?_of_nops (status_setLocals ..) (fun j hj => ?_) hin
      rw [Nat.zero_add]
      exact getElem?_padded code suffix n hj
    · obtain ⟨j, rfl⟩ : ∃ j, i = n + j := ⟨i - n, by omega⟩
      have hj : j < k := by omega
      rw [after_add, hstart, View.trap?_after_frame hlifts hj, hsteps j hj]
      rfl
  · rw [after_add, hstart, View.after_frame hlifts, frame_padding]

/-- A subroutine behind two instructions that do nothing: the return address 3 that it keeps in a
local is 5 there. -/
theorem padded_subroutine_returns :
    let code : Code := #[0xA8, 0x00, 0x04, 0xB1, 0x4B, 0xA9, 0x00]
    let f := (new code 2 #[]).setLocals [(1, .int 7)]
    let g := (new (code.padded 2 #[0xFF]) 2 #[]).setLocals [(1, .int 7)]
    (∀ i < 4, (f.after i).trap? = none) ∧
      (f.after 4).locals = #[.ofReference (.returnAddress 3), .int 7] ∧
      (∀ i < 6, (g.after i).trap? = none) ∧ g.after 6 = (f.after 4).relocate 2 #[0xFF] ∧
      (g.after 6).locals = #[.ofReference (.returnAddress 5), .int 7] := by
  intro code f g
  have hsteps : ∀ i < 4, (f.after i).trap? = none := by decide +kernel
  have hlocals : (f.after 4).locals = #[.ofReference (.returnAddress 3), .int 7] := by
    decide +kernel
  have hargs : ∀ arg ∈ [(1, Slot.int 7)], ∀ address,
      arg.2 ≠ .ofReference (.returnAddress address) := by
    rintro arg harg address heq
    cases List.mem_singleton.1 harg
    cases heq
  obtain ⟨htraps, hafter⟩ :=
    execution_is_position_independent code #[0xFF] 2 #[] [(1, .int 7)] hargs 2 4 hsteps
  refine ⟨hsteps, hlocals, htraps, hafter, ?_⟩
  rw [hafter]
  show (f.after 4).locals.map (Slot.relocate 2) = _
  rw [hlocals, List.map_toArray]
  rfl

end Frame

end MethodMachine
