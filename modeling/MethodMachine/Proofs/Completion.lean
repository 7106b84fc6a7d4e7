/-
# How a frame completes

A frame completes by a return instruction, and only by one.  Its opcode says what the value can be
(`Opcode.Returns`):

| opcode | value |
| --- | --- |
| `0xAC` `ireturn` | an int or a boolean |
| `0xAD` `lreturn` | a long |
| `0xAE` `freturn` | a float |
| `0xAF` `dreturn` | a double |
| `0xB0` `areturn` | a reference, or null |
| `0xB1` `return` | none |

The instruction itself may leave slots on the stack.  It is a run that looks for them, after the
frame has returned: it gives the value if there are none, and traps if there are some.  Either way
the frame has returned, and that is final (`answers_of_returned`): all further steps and runs refuse
to go on and change nothing.
-/

import MethodMachine.Proofs.Calls

namespace MethodMachine

/-- The values that a return opcode can complete a frame with. -/
inductive Opcode.Returns : Opcode → Option Slot → Prop where
  | none : Returns 0xB1 none
  | int (v : Int32) : Returns 0xAC (some (.int v))
  | boolean (v : Bool) : Returns 0xAC (some (.boolean v))
  | long (v : Int64) : Returns 0xAD (some (.long v))
  | float (v : Single) : Returns 0xAE (some (.float v))
  | double (v : Double) : Returns 0xAF (some (.double v))
  | reference (r : Option Reference) : Returns 0xB0 (some (.reference r))

/-- The opcode that completes a frame, with a slot of some kind or with none. -/
def Opcode.ofReturn : Option Kind → Opcode
  | none => 0xB1
  | some .int => 0xAC
  | some .long => 0xAD
  | some .float => 0xAE
  | some .double => 0xAF
  | some .reference => 0xB0

/-- A slot that passes for a kind is a value of the opcode for that kind. -/
theorem Opcode.returns_of_check {kind : Kind} {s : Slot} (h : kind.check s = .ok ()) :
    (ofReturn (some kind)).Returns (some s) := by
  cases kind with
  | int =>
    cases s with
    | int v => exact .int v
    | boolean v => exact .boolean v
    | _ => cases h
  | long =>
    cases s with
    | long v => exact .long v
    | _ => cases h
  | float =>
    cases s with
    | float v => exact .float v
    | _ => cases h
  | double =>
    cases s with
    | double v => exact .double v
    | _ => cases h
  | reference =>
    cases s with
    | reference r => exact .reference r
    | _ => cases h

namespace Operation

variable {operation : Operation} {f g : Frame} {value : Option Slot}

/-- Whether the operation, if it completes the frame, is that of the opcode. -/
def completesBy (op : Opcode) : Operation → Bool
  | complete kind => op = .ofReturn kind
  | _ => true

theorem completesBy_of_operation? (op : Opcode) :
    ∀ operation ∈ (Encoding.ofOpcode op).operation?, operation.completesBy op = true := by
  revert op
  refine Opcode.forall_of_fin ?_
  decide +kernel

/-- Only a return opcode completes a frame. -/
theorem opcode_of_complete {code : Code} {address next : Nat} {kind : Option Kind}
    (h : decode code address = .ok (.complete kind, next)) :
    code[address]? = some (Opcode.ofReturn kind) := by
  obtain ⟨op, hop, hannounces⟩ := announces_decode h
  suffices hcompletes : (complete kind).completesBy op = true by
    rw [hop, of_decide_eq_true hcompletes]
  generalize hoperation : complete kind = operation at hannounces
  cases hannounces with
  | plain hplain =>
    refine completesBy_of_operation? op operation ?_
    rw [hplain]
    rfl
  | access a index => cases a <;> cases hoperation
  | _ => cases hoperation

/-- An operation that completes a frame is a completion, and the value has passed its check. -/
theorem Makes.of_returned (h : operation.Makes f g) (hrunning : f.status = .running)
    (hreturned : g.status = .returned value) :
    ∃ kind, operation = .complete kind ∧ (Opcode.ofReturn kind).Returns value := by
  cases h with
  | completes hcomplete =>
    cases hreturned
    exact ⟨none, hcomplete, .none⟩
  | completesWith hcomplete hstack hkind =>
    cases hreturned
    exact ⟨_, hcomplete, Opcode.returns_of_check hkind⟩
  | _ =>
    rw [hrunning] at hreturned
    cases hreturned

end Operation

namespace Frame

variable {f g : Frame} {u : Unit} {fuel : Nat} {value : Option Slot}

/-- A step that completes a frame carries out a return opcode, with a value of that opcode. -/
theorem returns_of_step (h : step f = .ok u g) (hreturned : g.status = .returned value) :
    ∃ op : Opcode, f.code[f.pc]? = some op ∧ op.Returns value := by
  have hnext : f.next = g := by
    rw [next, h]
    rfl
  rcases next_cases f with hsame | ⟨operation, pc, hrunning, hdecode, hmakes⟩
  · -- a step from a frame that has returned does not succeed
    rw [hnext] at hsame
    rw [step_of_returned (hsame ▸ hreturned)] at h
    cases h
  · rw [hnext] at hmakes
    obtain ⟨kind, rfl, hreturns⟩ := hmakes.of_returned hrunning hreturned
    exact ⟨_, Operation.opcode_of_complete hdecode, hreturns⟩

theorem isReturned_iff : f.isReturned = true ↔ ∃ value, f.status = .returned value := by
  rcases running_or_returned f with hrunning | ⟨value, hreturned⟩
  · simp [isReturned, hrunning]
  · simp [isReturned, hreturned]

/-- A step that ends a run has trapped, or it has completed the frame; then it is left to the run to
look at the stack. -/
theorem ends_cases (h : f.ends = true) :
    (∃ t g, step f = .error t g ∧ f.conclusion = .error ⟨t, f.pc, f.code[f.pc]?⟩ g) ∨
    ∃ value g, step f = .ok () g ∧ g.status = .returned value ∧ f.conclusion =
      if g.stack = [] then .ok (.returned value) g
      else .error ⟨.stackNotEmpty g.stack.length, f.pc, f.code[f.pc]?⟩ g := by
  unfold ends at h
  unfold conclusion next
  cases hstep : step f with
  | error t g => exact .inl ⟨t, g, rfl, rfl⟩
  | ok u g =>
    rw [hstep] at h
    obtain ⟨value, hreturned⟩ := isReturned_iff.1 h
    have hvalue : g.value? = value := by rw [value?, hreturned]
    exact .inr ⟨value, g, rfl, hreturned, hvalue ▸ rfl⟩

/-- A run gives a value after a step that has completed the frame and left nothing on its stack. -/
theorem of_conclusion_eq_ok (hends : f.ends = true)
    (h : f.conclusion = .ok (.returned value) g) :
    step f = .ok () g ∧ g.status = .returned value ∧ g.stack = [] := by
  rcases ends_cases hends with ⟨t, g', -, htrap⟩ | ⟨value', g', hstep, hreturned, hlook⟩
  · rw [htrap] at h
    cases h
  · rw [hlook] at h
    split at h
    · rename_i hstack
      cases h
      exact ⟨hstep, hreturned, hstack⟩
    · cases h

/-- A run finds slots left after a step that has completed the frame.  No step traps for that
reason. -/
theorem of_conclusion_stackNotEmpty {count pc : Nat} {op : Option UInt8} (hends : f.ends = true)
    (h : f.conclusion = .error ⟨.stackNotEmpty count, pc, op⟩ g) :
    g.isReturned = true ∧ g.stack.length = count := by
  rcases ends_cases hends with ⟨t, g', hstep, htrap⟩ | ⟨value, g', -, hreturned, hlook⟩
  · rw [htrap] at h
    cases h
    rcases step_eq_error hstep with ⟨hearly, -⟩ | ⟨-, -, -, hoperational, -⟩
    · cases hearly
    · cases hoperational
  · rw [hlook] at h
    split at h
    · cases h
    · cases h
      exact ⟨isReturned_iff.2 ⟨value, hreturned⟩, rfl⟩

/-- A run that ends well has met the step that ends it. -/
theorem conclusion_of_run {limit : Option Nat} {stop : StopSignal}
    (h : run fuel f = some (.ok value g) ∨
      runLimited limit stop fuel f = some (.ok (.returned value) g)) :
    ∃ k, f.EndsAt k ∧ (f.after k).conclusion = .ok (.returned value) g := by
  rcases h with hrun | hlimited
  · obtain ⟨k, hk, ⟨value', hr, hconclusion⟩ | ⟨t, hr, -⟩⟩ := run_cases hrun
    · cases hr
      exact ⟨k, hk, hconclusion⟩
    · cases hr
  · rcases runLimitedFrom_cases hlimited with ⟨n, count, hr⟩ | ⟨k, hk, hr⟩
    · cases hr
    · exact ⟨k, hk, hr.symm⟩

/-- So has a run that ends in a trap. -/
theorem conclusion_of_run_trapped {limit : Option Nat} {stop : StopSignal} {t : Trap}
    (h : run fuel f = some (.error t g) ∨
      ∃ pc op, runLimited limit stop fuel f = some (.error ⟨t, pc, op⟩ g)) :
    ∃ k pc op, f.EndsAt k ∧ (f.after k).conclusion = .error ⟨t, pc, op⟩ g := by
  rcases h with hrun | ⟨pc, op, hlimited⟩
  · obtain ⟨k, hk, ⟨value, hr, -⟩ | ⟨t', hr, hconclusion⟩⟩ := run_cases hrun
    · cases hr
    · cases hr
      exact ⟨k, _, _, hk, hconclusion⟩
  · rcases runLimitedFrom_cases hlimited with ⟨n, count, hr⟩ | ⟨k, hk, hr⟩
    · cases hr
    · exact ⟨k, pc, op, hk, hr.symm⟩

end Frame

/-- Whether a call asks for steps. -/
def Call.asksForSteps : Call → Bool
  | setLocal _ _ => false
  | _ => true

namespace Frame

variable {f : Frame} {value : Option Slot}

/-- What a frame that has returned answers to a call for steps. -/
def refusal (f : Frame) : Call → Answer
  | .runLimited limit stop =>
    if stop 0 || limit = some 0 then .outcome (.interrupted 0)
    else .faulted (f.fault .alreadyReturned f.pc)
  | _ => .trapped .alreadyReturned

theorem reaches_zero (limit : Option Nat) : reaches limit 0 = decide (limit = some 0) := by
  cases limit with
  | none => rfl
  | some most => simp [reaches]

/-- A frame that has returned refuses a call for steps and stays as it is. -/
theorem answer_of_returned (fuel : Nat) (h : f.status = .returned value) {call : Call}
    (hcall : call.asksForSteps = true) : f.answer (fuel + 1) call = some (f.refusal call, f) := by
  have hstep := step_of_returned h
  cases call with
  | step =>
    rw [answer, hstep]
    rfl
  | run =>
    simp only [answer, run, hstep]
    rfl
  | runLimited limit stop =>
    rw [answer, runLimited, refusal, ← reaches_zero]
    simp only [runLimitedFrom, hstep, Nat.sub_self, interrupts]
    split
    · rfl
    · rfl
  | setLocal index s => cases hcall

/-- **That a frame has returned is final.** -/
theorem answers_of_returned (fuel : Nat) (h : f.status = .returned value) (calls : List Call)
    (hcalls : ∀ call ∈ calls, call.asksForSteps = true) :
    f.answers (fuel + 1) calls = some (calls.map f.refusal, f) := by
  induction calls with
  | nil => rfl
  | cons call calls ih =>
    have hcall := answer_of_returned fuel h (hcalls call (List.mem_cons_self ..))
    have hrest := ih fun call hcall => hcalls call (List.mem_cons_of_mem _ hcall)
    simp only [answers, hcall, hrest, List.map_cons]

/-- **Completion is typed and final.**  A run that gives a value, with or without limits, has ended
by a step from a return opcode, the value is one that the opcode returns, and nothing is left on the
stack.  A run that finds slots left there leaves a frame that has returned as well.  And a frame
that has returned refuses all further steps and runs and stays as it is. -/
theorem completion_is_typed_and_final (f : Frame) :
    (∀ fuel limit stop value g,
      run fuel f = some (.ok value g) ∨
        runLimited limit stop fuel f = some (.ok (.returned value) g) →
      ∃ k, ∃ op : Opcode, f.EndsAt k ∧ step (f.after k) = .ok () g ∧
        f.code[(f.after k).pc]? = some op ∧ op.Returns value ∧
        g.status = .returned value ∧ g.stack = []) ∧
    (∀ fuel limit stop count g,
      (run fuel f = some (.error (.stackNotEmpty count) g) ∨
        ∃ pc op, runLimited limit stop fuel f = some (.error ⟨.stackNotEmpty count, pc, op⟩ g)) →
      g.isReturned = true ∧ g.stack.length = count) ∧
    (f.isReturned = true → ∀ fuel calls, (∀ call ∈ calls, call.asksForSteps = true) →
      f.answers (fuel + 1) calls = some (calls.map f.refusal, f)) := by
  refine ⟨?_, ?_, ?_⟩
  · intro fuel limit stop value g hrun
    obtain ⟨k, hk, hconclusion⟩ := conclusion_of_run hrun
    obtain ⟨hstep, hreturned, hstack⟩ := of_conclusion_eq_ok hk.1 hconclusion
    obtain ⟨op, hop, hreturns⟩ := returns_of_step hstep hreturned
    rw [code_after] at hop
    exact ⟨k, op, hk, hstep, hop, hreturns, hreturned, hstack⟩
  · intro fuel limit stop count g hrun
    obtain ⟨k, pc, op, hk, hconclusion⟩ := conclusion_of_run_trapped hrun
    exact of_conclusion_stackNotEmpty hk.1 hconclusion
  · intro hreturned fuel calls hcalls
    obtain ⟨value, hvalue⟩ := isReturned_iff.1 hreturned
    exact answers_of_returned fuel hvalue calls hcalls

/-- `iload_0; ireturn` gives the int in the local.  `iload_0; iload_0; ireturn` completes too, but a
run then finds an operand left; the frame refuses to go on all the same. -/
theorem leftover_operand_is_final :
    let f := { new #[0x1A, 0xAC] 1 #[] with locals := #[.int 7] }
    let f' := { f with pc := 2, status := .returned (some (.int 7)), steps := 2 }
    let g := { new #[0x1A, 0x1A, 0xAC] 1 #[] with locals := #[.int 7] }
    let g' := { g with
      pc := 3, stack := [.int 7], status := .returned (some (.int 7)), steps := 3 }
    (run 9 f = some (.ok (some (.int 7)) f') ∧ ∃ k, ∃ op : Opcode, f.EndsAt k ∧
      step (f.after k) = .ok () f' ∧ f.code[(f.after k).pc]? = some op ∧
      op.Returns (some (.int 7)) ∧ f'.status = .returned (some (.int 7)) ∧ f'.stack = []) ∧
    (run 9 g = some (.error (.stackNotEmpty 1) g') ∧ g'.isReturned = true ∧
      g'.stack.length = 1) ∧
    g'.answers 9 [.run, .runLimited (some 5) .never, .runLimited (some 0) .never, .step] =
      some ([.trapped .alreadyReturned, .faulted (g'.fault .alreadyReturned 3),
        .outcome (.interrupted 0), .trapped .alreadyReturned], g') := by
  refine ⟨⟨rfl, ?_⟩, ⟨rfl, ?_⟩, ?_⟩
  · exact (completion_is_typed_and_final _).1 9 none .never _ _ (.inl rfl)
  · exact (completion_is_typed_and_final
      { new #[0x1A, 0x1A, 0xAC] 1 #[] with locals := #[.int 7] }).2.1 9 none .never 1 _ (.inl rfl)
  · exact (completion_is_typed_and_final _).2.2 rfl 8 _ (by decide)

end Frame

end MethodMachine
