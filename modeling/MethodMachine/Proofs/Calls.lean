/-
# What a host can do with a frame

A host drives a frame by calls: it asks for a step, a run or a limited run, and it may put slots into
locals at any time, also between two runs and after the frame has returned.  Any of these may fail,
and the host may go on all the same.  `Frame.answers` is such a session: the answers to some calls,
one after the other, and the frame that they leave.  Runs need fuel, and without a limit they need
not end; the session has no result if one of them has none.

Whatever the calls are, a frame that began with some code and a number of locals stays sound
(`Frame.Sound`):

| part | at any time |
| --- | --- |
| code | the same |
| locals | as many as at first |
| program counter | in the code or at its end |
| stack | no empty slot |
| value | none while the frame runs, by the type of `Status`, and never an empty slot |
| step count | at least what it was |

Locals may be empty, at first and when the host makes them so.  But a load checks its slot before it
pushes it, and an empty slot passes for no kind (`Kind.check_empty_ne_ok`).
-/

import MethodMachine.Proofs.ControlFlow
import MethodMachine.Proofs.Footprint

namespace MethodMachine

/-- What a host can ask of a frame. -/
inductive Call where
  | step
  | run
  | runLimited (limit : Option Nat) (stop : StopSignal)
  | setLocal (index : Nat) (s : Slot)

/-- What a frame can answer. -/
inductive Answer where
  | done
  | trapped (t : Trap)
  | value (value : Option Slot)
  | outcome (outcome : Outcome)
  | faulted (fault : Fault)

/-- The answer that is made of a result, and the frame that the result leaves. -/
def Answer.ofResult {α ε : Type} (ok : α → Answer) (error : ε → Answer) :
    EStateM.Result ε Frame α → Answer × Frame
  | .ok a g => (ok a, g)
  | .error e g => (error e, g)

namespace Frame

/-- The answer to a call and the frame it leaves, if a run ends within its fuel. -/
def answer (fuel : Nat) (f : Frame) : Call → Option (Answer × Frame)
  | .step => some (Answer.ofResult (fun _ => .done) .trapped (step f))
  | .run => (run fuel f).map (Answer.ofResult .value .trapped)
  | .runLimited limit stop => (runLimited limit stop fuel f).map (Answer.ofResult .outcome .faulted)
  | .setLocal index s =>
    match f.setLocal index s with
    | .ok g => some (.done, g)
    | .error t => some (.trapped t, f)

/-- The answers to calls, one after the other, and the frame they leave. -/
def answers (fuel : Nat) (f : Frame) : List Call → Option (List Answer × Frame)
  | [] => some ([], f)
  | call :: calls =>
    match f.answer fuel call with
    | none => none
    | some (answer, g) =>
      match g.answers fuel calls with
      | none => none
      | some (answers, h) => some (answer :: answers, h)

variable {f g : Frame} {fuel : Nat} {call : Call} {answer : Answer}

/-- A run that ends leaves the frame after some steps. -/
theorem exists_after_of_run {r : EStateM.Result Trap Frame (Option Slot)}
    (h : run fuel f = some r) :
    ∃ n, (∃ value, r = .ok value (f.after n)) ∨ ∃ t, r = .error t (f.after n) := by
  obtain ⟨k, -, ⟨value, hr, -⟩ | ⟨t, hr, -⟩⟩ := run_cases h
  · exact ⟨k + 1, .inl ⟨value, hr⟩⟩
  · exact ⟨k + 1, .inr ⟨t, hr⟩⟩

/-- So does a limited run. -/
theorem exists_after_of_runLimited {limit : Option Nat} {stop : StopSignal}
    {r : EStateM.Result Fault Frame Outcome} (h : runLimited limit stop fuel f = some r) :
    ∃ n, (∃ outcome, r = .ok outcome (f.after n)) ∨ ∃ fault, r = .error fault (f.after n) := by
  rcases runLimitedFrom_cases h with ⟨n, count, hr⟩ | ⟨k, -, hr⟩
  · exact ⟨n, .inl ⟨_, hr⟩⟩
  · rcases conclusion_cases (f.after k) with ⟨value, hvalue⟩ | ⟨fault, hfault⟩
    · exact ⟨k + 1, .inl ⟨_, hr.trans hvalue⟩⟩
    · exact ⟨k + 1, .inr ⟨_, hr.trans hfault⟩⟩

/-- A call that is answered makes some steps, or it puts a slot into a local. -/
theorem answer_cases (h : f.answer fuel call = some (answer, g)) :
    (∃ n, g = f.after n) ∨ ∃ index s, f.setLocal index s = .ok g := by
  cases call with
  | step =>
    refine .inl ⟨1, ?_⟩
    have hnext : f.after 1 = Execution.left (step f) := rfl
    rw [Frame.answer] at h
    rw [hnext]
    cases hstep : step f with
    | ok u g' | error t g' =>
      rw [hstep] at h
      cases h
      rfl
  | run =>
    obtain ⟨r, hrun, hanswer⟩ := Option.map_eq_some_iff.1 h
    obtain ⟨n, ⟨value, rfl⟩ | ⟨t, rfl⟩⟩ := exists_after_of_run hrun
    all_goals
      cases hanswer
      exact .inl ⟨n, rfl⟩
  | runLimited limit stop =>
    obtain ⟨r, hrun, hanswer⟩ := Option.map_eq_some_iff.1 h
    obtain ⟨n, ⟨outcome, rfl⟩ | ⟨fault, rfl⟩⟩ := exists_after_of_runLimited hrun
    all_goals
      cases hanswer
      exact .inl ⟨n, rfl⟩
  | setLocal index s =>
    rw [Frame.answer] at h
    cases hset : f.setLocal index s with
    | ok g' =>
      rw [hset] at h
      cases h
      exact .inr ⟨index, s, hset⟩
    | error t =>
      rw [hset] at h
      cases h
      exact .inl ⟨0, rfl⟩

end Frame

/-- Control goes into the code only. -/
theorem Operation.Leads.lt_size {operation : Operation} {f : Frame} {pc : Nat}
    (h : operation.Leads f pc) : pc < f.code.size := by
  cases h with
  | branch _ hlt => exact hlt
  | returnAddress _ _ hlt => exact hlt

/-- An empty slot passes for no kind. -/
theorem Kind.check_empty_ne_ok (kind : Kind) : kind.check .empty ≠ .ok () := by
  cases kind <;> nofun

namespace Frame

/-- What holds at any time of a frame that began with some code and a number of locals. -/
structure Sound (code : Code) (locals : Nat) (f : Frame) : Prop where
  code : f.code = code
  locals : f.locals.size = locals
  pc : f.pc ≤ f.code.size
  stack : .empty ∉ f.stack
  value : f.value? ≠ some .empty

variable {code : Code} {locals : Nat} {f g : Frame} {fuel : Nat} {call : Call} {answer : Answer}

/-- A new frame is sound. -/
theorem sound_new (code : Code) (locals : Nat) (heap : Heap) :
    Sound code locals (new code locals heap) where
  code := rfl
  locals := Array.size_replicate
  pc := Nat.zero_le _
  stack := List.not_mem_nil
  value := nofun

/-- No instruction pushes an empty slot. -/
theorem not_yields_empty {operation : Operation} {pc next : Nat} {heap : Heap}
    (hdecode : Operation.decode code pc = .ok (operation, next)) :
    ¬operation.Yields f heap .empty := by
  intro hyields
  cases hyields with
  | number hnumber => cases hnumber
  | constant hpush =>
    subst hpush
    rcases Operation.constant_of_decode hdecode with hnumber | hnull
    · cases hnumber
    · cases hnull
  | loaded _ _ hkind => exact Kind.check_empty_ne_ok _ hkind

/-- **A step keeps a frame sound**, trap or not. -/
theorem Sound.next (h : f.Sound code locals) : f.next.Sound code locals := by
  rcases next_cases f with hnext | ⟨operation, next, -, hdecode, hmakes⟩
  · rw [hnext]
    exact h
  · have hnext : next ≤ f.code.size := Operation.le_size_of_decode hdecode
    refine ⟨hmakes.code.trans h.code, hmakes.size_locals.trans h.locals, ?pc, ?stack, ?value⟩
    case pc =>
      rw [hmakes.code]
      rcases hmakes.pc with hpc | hleads
      · rw [hpc]
        exact hnext
      · exact Nat.le_of_lt hleads.lt_size
    case stack =>
      intro hempty
      rcases hmakes.stack hempty with hmem | hyields
      · exact h.stack hmem
      · exact not_yields_empty hdecode hyields
    case value =>
      intro hempty
      rcases hmakes.value? hempty with hmem | hvalue
      · exact h.stack hmem
      · exact h.value hvalue

/-- Steps keep a frame sound. -/
theorem Sound.after (h : f.Sound code locals) (n : Nat) : (f.after n).Sound code locals :=
  after_induction h (fun _ => Sound.next) n

/-- A slot put into a local keeps a frame sound, an empty one too. -/
theorem Sound.of_setLocal {index : Nat} {s : Slot} (h : f.Sound code locals)
    (hset : f.setLocal index s = .ok g) : g.Sound code locals := by
  obtain rfl := setLocal_eq_ok hset
  exact { h with locals := Array.size_setIfInBounds.trans h.locals }

/-- **A call keeps a frame sound**, whatever its answer is. -/
theorem Sound.of_answer (h : f.Sound code locals) (hanswer : f.answer fuel call = some (answer, g)) :
    g.Sound code locals := by
  rcases answer_cases hanswer with ⟨n, rfl⟩ | ⟨index, s, hset⟩
  · exact h.after n
  · exact h.of_setLocal hset

/-- What each call keeps, a session keeps. -/
theorem answers_induction {motive : Frame → Prop} {calls : List Call} {answers : List Answer}
    (h : f.answers fuel calls = some (answers, g)) (hf : motive f)
    (hcall : ∀ {f g call answer}, f.answer fuel call = some (answer, g) → motive f → motive g) :
    motive g := by
  induction calls generalizing f answers with
  | nil =>
    cases h
    exact hf
  | cons call calls ih =>
    unfold Frame.answers at h
    split at h
    · cases h
    · rename_i answer f' hanswer
      split at h
      · cases h
      · rename_i rest g' hrest
        cases h
        exact ih hrest (hcall hanswer hf)

/-- A step is counted or not, and never counted back. -/
theorem steps_le_steps_next (f : Frame) : f.steps ≤ f.next.steps := by
  rcases next_cases f with hnext | ⟨operation, next, -, -, hmakes⟩
  · exact Nat.le_of_eq (congrArg steps hnext.symm)
  · rw [hmakes.steps]
    exact Nat.le_succ _

/-- Neither are many. -/
theorem steps_le_steps_after (f : Frame) (n : Nat) : f.steps ≤ (f.after n).steps :=
  after_induction (Nat.le_refl _) (fun g hle => Nat.le_trans hle (steps_le_steps_next g)) n

/-- No call counts back. -/
theorem steps_le_of_answer (h : f.answer fuel call = some (answer, g)) : f.steps ≤ g.steps := by
  rcases answer_cases h with ⟨n, rfl⟩ | ⟨index, s, hset⟩
  · exact steps_le_steps_after f n
  · obtain rfl := setLocal_eq_ok hset
    exact Nat.le_refl _

/-- A frame that has not returned has no value. -/
theorem value?_of_not_isReturned (h : f.isReturned = false) : f.value? = none := by
  rcases running_or_returned f with hrunning | ⟨value, hreturned⟩
  · rw [value?, hrunning]
  · simp [isReturned, hreturned] at h

/-- A local is refused if there is none, and then the frame stays as it was. -/
theorem of_setLocal_trapped {index : Nat} {s : Slot} {t : Trap}
    (h : f.answer fuel (.setLocal index s) = some (.trapped t, g)) :
    g = f ∧ t = .localIndexOutOfBounds index ∧ f.locals.size ≤ index := by
  rw [Frame.answer, setLocal, Locals.store] at h
  split at h
  · cases h
  · rename_i t' hset
    cases h
    split at hset
    · cases hset
    · rename_i hge
      cases hset
      exact ⟨rfl, rfl, Nat.le_of_not_lt hge⟩

/-- **Reachable frames are sound.**  Whatever a host asks of a new frame, in whatever order and with
whatever success, the frame has its code and its number of locals, its program counter is in the
code or at its end, its stack has no empty slot, it has no value before it has returned and never an
empty one.  That a running frame has no value holds by the type of `Status`, which keeps the flag
and the value of a return together; that a value is never empty needs the run.  Further calls do not
make the step count less.  A local is refused only if the frame has no such local, and that leaves
the frame as it was. -/
theorem reachable_frames_are_sound (code : Code) (locals : Nat) (heap : Heap) (fuel : Nat)
    (calls : List Call) (answers : List Answer) (g : Frame)
    (h : (new code locals heap).answers fuel calls = some (answers, g)) :
    g.code = code ∧ g.locals.size = locals ∧ g.pc ≤ code.size ∧ .empty ∉ g.stack ∧
      (g.isReturned = false → g.value? = none) ∧ g.value? ≠ some .empty ∧
      (∀ fuel calls answers g', g.answers fuel calls = some (answers, g') → g.steps ≤ g'.steps) ∧
      ∀ index s t g', g.answer fuel (.setLocal index s) = some (.trapped t, g') →
        g' = g ∧ t = .localIndexOutOfBounds index ∧ locals ≤ index := by
  have hsound : g.Sound code locals :=
    answers_induction h (sound_new code locals heap) fun hanswer hf => hf.of_answer hanswer
  refine ⟨hsound.code, hsound.locals, hsound.code ▸ hsound.pc, hsound.stack,
    value?_of_not_isReturned, hsound.value, ?_, ?_⟩
  · intro fuel calls answers g' hanswers
    exact answers_induction hanswers (Nat.le_refl _) fun hanswer hle =>
      Nat.le_trans hle (steps_le_of_answer hanswer)
  · intro index s t g' hanswer
    rw [← hsound.locals]
    exact of_setLocal_trapped hanswer

/-- The code is `iload_0; iload_0; ireturn`.  The first load finds the local empty and traps, the
host then asks for a local that there is not, and at last fills the one that there is and goes on by
one step. -/
theorem empty_local_is_not_pushed :
    let code : Code := #[0x1A, 0x1A, 0xAC]
    let calls : List Call := [.setLocal 0 (.int 7), .setLocal 0 .empty, .step,
      .setLocal 3 (.int 40), .setLocal 0 (.int 40), .runLimited (some 1) .never]
    let answers : List Answer := [.done, .done, .trapped (.typeMismatch .int .empty),
      .trapped (.localIndexOutOfBounds 3), .done, .outcome (.interrupted 1)]
    let g : Frame :=
      { new code 1 #[] with pc := 2, stack := [.int 40], locals := #[.int 40], steps := 2 }
    (new code 1 #[]).answers 9 calls = some (answers, g) ∧
      g.code = code ∧ g.locals.size = 1 ∧ g.pc ≤ code.size ∧ .empty ∉ g.stack ∧
      g.value? = none := by
  intro code calls answers g
  have h : (new code 1 #[]).answers 9 calls = some (answers, g) := by
    with_unfolding_all rfl
  obtain ⟨hcode, hlocals, hpc, hstack, hvalue, -⟩ :=
    reachable_frames_are_sound code 1 #[] 9 calls answers g h
  exact ⟨h, hcode, hlocals, hpc, hstack, hvalue rfl⟩

end Frame

end MethodMachine
