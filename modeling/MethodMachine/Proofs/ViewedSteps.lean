/-
# Steps in a view

Decoding reads the bytes of one instruction and nothing else of the code, so an instruction means in
a view what it means without: the same operation, with its target moved.  Together with what
operations do in a view, a step does in a view what it does without (`mirrors_step`), and as long as
no trap is one that the view lifts, so do any number of steps (`after_frame`).
-/

import MethodMachine.Proofs.ControlFlow
import MethodMachine.Proofs.Residue
import MethodMachine.Proofs.Views

namespace MethodMachine

/-- Whether an operation looks the same in every view: it does not branch, and its constant is
neither a boolean nor a reference to something. -/
def Operation.isSteady : Operation → Bool
  | push (.boolean _) => false
  | push (.reference (some _)) => false
  | branch .. => false
  | _ => true

theorem Encoding.isSteady_of_operation? (op : Opcode) :
    ∀ o ∈ (ofOpcode op).operation?, o.isSteady = true := by
  revert op
  refine Opcode.forall_of_fin ?_
  decide +kernel

/-- A signed operand is an operand, read in two's complement. -/
theorem Operation.signedOperand_eq_map (code : Code) (start count : Nat) :
    signedOperand code start count =
      (operand code start count).map fun n : Nat => Int.bmod n (wordCount count) := by
  unfold signedOperand operand
  split <;> rfl

namespace View

section decoding

variable {α β : Type} {v : View} {code : Code}

theorem operation_of_isSteady {o : Operation} (h : o.isSteady = true) : v.operation o = o := by
  cases o with
  | push s =>
    cases s with
    | boolean b => cases h
    | reference r =>
      cases r with
      | none => rfl
      | some r => cases h
    | _ => rfl
  | branch b target => cases h
  | _ => rfl

theorem operation_access (access : LocalAccess) (index : Nat) :
    v.operation (access.operation index) = access.operation index := by
  cases access <;> rfl

theorem getElem?_code {i : Nat} (h : i < code.size) :
    (v.code code)[v.front.size + i]? = code[i]? := by
  rw [View.code, Array.getElem?_append_left (by rw [Array.size_append]; omega),
    Array.getElem?_append_right (by omega), Nat.add_sub_cancel_left]

theorem unsigned_code {start count : Nat} (h : start + count ≤ code.size) :
    (v.code code).unsigned (v.front.size + start) count = code.unsigned start count := by
  induction count with
  | zero => rfl
  | succ count ih =>
    have hbyte : (v.code code)[v.front.size + start + count]? = code[start + count]? := by
      rw [Nat.add_assoc]
      exact getElem?_code (by omega)
    rw [Code.unsigned, Code.unsigned, ih (by omega), Array.getD_eq_getD_getElem?, hbyte,
      Array.getD_eq_getD_getElem?]

/-- Code that is missing is there in the view, or the view has no more code. -/
theorem shows_codeOutOfBounds {seen : α → β} {x' : Except Trap β} {pc : Nat}
    (h : v.front = #[] → v.back = #[] → x' = .error (.codeOutOfBounds pc)) :
    v.Shows seen (.error (.codeOutOfBounds pc)) x' := by
  cases hcode : v.hasCode with
  | true => exact .inl hcode
  | false =>
    obtain ⟨hfront, hback⟩ := front_eq_and_back_eq hcode
    exact .inr (h hfront hback)

open Operation

variable (v code)

theorem shows_operand (start count : Nat) :
    v.Shows id (operand code start count)
      (operand (v.code code) (v.front.size + start) count) := by
  unfold operand
  by_cases hle : start + count ≤ code.size
  · have hle' : v.front.size + start + count ≤ (v.code code).size := by
      simp only [View.code, Array.size_append]
      omega
    rw [if_pos hle, if_pos hle', unsigned_code hle]
    rfl
  · rw [if_neg hle]
    refine shows_codeOutOfBounds fun hfront hback => ?_
    simp [View.code, hfront, hback, hle]

theorem shows_signedOperand (start count : Nat) :
    v.Shows id (signedOperand code start count)
      (signedOperand (v.code code) (v.front.size + start) count) := by
  rw [signedOperand_eq_map, signedOperand_eq_map]
  exact (v.shows_operand code start count).map fun _ => rfl

/-- An operation and the address after it in the view. -/
def decoded (v : View) (r : Operation × Nat) : Operation × Nat :=
  (v.operation r.1, v.front.size + r.2)

theorem shows_decodeWidened (address : Nat) :
    v.Shows v.decoded (decodeWidened code address)
      (decodeWidened (v.code code) (v.front.size + address)) := by
  refine (v.shows_operand code (address + 1) 1).bind fun inner =>
    (v.shows_operand code (address + 2) 2).bind fun index => ?_
  dsimp only [id]
  split
  · rename_i access _
    exact congrArg (fun o => Except.ok (o, _)) (operation_access access index).symm
  · exact (v.shows_signedOperand code (address + 4) 2).bind fun delta => rfl
  · exact .inr rfl

theorem shows_decodeAs (address : Nat) (op : Opcode) {e : Encoding}
    (he : ∀ o ∈ e.operation?, o.isSteady = true) :
    v.Shows v.decoded (decodeAs code address op e)
      (decodeAs (v.code code) (v.front.size + address) op e) := by
  cases e with
  | plain o => exact congrArg (fun o => Except.ok (o, _)) (operation_of_isSteady (he o rfl)).symm
  | constantByte => exact (v.shows_signedOperand code (address + 1) 1).bind fun _ => rfl
  | constantShort => exact (v.shows_signedOperand code (address + 1) 2).bind fun _ => rfl
  | indexed access =>
    exact (v.shows_operand code (address + 1) 1).bind fun index =>
      congrArg (fun o => Except.ok (o, _)) (operation_access access index).symm
  | increment =>
    exact (v.shows_operand code (address + 1) 1).bind fun index =>
      (v.shows_signedOperand code (address + 2) 1).bind fun delta => rfl
  | arrayType =>
    refine (v.shows_operand code (address + 1) 1).bind fun type => ?_
    dsimp only [id]
    split
    · rfl
    · exact .inr rfl
  | branch b =>
    refine (v.shows_signedOperand code (address + 1) 2).bind fun distance => ?_
    show Except.ok (Operation.branch b _, _) = Except.ok (Operation.branch b _, _)
    rw [Int.natCast_add, Int.add_assoc]
    rfl
  | wideBranch b =>
    refine (v.shows_signedOperand code (address + 1) 4).bind fun distance => ?_
    show Except.ok (Operation.branch b _, _) = Except.ok (Operation.branch b _, _)
    rw [Int.natCast_add, Int.add_assoc]
    rfl
  | widened => exact v.shows_decodeWidened code address
  | reserved => exact .inr rfl
  | unsupported => exact .inr rfl

/-- **An instruction is decoded in a view as it is without**: decoding depends on the bytes of the
instruction only. -/
theorem shows_decode (address : Nat) :
    v.Shows v.decoded (decode code address)
      (decode (v.code code) (v.front.size + address)) := by
  unfold decode
  cases hop : code[address]? with
  | none =>
    refine shows_codeOutOfBounds fun hfront hback => ?_
    simp [View.code, hfront, hback, hop]
  | some op =>
    obtain ⟨hlt, -⟩ := Array.getElem?_eq_some_iff.1 hop
    rw [getElem?_code hlt, hop]
    exact v.shows_decodeAs code address op (Encoding.isSteady_of_operation? op)

end decoding

open MethodMachine.Frame (step)

variable {v : View} {f g : Frame} {t : Trap} {u : Unit}

/-- **A step does in a view what it does without.** -/
theorem mirrors_step (v : View) : v.Mirrors id step step := by
  intro f
  cases hstatus : f.status with
  | returned value =>
    have hstatus' : (v.frame f).status = .returned (value.map v.slot) := by
      rw [frame, hstatus]
      rfl
    simp only [step, hstatus, hstatus']
    exact .inr rfl
  | running =>
    have hstatus' : (v.frame f).status = .running := by
      rw [frame, hstatus]
      rfl
    have hshows := v.shows_decode f.code f.pc
    cases hdecode : Operation.decode f.code f.pc with
    | error t =>
      rw [hdecode] at hshows
      simp only [step, hstatus, hdecode]
      rcases hshows with hlifts | hdecode'
      · exact .inl hlifts
      · refine .inr ?_
        rw [hstatus']
        simp only [frame, hdecode']
    | ok result =>
      obtain ⟨o, next⟩ := result
      rw [hdecode] at hshows
      rw [Frame.step_of_decode hstatus hdecode, Frame.step_of_decode hstatus' hshows]
      exact mirrors_execute f.pc o { f with pc := next, steps := f.steps + 1 }

theorem step_frame_of_ok (h : step f = .ok u g) : step (v.frame f) = .ok u (v.frame g) := by
  have hshows := v.mirrors_step f
  rw [h] at hshows
  exact hshows

theorem step_frame_of_error (h : step f = .error t g) (ht : v.lifts t = false) :
    step (v.frame f) = .error (v.trap t) (v.frame g) := by
  have hshows := v.mirrors_step f
  rw [h] at hshows
  rcases hshows with hlifts | hshows
  · rw [ht] at hlifts
    cases hlifts
  · exact hshows

/-- The trap of a step and the frame it leaves in a view, if the view does not lift the trap. -/
theorem trap?_frame_and_next_frame (h : ∀ t ∈ f.trap?, v.lifts t = false) :
    (v.frame f).trap? = f.trap?.map v.trap ∧ (v.frame f).next = v.frame f.next := by
  unfold Frame.trap? Frame.next
  cases hstep : step f with
  | ok u g =>
    rw [step_frame_of_ok hstep]
    exact ⟨rfl, rfl⟩
  | error t g =>
    have ht : v.lifts t = false := h t (by rw [Frame.trap?, hstep]; rfl)
    rw [step_frame_of_error hstep ht]
    exact ⟨rfl, rfl⟩

/-- **Steps do in a view what they do without**, as long as none raises a trap that the view
lifts. -/
theorem after_frame {n : Nat} (h : ∀ i < n, ∀ t ∈ (f.after i).trap?, v.lifts t = false) :
    (v.frame f).after n = v.frame (f.after n) := by
  induction n with
  | zero => rfl
  | succ n ih =>
    rw [Frame.after, ih fun i hi => h i (Nat.lt_succ_of_lt hi)]
    exact (trap?_frame_and_next_frame (h n (Nat.lt_succ_self n))).2

/-- Their traps too are what they are without. -/
theorem trap?_after_frame {n i : Nat} (h : ∀ i < n, ∀ t ∈ (f.after i).trap?, v.lifts t = false)
    (hi : i < n) : ((v.frame f).after i).trap? = (f.after i).trap?.map v.trap := by
  rw [after_frame fun j hj => h j (Nat.lt_trans hj hi)]
  exact (trap?_frame_and_next_frame (h i hi)).1

/-- A view without more locals shows arguments where they are. -/
theorem setLocals_frame (hbeyond : v.beyond = #[]) (f : Frame) (args : List (Nat × Slot)) :
    (v.frame f).setLocals (args.map fun arg => (arg.1, v.slot arg.2)) =
      v.frame (f.setLocals args) := by
  have hlocals (locals : Locals) : v.locals locals = locals.map v.slot := by
    rw [View.locals, hbeyond, Array.append_empty]
  induction args generalizing f with
  | nil => rfl
  | cons arg args ih =>
    obtain ⟨index, s⟩ := arg
    by_cases hlt : index < f.locals.size
    · have hset : f.setLocal index s =
          .ok { f with locals := f.locals.setIfInBounds index s } := by
        rw [Frame.setLocal, Locals.store, if_pos hlt]
        rfl
      have hset' : (v.frame f).setLocal index (v.slot s) =
          .ok (v.frame { f with locals := f.locals.setIfInBounds index s }) := by
        simp [Frame.setLocal, Locals.store, frame, hlocals, hlt, Except.map]
      rw [List.map_cons, Frame.setLocals, Frame.setLocals, hset, hset']
      exact ih _
    · have hset : f.setLocal index s = .error (.localIndexOutOfBounds index) := by
        rw [Frame.setLocal, Locals.store, if_neg hlt]
        rfl
      have hset' : (v.frame f).setLocal index (v.slot s) =
          .error (.localIndexOutOfBounds index) := by
        simp [Frame.setLocal, Locals.store, frame, hlocals, hlt, Except.map]
      rw [List.map_cons, Frame.setLocals, Frame.setLocals, hset, hset']
      exact ih f

end View

end MethodMachine
