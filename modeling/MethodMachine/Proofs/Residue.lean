/-
# What a trap leaves behind

There is no rollback: a trap keeps what the operation has done before it.  But an operation takes
its operands off the stack before it does anything else, and after the last point at which it can
trap it does only what cannot fail.  So all that a trap can have done is to take slots off the stack
(`TrapsAfter`), at most as many as stand here (`Operation.trapDepth`):

| operation | slots taken when the last trap is raised |
| --- | --- |
| array store | 3: the value, the index, the array |
| array load, arithmetic, branch on two values | 2 |
| store, new array, array length, shift, bitwise, comparison, branch on one value | 1 |
| any other | 0 |

A branch to a subroutine is the one operation that does something before it can fail: it has pushed
its return address when the jump is refused.  Which of these a trap has done can be read off the
opcode (`trap_keeps_all_but_operands`).

A trap before the operation is carried out changes nothing, and the two kinds of trap have no trap
in common (`Trap.isEarly`, `Trap.isOperational`), so the trap alone tells whether the frame has
changed (`trap_tells_whether_frame_changed`).
-/

import MethodMachine.Proofs.Decoding
import MethodMachine.Proofs.Runs

namespace MethodMachine

/-- The number of values that a branch takes to decide whether to jump. -/
def Branch.arity : Branch → Nat
  | always => 0
  | subroutine => 0
  | onInt _ => 1
  | onIntPair _ => 2
  | onReferencePair _ => 2
  | onNull _ => 1

namespace Operation

/-- The most slots that a trap of the operation can have taken off the stack. -/
def trapDepth : Operation → Nat
  | store .. => 1
  | arrayLoad _ => 2
  | arrayStore _ => 3
  | newArray _ => 1
  | arrayLength => 1
  | arithmetic .. => 2
  | shift .. => 1
  | bitwise .. => 1
  | compare _ => 1
  | branch b _ => b.arity
  | _ => 0

end Operation

namespace Frame

/-- The frame without some slots on top of its stack. -/
def drop (f : Frame) (count : Nat) : Frame := { f with stack := f.stack.drop count }

/-- Slots taken in two goes are taken in one. -/
theorem drop_drop (f : Frame) (m n : Nat) : (f.drop m).drop n = f.drop (m + n) := by
  simp [drop, List.drop_drop]

end Frame

namespace Execution

variable {α β : Type} {m n : Nat} {e : Execution α} {k : α → Execution β}

/-- Trap or not, an effect takes at most so many slots off the stack and does nothing else. -/
def Takes (n : Nat) (e : Execution α) : Prop := ∀ f, ∃ count ≤ n, left (e f) = f.drop count

/-- When it traps, an effect has taken at most so many slots off the stack and done nothing else. -/
def TrapsAfter (n : Nat) (e : Execution α) : Prop :=
  ∀ f t g, e f = .error t g → ∃ count ≤ n, g = f.drop count

/-- An effect does not trap. -/
def Succeeds (e : Execution α) : Prop := ∀ f t g, e f ≠ .error t g

/-- An effect that only takes slots has done no more when it traps. -/
theorem Takes.trapsAfter (h : Takes n e) : TrapsAfter n e := by
  intro f t g hef
  have hleft := h f
  rwa [hef] at hleft

/-- Of an effect that does not trap there is nothing to show. -/
theorem Succeeds.trapsAfter (h : Succeeds e) : TrapsAfter n e := by
  intro f t g hef
  exact absurd hef (h f t g)

/-- A bound on the slots taken may be raised. -/
theorem TrapsAfter.mono (h : TrapsAfter m e) (hle : m ≤ n) : TrapsAfter n e := by
  intro f t g hef
  obtain ⟨count, hcount, hg⟩ := h f t g hef
  exact ⟨count, Nat.le_trans hcount hle, hg⟩

/-- The slots that two effects take add up. -/
theorem Takes.bind (he : Takes m e) (hk : ∀ a, Takes n (k a)) : Takes (m + n) (e >>= k) := by
  intro f
  obtain ⟨i, hi, hleft⟩ := he f
  cases hef : e f with
  | ok a g =>
    rw [hef] at hleft
    obtain ⟨j, hj, hnext⟩ := hk a g
    refine ⟨i + j, by omega, ?_⟩
    rw [bind_of_ok hef, ← Frame.drop_drop, ← hleft]
    exact hnext
  | error t g =>
    rw [hef] at hleft
    rw [bind_of_error hef]
    exact ⟨i, by omega, hleft⟩

/-- Slots are taken first, and then an effect may trap. -/
theorem Takes.andThen (he : Takes m e) (hk : ∀ a, TrapsAfter n (k a)) :
    TrapsAfter (m + n) (e >>= k) := by
  intro f t g h
  obtain ⟨i, hi, hleft⟩ := he f
  rcases bind_eq_error h with hef | ⟨a, g', hef, hkf⟩
  · rw [hef] at hleft
    exact ⟨i, by omega, hleft⟩
  · rw [hef] at hleft
    obtain ⟨j, hj, hg⟩ := hk a g' t g hkf
    refine ⟨i + j, by omega, ?_⟩
    rw [← Frame.drop_drop, ← hleft]
    exact hg

/-- After an effect that may trap comes one that does not. -/
theorem TrapsAfter.andThen (he : TrapsAfter n e) (hk : ∀ a, Succeeds (k a)) :
    TrapsAfter n (e >>= k) := by
  intro f t g h
  rcases bind_eq_error h with hef | ⟨a, g', -, hkf⟩
  · exact he f t g hef
  · exact absurd hkf (hk a g' t g)

/-- A value alone takes no slot. -/
theorem takes_pure (a : α) : Takes 0 (pure a) := fun _ => ⟨0, Nat.le_refl _, rfl⟩

/-- A trap alone takes no slot. -/
theorem takes_throw (t : Trap) : Takes 0 (throw t : Execution α) :=
  fun _ => ⟨0, Nat.le_refl _, rfl⟩

/-- Looking at the frame takes no slot. -/
theorem takes_get : Takes 0 (get : Execution Frame) := fun _ => ⟨0, Nat.le_refl _, rfl⟩

/-- A result that has been computed already takes no slot. -/
theorem takes_ofExcept (x : Except Trap α) : Takes 0 (ofExcept x) := by
  cases x with
  | ok a => exact takes_pure a
  | error t => exact takes_throw t

/-- An action on the stack that fails leaves the stack as it was. -/
theorem trapsAfter_onStack (action : OperandStack → Except Trap (α × OperandStack)) :
    TrapsAfter 0 (onStack action) := by
  intro f t g h
  unfold onStack at h
  split at h
  · cases h
  · cases h
    exact ⟨0, Nat.le_refl _, rfl⟩

/-- Taking the top slot takes it or, if it does not read as asked for, nothing. -/
theorem takes_popAs (read : Slot → Except Trap α) :
    Takes 1 (onStack (OperandStack.popAs read)) := by
  intro f
  cases hresult : OperandStack.popAs read f.stack with
  | error t => exact ⟨0, Nat.zero_le _, by rw [onStack, hresult]; rfl⟩
  | ok result =>
    obtain ⟨a, rest⟩ := result
    obtain ⟨s, hstack, -⟩ := OperandStack.popAs_eq_ok hresult
    refine ⟨1, Nat.le_refl _, ?_⟩
    rw [onStack, hresult, Frame.drop, hstack]
    rfl

/-- Taking an int takes one slot. -/
theorem takes_popInt : Takes 1 popInt := takes_popAs _

/-- Taking a reference takes one slot. -/
theorem takes_popReference : Takes 1 popReference := takes_popAs _

/-- Taking a slot of any kind takes one slot. -/
theorem takes_pop : Takes 1 pop := by
  rw [pop, OperandStack.pop_eq_popAs]
  exact takes_popAs _

/-- Taking an array takes one slot.  It has been taken when the reference turns out to be null. -/
theorem takes_popArray (op : Opcode) : Takes 1 (popArray op) := by
  refine takes_popReference.bind (n := 0) fun r => ?_
  cases r with
  | none => exact takes_throw _
  | some r =>
    refine takes_get.bind (n := 0) fun g => ?_
    split
    · exact takes_pure _
    · exact takes_throw _

/-- Loading a local takes no slot. -/
theorem takes_loadLocal (index : Nat) : Takes 0 (loadLocal index) :=
  takes_get.bind fun _ => takes_ofExcept _

/-- A value alone does not trap. -/
theorem succeeds_pure (a : α) : Succeeds (pure a) := by
  intro f t g h
  cases h

/-- A change of the frame does not trap. -/
theorem succeeds_modify (change : Frame → Frame) : Succeeds (modify change : Execution Unit) := by
  intro f t g h
  cases h

/-- The stack is never full. -/
theorem succeeds_push (s : Slot) : Succeeds (push s) := succeeds_modify _

/-- A local that there is not is refused before anything is written. -/
theorem trapsAfter_storeLocal (index : Nat) (s : Slot) : TrapsAfter 0 (storeLocal index s) := by
  intro f t g h
  unfold storeLocal at h
  split at h
  · cases h
  · cases h
    exact ⟨0, Nat.le_refl _, rfl⟩

/-- A refused jump changes nothing. -/
theorem jump_eq_error {origin : Nat} {target : Int} {f g : Frame} {t : Trap}
    (h : jump origin target f = .error t g) :
    t = .branchOutOfBounds origin (Int64.ofInt target) ∧ g = f := by
  change (if 0 ≤ target ∧ target < f.code.size then _ else _ : Execution Unit) f = _ at h
  split at h
  · cases h
  · cases h
    exact ⟨rfl, rfl⟩

/-- A jump takes no slot. -/
theorem trapsAfter_jump (origin : Nat) (target : Int) : TrapsAfter 0 (jump origin target) := by
  intro f t g h
  obtain ⟨-, rfl⟩ := jump_eq_error h
  exact ⟨0, Nat.le_refl _, rfl⟩

/-- A jump under a condition takes no slot; the values of the condition have been taken before. -/
theorem trapsAfter_jumpIf (condition : Bool) (origin : Nat) (target : Int) :
    TrapsAfter 0 (jumpIf condition origin target) := by
  unfold jumpIf
  split
  · exact trapsAfter_jump origin target
  · exact (takes_pure _).trapsAfter

/-- One operand is taken, and a result pushed. -/
theorem trapsAfter_unary (read : Slot → Except Trap α) (result : α → Slot) :
    TrapsAfter 0 (do push (result (← onStack (OperandStack.popAs read)))) :=
  (trapsAfter_onStack _).andThen fun _ => succeeds_push _

/-- Two operands are taken, and a result pushed. -/
theorem trapsAfter_binary (readFirst : Slot → Except Trap α) (readSecond : Slot → Except Trap β)
    (result : α → β → Slot) :
    TrapsAfter 1 (do
      let first ← onStack (OperandStack.popAs readFirst)
      let second ← onStack (OperandStack.popAs readSecond)
      push (result first second)) :=
  (takes_popAs readFirst).andThen fun _ => (trapsAfter_onStack _).andThen fun _ => succeeds_push _

/-- Two operands are taken, and a result pushed if there is one. -/
theorem trapsAfter_partial {γ : Type} (readFirst : Slot → Except Trap α)
    (readSecond : Slot → Except Trap β) (combine : α → β → Except Trap γ) (result : γ → Slot) :
    TrapsAfter 2 (do
      let first ← onStack (OperandStack.popAs readFirst)
      let second ← onStack (OperandStack.popAs readSecond)
      push (result (← ofExcept (combine first second)))) :=
  (takes_popAs readFirst).andThen fun _ => (takes_popAs readSecond).andThen fun _ =>
    (takes_ofExcept _).trapsAfter.andThen fun _ => succeeds_push _

/-- Both operands are gone when a divisor turns out to be zero. -/
theorem trapsAfter_arithmetic (operator : Arithmetic) (kind : NumericKind) :
    TrapsAfter 2 (arithmetic operator kind) := by
  cases kind with
  | int => exact trapsAfter_partial _ _ operator.onInt _
  | long => exact trapsAfter_partial _ _ operator.onLong _
  | float | double => exact (trapsAfter_binary _ _ _).mono (Nat.le_succ 1)

/-- Change of sign can only trap on its operand, which then stays. -/
theorem trapsAfter_negate (kind : NumericKind) : TrapsAfter 0 (negate kind) := by
  cases kind with
  | int | long | float | double => exact trapsAfter_unary _ _

/-- The amount of a shift is gone when the value turns out to be of another kind. -/
theorem trapsAfter_shift (s : Shift) (kind : WordKind) : TrapsAfter 1 (shift s kind) := by
  cases kind with
  | int | long => exact trapsAfter_binary _ _ _

/-- The first operand of a bitwise combination is gone when the second one is refused. -/
theorem trapsAfter_bitwise (operator : Bitwise) (kind : WordKind) :
    TrapsAfter 1 (bitwise operator kind) := by
  cases kind with
  | int | long => exact trapsAfter_binary _ _ _

/-- The first operand of a comparison is gone when the second one is refused. -/
theorem trapsAfter_compare (comparison : Comparison) : TrapsAfter 1 (compare comparison) := by
  cases comparison with
  | long | float unordered | double unordered => exact trapsAfter_binary _ _ _

/-- A number that is refused stays on the stack. -/
theorem trapsAfter_popNumber (kind : NumericKind) : TrapsAfter 0 (popNumber kind) := by
  cases kind with
  | int | long | float | double => exact (trapsAfter_onStack _).andThen fun _ => succeeds_pure _

/-- A return from a subroutine does not touch the stack. -/
theorem trapsAfter_returnFromSubroutine (origin index : Nat) :
    TrapsAfter 0 (returnFromSubroutine origin index) := by
  refine (takes_loadLocal index).andThen (n := 0) fun s => ?_
  split
  · exact trapsAfter_jump origin _
  · exact (takes_throw _).trapsAfter

/-- A value that is refused as the result of the frame stays on the stack. -/
theorem trapsAfter_complete (kind : Option Kind) : TrapsAfter 0 (complete kind) := by
  cases kind with
  | none => exact (succeeds_modify _).trapsAfter
  | some kind => exact (trapsAfter_onStack _).andThen fun _ => succeeds_modify _

/-- The index and the reference are gone when a load from an array is refused. -/
theorem trapsAfter_arrayLoad (op : Opcode) : TrapsAfter 2 (arrayLoad op) := by
  refine takes_popInt.andThen (n := 1) fun index => (takes_popArray op).andThen (n := 0) fun r => ?_
  exact (takes_ofExcept (r.2.load op index)).trapsAfter.andThen fun _ => succeeds_push _

/-- The value, the index and the reference are gone when a store into an array is refused. -/
theorem trapsAfter_arrayStore (op : Opcode) : TrapsAfter 3 (arrayStore op) := by
  refine takes_pop.andThen (n := 2) fun value => takes_popInt.andThen (n := 1) fun index =>
    (takes_popArray op).andThen (n := 0) fun r => ?_
  exact (takes_ofExcept (r.2.store op index value)).trapsAfter.andThen fun _ => succeeds_modify _

/-- The length is gone when it turns out to be negative. -/
theorem trapsAfter_newArray (element : ElementType) : TrapsAfter 1 (newArray element) := by
  refine takes_popInt.andThen (n := 0) fun length => ?_
  split
  · exact (takes_throw _).trapsAfter
  · -- the array is made and its reference pushed, and neither can fail
    intro f t g h
    cases h

/-- A branch that does not go to a subroutine takes its operands, and then it may be refused. -/
theorem trapsAfter_branch (origin : Nat) (target : Int) {b : Branch} (hb : b ≠ .subroutine) :
    TrapsAfter b.arity (branch origin target b) := by
  cases b with
  | always => exact trapsAfter_jump origin target
  | subroutine => exact absurd rfl hb
  | onInt condition => exact takes_popInt.andThen fun _ => trapsAfter_jumpIf _ origin target
  | onIntPair condition =>
    exact takes_popInt.andThen fun _ => takes_popInt.andThen fun _ =>
      trapsAfter_jumpIf _ origin target
  | onReferencePair same =>
    exact takes_popReference.andThen fun _ => takes_popReference.andThen fun _ =>
      trapsAfter_jumpIf _ origin target
  | onNull null => exact takes_popReference.andThen fun _ => trapsAfter_jumpIf _ origin target

/-- **A trap has taken slots off the stack and done nothing else**, unless the operation is a branch
to a subroutine. -/
theorem trapsAfter_execute (origin : Nat) {operation : Operation}
    (h : ∀ target, operation ≠ .branch .subroutine target) :
    TrapsAfter operation.trapDepth (execute origin operation) := by
  cases operation with
  | nop => exact (takes_pure _).trapsAfter
  | push s => exact (succeeds_push s).trapsAfter
  | load kind index =>
    exact (takes_loadLocal index).andThen fun s =>
      (takes_ofExcept (kind.check s)).trapsAfter.andThen fun _ => succeeds_push s
  | store kind index => exact (takes_popAs _).andThen fun s => trapsAfter_storeLocal index s
  | increment index delta =>
    exact (takes_loadLocal index).andThen fun s =>
      (takes_ofExcept s.asInt).andThen fun value => trapsAfter_storeLocal index _
  | arrayLoad op => exact trapsAfter_arrayLoad op
  | arrayStore op => exact trapsAfter_arrayStore op
  | newArray element => exact trapsAfter_newArray element
  | arrayLength =>
    exact (takes_popArray arrayLengthOpcode).trapsAfter.andThen fun _ => succeeds_push _
  | shuffle s =>
    unfold execute
    exact trapsAfter_onStack _
  | arithmetic kind operator => exact trapsAfter_arithmetic operator kind
  | negate kind => exact trapsAfter_negate kind
  | shift kind s => exact trapsAfter_shift s kind
  | bitwise kind operator => exact trapsAfter_bitwise operator kind
  | convert source target =>
    exact (trapsAfter_popNumber source).andThen fun _ => succeeds_push _
  | narrow target => exact trapsAfter_unary _ _
  | compare comparison => exact trapsAfter_compare comparison
  | branch b target =>
    refine trapsAfter_branch origin target ?_
    rintro rfl
    exact h target rfl
  | returnFromSubroutine index => exact trapsAfter_returnFromSubroutine origin index
  | complete kind => exact trapsAfter_complete kind

variable {origin : Nat} {operation : Operation} {f g : Frame} {t : Trap}

/-- **A refused branch to a subroutine has pushed its return address** and done nothing else. -/
theorem execute_subroutine_eq_error {target : Int}
    (h : execute origin (.branch .subroutine target) f = .error t g) :
    t = .branchOutOfBounds origin (Int64.ofInt target) ∧
      g = { f with stack := .ofReference (.returnAddress f.pc) :: f.stack } :=
  jump_eq_error h

example : execute 0 (.branch .subroutine 8) { Frame.new #[0xA8, 0, 8] 0 #[] with pc := 3 } =
    .error (.branchOutOfBounds 0 8) { Frame.new #[0xA8, 0, 8] 0 #[] with
      pc := 3, stack := [.ofReference (.returnAddress 3)] } := rfl

/-- A trap has changed nothing but the stack. -/
theorem eq_of_execute_eq_error (h : execute origin operation f = .error t g) :
    g = { f with stack := g.stack } := by
  by_cases hcall : ∃ target, operation = .branch .subroutine target
  · obtain ⟨target, rfl⟩ := hcall
    obtain ⟨-, rfl⟩ := execute_subroutine_eq_error h
    rfl
  · obtain ⟨count, -, rfl⟩ := trapsAfter_execute origin (not_exists.mp hcall) f t g h
    rfl

/-- A trap while an operation is carried out is one of an operation. -/
theorem isOperational_of_execute_eq_error (h : execute origin operation f = .error t g) :
    t.isOperational = true := by
  have hmeets := (follows_execute origin operation f).meets
  rwa [h] at hmeets

end Execution

namespace Opcode

/-- Whether the opcode branches to a subroutine. -/
def callsSubroutine (op : Opcode) : Bool := op = 0xA8 || op = 0xC9

/-- Whether the opcode takes nothing off the stack unless it succeeds: it loads a local, arranges
the stack, increments a local, or returns. -/
def sparesStack (op : Opcode) : Bool :=
  (0x15 ≤ op && op ≤ 0x2D) || (0x57 ≤ op && op ≤ 0x5F) || op = 0x84 || op = 0xA9 ||
    (0xAC ≤ op && op ≤ 0xB1)

/-- The opcodes that branch to a subroutine are those that are decoded so. -/
theorem callsSubroutine_iff (op : Opcode) :
    op.callsSubroutine = true ↔ (Encoding.ofOpcode op).shape? = some (.branch .subroutine 0) := by
  revert op
  refine forall_of_fin ?_
  decide +kernel

/-- An opcode that spares the stack announces an operation that takes nothing before it traps. -/
theorem trapDepth_of_sparesStack (op : Opcode) (h : op.sparesStack = true) :
    ∀ shape ∈ (Encoding.ofOpcode op).shape?, shape.trapDepth = 0 := by
  revert op
  refine forall_of_fin ?_
  decide +kernel

end Opcode

namespace Operation

/-- No operation takes more than three slots before it traps. -/
theorem trapDepth_le (operation : Operation) : operation.trapDepth ≤ 3 := by
  cases operation with
  | branch b target => cases b <;> exact Nat.le_of_ble_eq_true rfl
  | _ => exact Nat.le_of_ble_eq_true rfl

/-- How many slots a trap can have taken does not depend on the numbers in the operation. -/
theorem trapDepth_shape (operation : Operation) :
    operation.shape.trapDepth = operation.trapDepth := by
  fun_cases shape operation <;> rfl

/-- The shape of an operation tells whether it branches to a subroutine. -/
theorem shape_eq_subroutine_iff {operation : Operation} :
    operation.shape = .branch .subroutine 0 ↔ ∃ target, operation = .branch .subroutine target := by
  constructor
  · intro h
    cases operation with
    | push s => cases s <;> cases h
    | branch b target =>
      cases h
      exact ⟨target, rfl⟩
    | _ => cases h
  · rintro ⟨target, rfl⟩
    rfl

end Operation

namespace Trap

variable {t : Trap}

/-- No trap is raised both before an operation is carried out and while it is. -/
theorem isEarly_of_isOperational (h : t.isOperational = true) : t.isEarly = false := by
  cases t with
  | alreadyReturned | codeOutOfBounds | unknownOpcode | reservedOpcode | unknownArrayType => cases h
  | _ => rfl

/-- A step raises none of the traps that belong to the end of a run or to a host value. -/
theorem ne_of_isEarly_or_isOperational (h : t.isEarly = true ∨ t.isOperational = true) :
    (∀ count, t ≠ .stackNotEmpty count) ∧ t ≠ .nestedSlot ∧ t ≠ .unsupportedObject := by
  refine ⟨fun count ht => ?_, fun ht => ?_, fun ht => ?_⟩
  all_goals
    subst ht
    rcases h with h | h <;> cases h

end Trap

namespace Opcode

/-- What a trap makes of the stack: at most three slots are taken off it, and none by an opcode that
spares it.  A branch to a subroutine leaves its return address on top instead. -/
def LeavesStack (op : Opcode) (origin next : Nat) (t : Trap) (before after : OperandStack) : Prop :=
  if op.callsSubroutine then
    (∃ target, t = .branchOutOfBounds origin target) ∧
      after = .ofReference (.returnAddress next) :: before
  else
    ∃ taken, taken.length ≤ 3 ∧ before = taken ++ after ∧ (op.sparesStack = true → taken = [])

end Opcode

namespace Frame

variable {f g : Frame} {t : Trap} {operation : Operation} {next : Nat}

/-- A step of a running frame that decodes an operation is that operation, on the frame that has
moved on and counted the step. -/
theorem step_of_decode (hrunning : f.status = .running)
    (hdecode : Operation.decode f.code f.pc = .ok (operation, next)) :
    step f = Execution.execute f.pc operation { f with pc := next, steps := f.steps + 1 } := by
  simp only [step, hrunning, hdecode]

/-- Where a step traps: before anything has changed, or while it carries out what it has decoded. -/
theorem step_eq_error (h : step f = .error t g) :
    (t.isEarly = true ∧ g = f) ∨
    ∃ operation next, Operation.decode f.code f.pc = .ok (operation, next) ∧
      t.isOperational = true ∧
      g = { f with pc := next, steps := f.steps + 1, stack := g.stack } := by
  rcases step_cases f with ⟨t', hstep, hcause⟩ | ⟨operation, next, hdecode, hstep⟩
  · rw [hstep] at h
    cases h
    refine .inl ⟨?_, rfl⟩
    rcases hcause with rfl | hdecode
    · rfl
    · exact Operation.isEarly_of_decode hdecode
  · rw [hstep] at h
    exact .inr ⟨operation, next, hdecode, Execution.isOperational_of_execute_eq_error h,
      Execution.eq_of_execute_eq_error h⟩

/-- **The trap alone tells whether the frame has changed.**  A step that fails leaves the frame as
it was if its trap is early, and only then; after any other trap the step has been counted and the
next instruction is the one after it.  Three traps are never raised by a step. -/
theorem trap_tells_whether_frame_changed (f : Frame) :
    (∀ t g, step f = .error t g →
      (t.isEarly = true ↔ g = f) ∧
      (t.isEarly = false → g.steps = f.steps + 1 ∧
        ∃ count, f.code.operandCount f.pc = .ok count ∧ g.pc = f.pc + 1 + count) ∧
      (∀ count, t ≠ .stackNotEmpty count) ∧ t ≠ .nestedSlot ∧ t ≠ .unsupportedObject) ∧
    ∀ u g, step f = .ok u g → g.steps = f.steps + 1 := by
  refine ⟨fun t g h => ?_, fun u g h => steps_of_step h⟩
  rcases step_eq_error h with ⟨hearly, rfl⟩ | ⟨operation, next, hdecode, hoperational, hg⟩
  · refine ⟨iff_of_true hearly rfl, fun hlate => ?_,
      Trap.ne_of_isEarly_or_isOperational (.inl hearly)⟩
    rw [hearly] at hlate
    cases hlate
  · have hlate := Trap.isEarly_of_isOperational hoperational
    have hsteps : g.steps = f.steps + 1 := by rw [hg]
    have hpc : g.pc = next := by rw [hg]
    obtain ⟨count, hcount, hnext⟩ := Operation.operandCount_of_decode hdecode
    have hchanged : g ≠ f := by
      rintro rfl
      omega
    refine ⟨iff_of_false (Bool.eq_false_iff.1 hlate) hchanged,
      fun _ => ⟨hsteps, count, hcount, hpc.trans hnext⟩,
      Trap.ne_of_isEarly_or_isOperational (.inr hoperational)⟩

/-- **A trap changes nothing but the stack.**  While an instruction that has been decoded is carried
out, a trap leaves the frame at the next instruction with the same locals, the same heap and the same
status, and the opcode says what has become of the stack. -/
theorem trap_keeps_all_but_operands (hrunning : f.status = .running)
    (hdecode : Operation.decode f.code f.pc = .ok (operation, next))
    (h : step f = .error t g) :
    g = { f with pc := next, steps := f.steps + 1, stack := g.stack } ∧
      ∃ op, f.code.opcodeAt? f.pc = some op ∧ op.LeavesStack f.pc next t f.stack g.stack := by
  rw [step_of_decode hrunning hdecode] at h
  refine ⟨Execution.eq_of_execute_eq_error h, ?_⟩
  obtain ⟨op, hop, hshape⟩ := Operation.shape?_of_decode hdecode
  refine ⟨op, hop, ?_⟩
  unfold Opcode.LeavesStack
  split
  · rename_i hcall
    rw [Opcode.callsSubroutine_iff, hshape, Option.some.injEq,
      Operation.shape_eq_subroutine_iff] at hcall
    obtain ⟨target, rfl⟩ := hcall
    obtain ⟨ht, rfl⟩ := Execution.execute_subroutine_eq_error h
    exact ⟨⟨_, ht⟩, rfl⟩
  · rename_i hcall
    rw [Opcode.callsSubroutine_iff, hshape, Option.some.injEq,
      Operation.shape_eq_subroutine_iff, not_exists] at hcall
    obtain ⟨count, hcount, rfl⟩ := Execution.trapsAfter_execute f.pc hcall _ t g h
    refine ⟨f.stack.take count, ?_, (List.take_append_drop count f.stack).symm, fun hspares => ?_⟩
    · have hdepth := operation.trapDepth_le
      have hlength := List.length_take_le count f.stack
      omega
    · have hdepth := Opcode.trapDepth_of_sparesStack op hspares _ hshape
      rw [Operation.trapDepth_shape] at hdepth
      have hzero : count = 0 := by omega
      rw [hzero, List.take_zero]

/-- A store past the end of an array has taken all three operands when it fails. -/
theorem store_past_end_keeps_array :
    let f : Frame := { new #[0x4F] 1 #[.array (.new .int 2)] with
      stack := [.int 9, .int 5, .ofReference (.object 0), .int 1] }
    let g : Frame := { f with pc := 1, steps := 1, stack := [.int 1] }
    f.status = .running ∧ Operation.decode f.code f.pc = .ok (.arrayStore 0x4F, 1) ∧
      step f = .error (.arrayIndexOutOfBounds 5 2) g ∧
      g = { f with pc := 1, steps := f.steps + 1, stack := g.stack } ∧
      ∃ op, f.code.opcodeAt? f.pc = some op ∧
        op.LeavesStack f.pc 1 (.arrayIndexOutOfBounds 5 2) f.stack g.stack := by
  intro f g
  have hdecode : Operation.decode f.code f.pc = .ok (.arrayStore 0x4F, 1) := by rfl
  have hstep : step f = .error (.arrayIndexOutOfBounds 5 2) g := by rfl
  exact ⟨rfl, hdecode, hstep, trap_keeps_all_but_operands rfl hdecode hstep⟩

end Frame

end MethodMachine
