/-
# Quiet effects

Most operations touch nothing but the stack and the program counter: they take slots, push numbers
and may jump.  Such an effect is *quiet* (`Quiet`), and effects that are quiet one by one are quiet
together.  Not quiet are the operations that push anything but a number or write anything but the
stack (`Operation.isQuiet`):

| operation | |
| --- | --- |
| `push`, `load`, branch to a subroutine | push any slot |
| `store`, `increment` | write a local |
| `arrayStore`, `newArray` | write the heap |
| `complete` | writes the status |

An effect sees an object of the heap only through a reference that it takes off the stack.  So a
quiet effect does the same in another heap that agrees with the first on these objects
(`Overlooks`).
-/

import MethodMachine.Proofs.Decoding
import MethodMachine.Proofs.Effects

namespace MethodMachine

/-- Whether the slot is a number. -/
def Slot.isNumber : Slot → Bool
  | int _ => true
  | long _ => true
  | float _ => true
  | double _ => true
  | _ => false

/-- Only a reference reads as one. -/
theorem Slot.eq_of_asReference {s : Slot} {r : Option Reference} (h : s.asReference = .ok r) :
    s = .reference r := by
  cases s with
  | reference r' =>
    cases h
    rfl
  | _ => cases h

/-- An array is found only where the reference denotes its object. -/
theorem Heap.array?_eq_some {heap : Heap} {r : Reference} {found : Nat × PrimitiveArray}
    (h : heap.array? r = some found) :
    r = .object found.1 ∧ heap[found.1]? = some (.array found.2) := by
  unfold array? at h
  split at h
  · cases h
  · split at h
    · rename_i hobject
      cases h
      exact ⟨rfl, hobject⟩
    · cases h

/-- Another heap has the same objects wherever a reference on the stack points. -/
def Frame.StackAgrees (f : Frame) (heap : Heap) : Prop :=
  ∀ id, .ofReference (.object id) ∈ f.stack → heap[id]? = f.heap[id]?

namespace Execution

variable {α β : Type} {e : Execution α} {k : α → Execution β} {f g : Frame}

/-- What an effect comes to, with another heap in the frame it leaves. -/
def withHeap (heap : Heap) : EStateM.Result Trap Frame α → EStateM.Result Trap Frame α
  | .ok a g => .ok a { g with heap := heap }
  | .error t g => .error t { g with heap := heap }

/-- An effect leaves the heap alone and sees no object in it but through a reference on the
stack. -/
def Overlooks (e : Execution α) : Prop :=
  ∀ f heap, f.StackAgrees heap → e { f with heap := heap } = withHeap heap (e f)

/-- An effect that succeeds has changed nothing but the stack and the program counter, and pushed
only numbers; and it overlooks the heap. -/
structure Quiet (e : Execution α) : Prop where
  change : ∀ f a g, e f = .ok a g → g = { f with stack := g.stack, pc := g.pc }
  stack : ∀ f a g, e f = .ok a g → ∀ s ∈ g.stack, s ∈ f.stack ∨ s.isNumber = true
  overlooks : Overlooks e

/-- A quiet effect brings no reference onto the stack. -/
theorem Quiet.stackAgrees (he : Quiet e) {a : α} (hef : e f = .ok a g) {heap : Heap}
    (h : f.StackAgrees heap) : g.StackAgrees heap := by
  intro id hid
  have hheap : g.heap = f.heap := by rw [he.change f a g hef]
  rcases he.stack f a g hef _ hid with hmem | hnumber
  · rw [hheap]
    exact h id hmem
  · cases hnumber

/-- After a quiet effect, what comes next sees no more of the heap than it did. -/
theorem Quiet.overlooks_bind (he : Quiet e) (hk : ∀ a, Overlooks (k a)) : Overlooks (e >>= k) := by
  intro f heap h
  have hsame := he.overlooks f heap h
  cases hef : e f with
  | ok a g =>
    rw [hef] at hsame
    rw [bind_of_ok hef, bind_of_ok hsame]
    exact hk a g heap (he.stackAgrees hef h)
  | error t g =>
    rw [hef] at hsame
    rw [bind_of_error hef, bind_of_error hsame]
    rfl

/-- **Effects that are quiet one by one are quiet together.** -/
theorem Quiet.bind (he : Quiet e) (hk : ∀ a, Quiet (k a)) : Quiet (e >>= k) where
  change f b g h := by
    obtain ⟨a, f', hef, hkf⟩ := bind_eq_ok h
    rw [(hk a).change f' b g hkf, he.change f a f' hef]
  stack f b g h s hs := by
    obtain ⟨a, f', hef, hkf⟩ := bind_eq_ok h
    rcases (hk a).stack f' b g hkf s hs with hmem | hnumber
    · exact he.stack f a f' hef s hmem
    · exact .inr hnumber
  overlooks := he.overlooks_bind fun a => (hk a).overlooks

/-- A value alone changes nothing. -/
theorem quiet_pure (a : α) : Quiet (pure a) where
  change f b g h := by
    cases h
    rfl
  stack f b g h s hs := by
    cases h
    exact .inl hs
  overlooks _ _ _ := rfl

/-- A trap never succeeds, and it raises the same trap in every heap. -/
theorem quiet_throw (t : Trap) : Quiet (throw t : Execution α) where
  change f b g h := by cases h
  stack f b g h := by cases h
  overlooks _ _ _ := rfl

/-- What is done with a value may depend on how it came about. -/
theorem quiet_ofExcept_bind {x : Except Trap α} (h : ∀ a, x = .ok a → Quiet (k a)) :
    Quiet (ofExcept x >>= k) := by
  cases x with
  | ok a => exact h a rfl
  | error t => exact quiet_throw t

/-- An effect on the stack that brings in no slot is quiet. -/
theorem quiet_onStack {action : OperandStack → Except Trap (α × OperandStack)}
    (h : ∀ stack a rest, action stack = .ok (a, rest) → ∀ s ∈ rest, s ∈ stack) :
    Quiet (onStack action) where
  change f a g hg := by
    unfold onStack at hg
    split at hg
    · cases hg
      rfl
    · cases hg
  stack f a g hg s hs := by
    unfold onStack at hg
    split at hg
    · rename_i a' rest haction
      cases hg
      exact .inl (h f.stack a rest haction s hs)
    · cases hg
  overlooks f heap _ := by
    unfold onStack
    dsimp only
    split <;> rfl

/-- Taking the top slot leaves slots that were there before. -/
theorem quiet_popAs (read : Slot → Except Trap α) : Quiet (onStack (OperandStack.popAs read)) := by
  refine quiet_onStack fun stack a rest hpop s hs => ?_
  obtain ⟨top, rfl, -⟩ := OperandStack.popAs_eq_ok hpop
  exact List.mem_cons_of_mem _ hs

/-- Taking an int is quiet. -/
theorem quiet_popInt : Quiet popInt := quiet_popAs _

/-- Taking a long is quiet. -/
theorem quiet_popLong : Quiet popLong := quiet_popAs _

/-- Taking a float is quiet. -/
theorem quiet_popFloat : Quiet popFloat := quiet_popAs _

/-- Taking a double is quiet. -/
theorem quiet_popDouble : Quiet popDouble := quiet_popAs _

/-- Taking a reference is quiet: what it denotes is not looked at. -/
theorem quiet_popReference : Quiet popReference := quiet_popAs _

/-- Taking a slot of a kind as it is is quiet. -/
theorem quiet_popOfKind (kind : Kind) : Quiet (popOfKind kind) := quiet_popAs _

/-- Taking a slot of any kind is quiet. -/
theorem quiet_pop : Quiet pop := by
  rw [pop, OperandStack.pop_eq_popAs]
  exact quiet_popAs _

/-- Pushing is quiet if the slot is a number, which points nowhere. -/
theorem quiet_push {s : Slot} (h : s.isNumber = true) : Quiet (push s) where
  change f a g hg := by
    cases hg
    rfl
  stack f a g hg s' hs' := by
    cases hg
    rcases List.mem_cons.1 hs' with rfl | hmem
    · exact .inr h
    · exact .inl hmem
  overlooks _ _ _ := rfl

/-- A local that is loaded stands at its index, and the frame stays as it is. -/
theorem loadLocal_eq_ok {index : Nat} {s : Slot} (h : loadLocal index f = .ok s g) :
    f.locals[index]? = some s ∧ g = f := by
  change ofExcept (f.locals.load index) f = _ at h
  unfold Locals.load at h
  split at h
  · rename_i s' hs'
    cases h
    exact ⟨hs', rfl⟩
  · cases h

/-- Loading a local is quiet as long as it is not pushed. -/
theorem quiet_loadLocal (index : Nat) : Quiet (loadLocal index) where
  change f s g h := by
    obtain ⟨-, rfl⟩ := loadLocal_eq_ok h
    rfl
  stack f s g h s' hs' := by
    obtain ⟨-, rfl⟩ := loadLocal_eq_ok h
    exact .inl hs'
  overlooks f heap _ := by
    show ofExcept (f.locals.load index) _ = withHeap heap (ofExcept (f.locals.load index) f)
    cases f.locals.load index <;> rfl

/-- Taking an array takes a reference to an object off the stack, and the object is the array. -/
theorem popArray_eq_ok {op : Opcode} {id : Nat} {a : PrimitiveArray}
    (h : popArray op f = .ok (id, a) g) :
    ∃ rest, f.stack = .ofReference (.object id) :: rest ∧ f.heap[id]? = some (.array a) ∧
      g = { f with stack := rest } := by
  obtain ⟨r, f', hpop, h⟩ := bind_eq_ok h
  obtain ⟨s, rest, hstack, hread, rfl⟩ := popAs_eq_ok hpop
  cases r with
  | none => cases h
  | some r =>
    obtain ⟨f', f'', hget, h⟩ := bind_eq_ok h
    cases hget
    cases hfound : f.heap.array? r with
    | none =>
      rw [hfound] at h
      cases h
    | some found =>
      rw [hfound] at h
      cases h
      obtain ⟨rfl, hobject⟩ := Heap.array?_eq_some hfound
      refine ⟨rest, ?_, hobject, rfl⟩
      rw [hstack, Slot.eq_of_asReference hread]
      rfl

/-- Taking an array looks at the one object that the reference on the stack points to. -/
theorem overlooks_popArray (op : Opcode) : Overlooks (popArray op) := by
  intro f heap h
  have hsame := quiet_popReference.overlooks f heap h
  unfold popArray
  cases hpop : popReference f with
  | error t g =>
    rw [hpop] at hsame
    rw [bind_of_error hpop, bind_of_error hsame]
    rfl
  | ok r g =>
    rw [hpop] at hsame
    rw [bind_of_ok hpop, bind_of_ok hsame]
    obtain ⟨s, rest, hstack, hread, rfl⟩ := popAs_eq_ok hpop
    cases r with
    | none => rfl
    | some r =>
      have hmem : .reference (some r) ∈ f.stack := by
        rw [hstack, Slot.eq_of_asReference hread]
        exact List.mem_cons_self ..
      have harray : heap.array? r = f.heap.array? r := by
        cases r with
        | object id => rw [Heap.array?, Heap.array?, h id hmem]
        | returnAddress pc => rfl
      have hget (k : Frame → Execution (Nat × PrimitiveArray)) (f : Frame) :
          ((get : Execution Frame) >>= k) f = k f f := rfl
      simp only [hget, harray]
      cases f.heap.array? r <;> rfl

/-- Taking an array is quiet. -/
theorem quiet_popArray (op : Opcode) : Quiet (popArray op) where
  change f found g h := by
    obtain ⟨rest, -, -, rfl⟩ := popArray_eq_ok h
    rfl
  stack f found g h s hs := by
    obtain ⟨rest, hstack, -, rfl⟩ := popArray_eq_ok h
    rw [hstack]
    exact .inl (List.mem_cons_of_mem _ hs)
  overlooks := overlooks_popArray op

/-- A jump that is not refused sets the program counter and nothing else. -/
theorem jump_eq_ok {origin : Nat} {target : Int} {u : Unit}
    (h : jump origin target f = .ok u g) : g = { f with pc := target.toNat } := by
  change (if 0 ≤ target ∧ target < f.code.size then _ else _ : Execution Unit) f = _ at h
  split at h
  · cases h
    rfl
  · cases h

/-- Whether a jump is refused depends on the code alone. -/
theorem jump_heap (origin : Nat) (target : Int) (f : Frame) (heap : Heap) :
    jump origin target { f with heap := heap } = withHeap heap (jump origin target f) := by
  show (if 0 ≤ target ∧ target < f.code.size then _ else _ : Execution Unit) _ =
    withHeap heap ((if 0 ≤ target ∧ target < f.code.size then _ else _ : Execution Unit) f)
  split <;> rfl

/-- A jump is quiet. -/
theorem quiet_jump (origin : Nat) (target : Int) : Quiet (jump origin target) where
  change f u g h := by rw [jump_eq_ok h]
  stack f u g h s hs := by
    rw [jump_eq_ok h] at hs
    exact .inl hs
  overlooks f heap _ := jump_heap origin target f heap

/-- A jump under a condition is quiet, taken or not. -/
theorem quiet_jumpIf (condition : Bool) (origin : Nat) (target : Int) :
    Quiet (jumpIf condition origin target) := by
  unfold jumpIf
  split
  · exact quiet_jump origin target
  · exact quiet_pure ()

/-- Binary arithmetic is quiet; division by zero pushes nothing. -/
theorem quiet_arithmetic (operator : Arithmetic) (kind : NumericKind) :
    Quiet (arithmetic operator kind) := by
  cases kind with
  | int =>
    exact quiet_popInt.bind fun _ => quiet_popInt.bind fun _ =>
      quiet_ofExcept_bind fun _ _ => quiet_push rfl
  | long =>
    exact quiet_popLong.bind fun _ => quiet_popLong.bind fun _ =>
      quiet_ofExcept_bind fun _ _ => quiet_push rfl
  | float => exact quiet_popFloat.bind fun _ => quiet_popFloat.bind fun _ => quiet_push rfl
  | double => exact quiet_popDouble.bind fun _ => quiet_popDouble.bind fun _ => quiet_push rfl

/-- Change of sign is quiet. -/
theorem quiet_negate (kind : NumericKind) : Quiet (negate kind) := by
  cases kind with
  | int => exact quiet_popInt.bind fun _ => quiet_push rfl
  | long => exact quiet_popLong.bind fun _ => quiet_push rfl
  | float => exact quiet_popFloat.bind fun _ => quiet_push rfl
  | double => exact quiet_popDouble.bind fun _ => quiet_push rfl

/-- A shift is quiet. -/
theorem quiet_shift (s : Shift) (kind : WordKind) : Quiet (shift s kind) := by
  cases kind with
  | int => exact quiet_popInt.bind fun _ => quiet_popInt.bind fun _ => quiet_push rfl
  | long => exact quiet_popInt.bind fun _ => quiet_popLong.bind fun _ => quiet_push rfl

/-- A bitwise combination is quiet. -/
theorem quiet_bitwise (operator : Bitwise) (kind : WordKind) : Quiet (bitwise operator kind) := by
  cases kind with
  | int => exact quiet_popInt.bind fun _ => quiet_popInt.bind fun _ => quiet_push rfl
  | long => exact quiet_popLong.bind fun _ => quiet_popLong.bind fun _ => quiet_push rfl

/-- A comparison is quiet. -/
theorem quiet_compare (comparison : Comparison) : Quiet (compare comparison) := by
  cases comparison with
  | long => exact quiet_popLong.bind fun _ => quiet_popLong.bind fun _ => quiet_push rfl
  | float unordered =>
    exact quiet_popFloat.bind fun _ => quiet_popFloat.bind fun _ => quiet_push rfl
  | double unordered =>
    exact quiet_popDouble.bind fun _ => quiet_popDouble.bind fun _ => quiet_push rfl

/-- Taking a number of any kind is quiet. -/
theorem quiet_popNumber (kind : NumericKind) : Quiet (popNumber kind) := by
  cases kind with
  | int => exact quiet_popInt.bind fun _ => quiet_pure _
  | long => exact quiet_popLong.bind fun _ => quiet_pure _
  | float => exact quiet_popFloat.bind fun _ => quiet_pure _
  | double => exact quiet_popDouble.bind fun _ => quiet_pure _

/-- A converted number is a number. -/
theorem isNumber_toSlot (n : Number) (kind : NumericKind) : (n.toSlot kind).isNumber = true := by
  cases kind <;> rfl

/-- An element of an array is a number, since arrays hold no references. -/
theorem isNumber_element (t : ElementType) (v : t.Value) : (t.toSlot v).isNumber = true := by
  cases t <;> rfl

/-- A loaded element is a number. -/
theorem isNumber_of_load {a : PrimitiveArray} {op : Opcode} {index : Int32} {s : Slot}
    (h : a.load op index = .ok s) : s.isNumber = true := by
  unfold PrimitiveArray.load at h
  split at h
  · obtain ⟨i, -, hi⟩ := Operation.exists_of_bind h
    cases hi
    exact isNumber_element ..
  · cases h

/-- A load from an array is quiet: it sees the array through the reference it takes. -/
theorem quiet_arrayLoad (op : Opcode) : Quiet (arrayLoad op) :=
  quiet_popInt.bind fun _ => (quiet_popArray op).bind fun _ =>
    quiet_ofExcept_bind fun _ hload => quiet_push (isNumber_of_load hload)

/-- A branch that does not go to a subroutine pushes nothing. -/
theorem quiet_branch (origin : Nat) (target : Int) {b : Branch} (hb : b ≠ .subroutine) :
    Quiet (branch origin target b) := by
  cases b with
  | always => exact quiet_jump origin target
  | subroutine => exact absurd rfl hb
  | onInt condition => exact quiet_popInt.bind fun _ => quiet_jumpIf _ origin target
  | onIntPair condition =>
    exact quiet_popInt.bind fun _ => quiet_popInt.bind fun _ => quiet_jumpIf _ origin target
  | onReferencePair same =>
    exact quiet_popReference.bind fun _ => quiet_popReference.bind fun _ =>
      quiet_jumpIf _ origin target
  | onNull null => exact quiet_popReference.bind fun _ => quiet_jumpIf _ origin target

/-- A return from a subroutine is quiet: the address is read and not pushed. -/
theorem quiet_returnFromSubroutine (origin index : Nat) :
    Quiet (returnFromSubroutine origin index) := by
  refine (quiet_loadLocal index).bind fun s => ?_
  split
  · exact quiet_jump origin _
  · exact quiet_throw _

/-- A shuffle is quiet: it only moves slots that are on the stack. -/
theorem quiet_shuffle (origin : Nat) (s : Shuffle) : Quiet (execute origin (.shuffle s)) := by
  unfold execute
  refine quiet_onStack fun stack u rest hshuffle s' hs' => ?_
  cases hresult : stack.shuffle s with
  | error t =>
    rw [hresult] at hshuffle
    cases hshuffle
  | ok result =>
    rw [hresult] at hshuffle
    cases hshuffle
    exact OperandStack.mem_of_mem_shuffle hresult hs'

end Execution

namespace Operation

/-- Whether an operation touches nothing but the stack and the program counter, and pushes only
numbers. -/
def isQuiet : Operation → Bool
  | push _ => false
  | load .. => false
  | store .. => false
  | increment .. => false
  | arrayStore _ => false
  | newArray _ => false
  | branch .subroutine _ => false
  | complete _ => false
  | _ => true

end Operation

namespace Execution

/-- **Most operations are quiet.** -/
theorem quiet_execute (origin : Nat) {operation : Operation} (h : operation.isQuiet = true) :
    Quiet (execute origin operation) := by
  cases operation with
  | nop => exact quiet_pure ()
  | arrayLoad op => exact quiet_arrayLoad op
  | arrayLength =>
    exact (quiet_popArray arrayLengthOpcode).bind fun _ => quiet_push rfl
  | shuffle s => exact quiet_shuffle origin s
  | arithmetic kind operator => exact quiet_arithmetic operator kind
  | negate kind => exact quiet_negate kind
  | shift kind s => exact quiet_shift s kind
  | bitwise kind operator => exact quiet_bitwise operator kind
  | convert source target =>
    exact (quiet_popNumber source).bind fun n => quiet_push (isNumber_toSlot n target)
  | narrow target => exact quiet_popInt.bind fun _ => quiet_push rfl
  | compare comparison => exact quiet_compare comparison
  | branch b target =>
    refine quiet_branch origin target ?_
    rintro rfl
    cases h
  | returnFromSubroutine index => exact quiet_returnFromSubroutine origin index
  | push | load | store | increment | arrayStore | newArray | complete => cases h

end Execution

end MethodMachine
