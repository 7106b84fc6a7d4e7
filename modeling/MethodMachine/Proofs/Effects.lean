/-
# What an operation can change

An operation is a sequence of effects, and a trap keeps the effects before it.  So what holds of the
frame that an operation leaves, trap or not, has to hold after every one of its effects.  `Keeps`
says that an effect keeps a property of frames, and `Keeps.bind` puts effects together.

The property that all operations keep is `Change`: relative to the frame `f` at the start, the code
and the step count are the same, every slot is one that `f` held or one that the operation supplies,
and the program counter has stayed or gone where the operation leads:

| operation | supplies | leads to |
| --- | --- | --- |
| `push` | its constant | |
| `newArray` | a reference to an object | |
| branch to a subroutine | the address after it | its target |
| any other branch | | its target |
| return from a subroutine | | the address in its local |
| any other | numbers | |

`Keeps` also looks at the traps.  Those that stop a step before its operation is known are not
among them, nor are those of a run or of a host value (`Trap.isOperational`).
-/

import MethodMachine.Frame.Run
import MethodMachine.Proofs.WordStack

namespace MethodMachine

namespace Trap

/-- Whether an operation can raise the trap while it is carried out. -/
def isOperational : Trap → Bool
  | codeOutOfBounds _ => false
  | unknownArrayType _ => false
  | unsupportedObject => false
  | stackNotEmpty _ => false
  | nestedSlot => false
  | alreadyReturned => false
  | unknownOpcode _ => false
  | reservedOpcode _ => false
  | _ => true

/-- A result that is a value, or else a trap of an operation. -/
def Operational {α : Type} : Except Trap α → Prop
  | .ok _ => True
  | .error t => t.isOperational = true

/-- What is made of a value does not matter to the trap that stands in its place. -/
theorem Operational.map {α β : Type} {x : Except Trap α} (h : Operational x) (change : α → β) :
    Operational (x.map change) := by
  cases x with
  | ok a => trivial
  | error t => exact h

end Trap

open Trap (Operational)

namespace Slot

/-- A slot that does not read as an int is a trap of an operation. -/
theorem operational_asInt (s : Slot) : Operational s.asInt := by
  unfold asInt
  split
  · trivial
  · trivial
  · rfl

/-- So is one that does not read as a long. -/
theorem operational_asLong (s : Slot) : Operational s.asLong := by
  unfold asLong
  split
  · trivial
  · rfl

/-- So is one that does not read as a float. -/
theorem operational_asFloat (s : Slot) : Operational s.asFloat := by
  unfold asFloat
  split
  · trivial
  · rfl

/-- So is one that does not read as a double. -/
theorem operational_asDouble (s : Slot) : Operational s.asDouble := by
  unfold asDouble
  split
  · trivial
  · rfl

/-- So is one that does not read as a reference. -/
theorem operational_asReference (s : Slot) : Operational s.asReference := by
  unfold asReference
  split
  · trivial
  · rfl

end Slot

/-- The check of a kind is one of these readings, so its trap is one of theirs. -/
theorem Kind.operational_check (kind : Kind) (s : Slot) : Operational (kind.check s) := by
  cases kind with
  | int => exact s.operational_asInt.map _
  | long => exact s.operational_asLong.map _
  | float => exact s.operational_asFloat.map _
  | double => exact s.operational_asDouble.map _
  | reference => exact s.operational_asReference.map _

/-- The value that an array keeps of a slot is read off the slot in the same way. -/
theorem ElementType.operational_ofSlot (t : ElementType) (s : Slot) : Operational (t.ofSlot s) := by
  cases t with
  | int => exact s.operational_asInt
  | long => exact s.operational_asLong
  | float => exact s.operational_asFloat
  | double => exact s.operational_asDouble
  | _ => exact s.operational_asInt.map _

namespace PrimitiveArray

variable (a : PrimitiveArray) (op : Opcode) (index : Int32) (s : Slot)

/-- A load from an array can be refused for its opcode or for its index. -/
theorem operational_load : Operational (a.load op index) := by
  unfold load position
  split
  · split
    · trivial
    · rfl
  · rfl

/-- A store into an array can be refused for its opcode, its index or its slot. -/
theorem operational_store : Operational (a.store op index s) := by
  unfold store position
  split
  · split
    · exact (a.element.operational_ofSlot s).map _
    · rfl
  · rfl

end PrimitiveArray

namespace Arithmetic

/-- Division and remainder of ints trap on zero; the other operators always have a value. -/
theorem operational_onInt (operator : Arithmetic) (a b : Int32) :
    Operational (operator.onInt a b) := by
  cases operator with
  | div | rem =>
    rw [onInt]
    split
    · rfl
    · trivial
  | _ => trivial

/-- The same for longs. -/
theorem operational_onLong (operator : Arithmetic) (a b : Int64) :
    Operational (operator.onLong a b) := by
  cases operator with
  | div | rem =>
    rw [onLong]
    split
    · rfl
    · trivial
  | _ => trivial

end Arithmetic

/-- Taking the top slot is taking it as it is. -/
theorem OperandStack.pop_eq_popAs : OperandStack.pop = OperandStack.popAs .ok := by
  funext stack
  cases stack <;> rfl

/-- Taking the top slot succeeds on a stack with a top that reads as asked for, and leaves the rest.
-/
theorem OperandStack.popAs_eq_ok {α : Type} {read : Slot → Except Trap α} {stack rest : OperandStack}
    {a : α} (h : popAs read stack = .ok (a, rest)) : ∃ s, stack = s :: rest ∧ read s = .ok a := by
  cases stack with
  | nil => cases h
  | cons s below =>
    rw [popAs] at h
    cases hread : read s with
    | error t =>
      rw [hread] at h
      cases h
    | ok a' =>
      rw [hread] at h
      cases h
      exact ⟨s, rfl, hread⟩

/-- A shuffle underflows or finds a wide slot in the way; both are traps of operations. -/
theorem OperandStack.operational_shuffle (stack : OperandStack) (s : Shuffle) :
    Operational (stack.shuffle s) := by
  have hrefines := refines_shuffle s stack
  cases hresult : stack.shuffle s with
  | ok result => trivial
  | error t =>
    rw [hresult] at hrefines
    obtain ⟨-, rfl⟩ := hrefines
    split
    · rfl
    · rfl

namespace Locals

/-- Loading a local traps if there is no such local. -/
theorem operational_load (locals : Locals) (index : Nat) : Operational (locals.load index) := by
  unfold load
  split
  · trivial
  · rfl

/-- A local that is loaded is one of the locals. -/
theorem mem_of_load {locals : Locals} {index : Nat} {s : Slot} (h : locals.load index = .ok s) :
    s ∈ locals := by
  unfold load at h
  split at h
  · rename_i hindex
    cases h
    exact Array.mem_of_getElem? hindex
  · cases h

end Locals

namespace Execution

variable {α β : Type} {I : Frame → Prop} {Q : α → Prop} {R : β → Prop}

-- how two effects, one after the other, come to their result
section inversion

variable {e : Execution α} {k : α → Execution β} {f g : Frame} {t : Trap}

/-- After an effect that succeeds comes the next one, on the frame and the value it leaves. -/
theorem bind_of_ok {a : α} (h : e f = .ok a g) : (e >>= k) f = k a g := by
  change EStateM.bind e k f = _
  rw [EStateM.bind, h]

/-- After a trap comes nothing. -/
theorem bind_of_error (h : e f = .error t g) : (e >>= k) f = .error t g := by
  change EStateM.bind e k f = _
  rw [EStateM.bind, h]

/-- Two effects that succeed, one after the other, meet in a frame between them. -/
theorem bind_eq_ok {b : β} (h : (e >>= k) f = .ok b g) :
    ∃ a f', e f = .ok a f' ∧ k a f' = .ok b g := by
  cases hef : e f with
  | ok a f' =>
    rw [bind_of_ok hef] at h
    exact ⟨a, f', rfl, h⟩
  | error t f' =>
    rw [bind_of_error hef] at h
    cases h

/-- If two effects in a row trap, either the first one does, or the second one on what it left. -/
theorem bind_eq_error (h : (e >>= k) f = .error t g) :
    e f = .error t g ∨ ∃ a f', e f = .ok a f' ∧ k a f' = .error t g := by
  cases hef : e f with
  | ok a f' =>
    rw [bind_of_ok hef] at h
    exact .inr ⟨a, f', rfl, h⟩
  | error t' f' =>
    rw [bind_of_error hef] at h
    cases h
    exact .inl rfl

/-- An effect that took the top slot found it there, and changed nothing but the stack. -/
theorem popAs_eq_ok {read : Slot → Except Trap α} {a : α}
    (h : onStack (OperandStack.popAs read) f = .ok a g) :
    ∃ s rest, f.stack = s :: rest ∧ read s = .ok a ∧ g = { f with stack := rest } := by
  unfold onStack at h
  split at h
  · rename_i a' rest hpop
    cases h
    obtain ⟨s, hstack, hread⟩ := OperandStack.popAs_eq_ok hpop
    exact ⟨s, rest, hstack, hread, rfl⟩
  · cases h

/-- On a stack with a top that reads as asked for, the top is taken. -/
theorem popAs_of_cons (read : Slot → Except Trap α) {a : α} {s : Slot} {rest : OperandStack}
    (hstack : f.stack = s :: rest) (hs : read s = .ok a) :
    onStack (OperandStack.popAs read) f = .ok a { f with stack := rest } := by
  simp [onStack, OperandStack.popAs, hstack, hs, Except.map]

end inversion

/-- The frame that an effect leaves, trap or not. -/
def left : EStateM.Result Trap Frame α → Frame
  | .ok _ g => g
  | .error _ g => g

/-- A result with a value that meets a property, or else with a trap of an operation. -/
def Meets (Q : α → Prop) : EStateM.Result Trap Frame α → Prop
  | .ok a _ => Q a
  | .error t _ => t.isOperational = true

/-- An effect keeps a property of frames, and its value meets another. -/
def Keeps (I : Frame → Prop) (e : Execution α) (Q : α → Prop) : Prop :=
  ∀ f, I f → I (left (e f)) ∧ Meets Q (e f)

/-- An effect that only gives a value keeps every property. -/
theorem keeps_pure {a : α} (h : Q a) : Keeps I (pure a) Q := by
  intro f hf
  exact ⟨hf, h⟩

/-- So does one that only traps, if its trap is one of an operation. -/
theorem keeps_throw {t : Trap} (h : t.isOperational = true) :
    Keeps I (throw t : Execution α) Q := by
  intro f hf
  exact ⟨hf, h⟩

/-- **Effects in a row keep what each of them keeps.**  The value of the first is handed on with
what is known of it. -/
theorem Keeps.bind {e : Execution α} {k : α → Execution β} (he : Keeps I e Q)
    (hk : ∀ a, Q a → Keeps I (k a) R) : Keeps I (e >>= k) R := by
  intro f hf
  have hmeets := he f hf
  cases hef : e f with
  | ok a g =>
    rw [hef] at hmeets
    rw [bind_of_ok hef]
    exact hk a hmeets.2 g hmeets.1
  | error t g =>
    rw [hef] at hmeets
    rw [bind_of_error hef]
    exact hmeets

/-- A result that has been computed already is a value or a trap. -/
theorem keeps_ofExcept {x : Except Trap α} (hx : Operational x) (h : ∀ a, x = .ok a → Q a) :
    Keeps I (ofExcept x) Q := by
  cases x with
  | ok a => exact keeps_pure (h a rfl)
  | error t => exact keeps_throw hx

/-- Looking at the frame shows a frame with the property. -/
theorem keeps_get : Keeps I (get : Execution Frame) I := by
  intro f hf
  exact ⟨hf, hf⟩

/-- A change of the frame keeps what holds after it whenever it held before. -/
theorem keeps_modify {change : Frame → Frame} (h : ∀ f, I f → I (change f)) :
    Keeps I (modify change : Execution Unit) fun _ => True := by
  intro f hf
  exact ⟨h f hf, trivial⟩

/-- An action on the stack alone: it has to keep the property where it succeeds, and a trap leaves
the frame as it was. -/
theorem keeps_onStack {action : OperandStack → Except Trap (α × OperandStack)}
    (haction : ∀ stack, Operational (action stack))
    (h : ∀ f, I f → ∀ a stack, action f.stack = .ok (a, stack) →
      I { f with stack := stack } ∧ Q a) :
    Keeps I (onStack action) Q := by
  intro f hf
  have htrap := haction f.stack
  unfold onStack
  cases hresult : action f.stack with
  | ok result =>
    obtain ⟨a, stack⟩ := result
    exact h f hf a stack hresult
  | error t =>
    rw [hresult] at htrap
    exact ⟨hf, htrap⟩

end Execution

namespace Operation

/-- A slot that an operation, started in the frame `f`, can put into a frame. -/
inductive Supplies (operation : Operation) (f : Frame) : Slot → Prop where
  | stack {s : Slot} : s ∈ f.stack → Supplies operation f s
  | locals {s : Slot} : s ∈ f.locals → Supplies operation f s
  | constant {s : Slot} : operation = .push s → Supplies operation f s
  | int (v : Int32) : Supplies operation f (.int v)
  | long (v : Int64) : Supplies operation f (.long v)
  | float (v : Single) : Supplies operation f (.float v)
  | double (v : Double) : Supplies operation f (.double v)
  | object (id : Nat) : Supplies operation f (.ofReference (.object id))
  | returnAddress {target : Int} : operation = .branch .subroutine target →
    Supplies operation f (.ofReference (.returnAddress f.pc))

/-- An address of the code that an operation, started in the frame `f`, can go to. -/
inductive Leads (operation : Operation) (f : Frame) : Nat → Prop where
  | branch {b : Branch} {target : Nat} : operation = .branch b target → target < f.code.size →
    Leads operation f target
  | returnAddress {index pc : Nat} : operation = .returnFromSubroutine index →
    .ofReference (.returnAddress pc) ∈ f.locals → pc < f.code.size → Leads operation f pc

/-- What an operation, started in the frame `f`, can have made of it. -/
structure Change (operation : Operation) (f g : Frame) : Prop where
  code : g.code = f.code
  steps : g.steps = f.steps
  stack : ∀ s ∈ g.stack, Supplies operation f s
  locals : ∀ s ∈ g.locals, Supplies operation f s
  pc : g.pc = f.pc ∨ Leads operation f g.pc

/-- Nothing is changed at first. -/
theorem Change.refl (operation : Operation) (f : Frame) : Change operation f f where
  code := rfl
  steps := rfl
  stack _ h := .stack h
  locals _ h := .locals h
  pc := .inl rfl

end Operation

namespace Execution

variable {α : Type} {operation : Operation} {f : Frame}

open Operation (Change Supplies Leads)

/-- What an operation, started in the frame `f`, comes to: a change of `f`, and no trap but those
of operations. -/
structure Follows (operation : Operation) (f : Frame) (r : EStateM.Result Trap Frame Unit) :
    Prop where
  change : Change operation f (left r)
  meets : Meets (fun _ => True) r

/-- Started in `f`, an effect that keeps a change of `f` makes one. -/
theorem Keeps.follows {e : Execution Unit} (h : Keeps (Change operation f) e fun _ => True) :
    Follows operation f (e f) :=
  ⟨(h f (Change.refl operation f)).1, (h f (Change.refl operation f)).2⟩

/-- A slot may be pushed if the operation supplies it. -/
theorem keeps_push {s : Slot} (h : Supplies operation f s) :
    Keeps (Change operation f) (push s) fun _ => True := by
  refine keeps_modify fun g hg => { hg with stack := ?_ }
  intro s' hs'
  rcases List.mem_cons.1 hs' with rfl | hs'
  · exact h
  · exact hg.stack s' hs'

/-- Taking the top slot off the stack; what is made of the slot is up to `read`. -/
theorem keeps_popAs {read : Slot → Except Trap α} {Q : α → Prop}
    (hread : ∀ s, Operational (read s)) (h : ∀ s a, Supplies operation f s → read s = .ok a → Q a) :
    Keeps (Change operation f) (onStack (OperandStack.popAs read)) Q := by
  refine keeps_onStack (fun stack => ?_) fun g hg a stack hpop => ?_
  · cases stack with
    | nil => rfl
    | cons s rest => exact (hread s).map _
  · obtain ⟨s, hstack, hvalue⟩ := OperandStack.popAs_eq_ok hpop
    have hmem : ∀ s' ∈ s :: stack, Supplies operation f s' := hstack ▸ hg.stack
    exact ⟨{ hg with stack := fun s' hs' => hmem s' (List.mem_cons_of_mem _ hs') },
      h s a (hmem s (List.mem_cons_self ..)) hvalue⟩

/-- An int may be taken off the stack. -/
theorem keeps_popInt : Keeps (Change operation f) popInt fun _ => True :=
  keeps_popAs Slot.operational_asInt fun _ _ _ _ => trivial

/-- A long may be taken off the stack. -/
theorem keeps_popLong : Keeps (Change operation f) popLong fun _ => True :=
  keeps_popAs Slot.operational_asLong fun _ _ _ _ => trivial

/-- A float may be taken off the stack. -/
theorem keeps_popFloat : Keeps (Change operation f) popFloat fun _ => True :=
  keeps_popAs Slot.operational_asFloat fun _ _ _ _ => trivial

/-- A double may be taken off the stack. -/
theorem keeps_popDouble : Keeps (Change operation f) popDouble fun _ => True :=
  keeps_popAs Slot.operational_asDouble fun _ _ _ _ => trivial

/-- A reference may be taken off the stack. -/
theorem keeps_popReference : Keeps (Change operation f) popReference fun _ => True :=
  keeps_popAs Slot.operational_asReference fun _ _ _ _ => trivial

/-- A slot that is taken as it is comes from the frame, so the operation supplies it. -/
theorem keeps_popOfKind (kind : Kind) :
    Keeps (Change operation f) (popOfKind kind) (Supplies operation f) := by
  refine keeps_popAs (fun s => (kind.operational_check s).map _) fun s a hs hread => ?_
  cases hcheck : kind.check s with
  | error t =>
    rw [hcheck] at hread
    cases hread
  | ok u =>
    rw [hcheck] at hread
    cases hread
    exact hs

/-- The same for a slot of any kind. -/
theorem keeps_pop : Keeps (Change operation f) pop (Supplies operation f) := by
  rw [pop, OperandStack.pop_eq_popAs]
  exact keeps_popAs (fun _ => trivial) fun s a hs hread => Except.ok.inj hread ▸ hs

/-- A reference to an array may be taken.  The array is only looked up. -/
theorem keeps_popArray (op : Opcode) :
    Keeps (Change operation f) (popArray op) fun _ => True := by
  refine keeps_popReference.bind fun r _ => ?_
  cases r with
  | none => exact keeps_throw rfl
  | some r =>
    refine keeps_get.bind fun g _ => ?_
    split
    · exact keeps_pure trivial
    · exact keeps_throw rfl

/-- A local that is loaded comes from the frame, so the operation supplies it. -/
theorem keeps_loadLocal (index : Nat) :
    Keeps (Change operation f) (loadLocal index) (Supplies operation f) := by
  refine keeps_get.bind fun g hg => ?_
  exact keeps_ofExcept (g.locals.operational_load index) fun s hs =>
    hg.locals s (Locals.mem_of_load hs)

/-- A slot may be put into a local if the operation supplies it. -/
theorem keeps_storeLocal {index : Nat} {s : Slot} (h : Supplies operation f s) :
    Keeps (Change operation f) (storeLocal index s) fun _ => True := by
  intro g hg
  unfold storeLocal
  split
  · refine ⟨{ hg with locals := fun s' hs' => ?_ }, trivial⟩
    rcases Array.mem_or_eq_of_mem_setIfInBounds hs' with hold | rfl
    · exact hg.locals s' hold
    · exact h
  · exact ⟨hg, rfl⟩

/-- A new object changes the heap alone, and the reference to it denotes an object. -/
theorem keeps_allocate (o : HeapObject) :
    Keeps (Change operation f) (allocate o) fun r => ∃ id, r = .object id := by
  intro g hg
  exact ⟨{ hg with }, _, rfl⟩

/-- A jump is allowed to every address of the code that the operation leads to. -/
theorem keeps_jump {origin : Nat} {target : Int}
    (h : ∀ pc : Nat, target = pc → pc < f.code.size → Leads operation f pc) :
    Keeps (Change operation f) (jump origin target) fun _ => True := by
  refine keeps_get.bind fun g hg => ?_
  split
  · rename_i hbounds
    rw [hg.code] at hbounds
    have hpc : Leads operation f target.toNat :=
      h target.toNat (Int.toNat_of_nonneg hbounds.1).symm (by omega)
    exact keeps_modify fun g' hg' => { hg' with pc := .inr hpc }
  · exact keeps_throw rfl

/-- A jump under a condition may also stay. -/
theorem keeps_jumpIf {condition : Bool} {origin : Nat} {target : Int}
    (h : ∀ pc : Nat, target = pc → pc < f.code.size → Leads operation f pc) :
    Keeps (Change operation f) (jumpIf condition origin target) fun _ => True := by
  unfold jumpIf
  split
  · exact keeps_jump h
  · exact keeps_pure trivial

/-- Binary arithmetic takes two numbers and pushes one. -/
theorem keeps_arithmetic (operator : Arithmetic) (kind : NumericKind) :
    Keeps (Change operation f) (arithmetic operator kind) fun _ => True := by
  cases kind with
  | int =>
    refine keeps_popInt.bind fun left _ => keeps_popInt.bind fun right _ => ?_
    exact (keeps_ofExcept (operator.operational_onInt left right) fun _ _ => trivial).bind
      fun v (_ : True) => keeps_push (.int v)
  | long =>
    refine keeps_popLong.bind fun left _ => keeps_popLong.bind fun right _ => ?_
    exact (keeps_ofExcept (operator.operational_onLong left right) fun _ _ => trivial).bind
      fun v (_ : True) => keeps_push (.long v)
  | float =>
    exact keeps_popFloat.bind fun left _ => keeps_popFloat.bind fun right _ =>
      keeps_push (.float _)
  | double =>
    exact keeps_popDouble.bind fun left _ => keeps_popDouble.bind fun right _ =>
      keeps_push (.double _)

/-- Change of sign takes a number and pushes one. -/
theorem keeps_negate (kind : NumericKind) :
    Keeps (Change operation f) (negate kind) fun _ => True := by
  cases kind with
  | int => exact keeps_popInt.bind fun v _ => keeps_push (.int _)
  | long => exact keeps_popLong.bind fun v _ => keeps_push (.long _)
  | float => exact keeps_popFloat.bind fun v _ => keeps_push (.float _)
  | double => exact keeps_popDouble.bind fun v _ => keeps_push (.double _)

/-- A shift takes an int and a number and pushes a number. -/
theorem keeps_shift (s : Shift) (kind : WordKind) :
    Keeps (Change operation f) (shift s kind) fun _ => True := by
  cases kind with
  | int =>
    exact keeps_popInt.bind fun amount _ => keeps_popInt.bind fun value _ => keeps_push (.int _)
  | long =>
    exact keeps_popInt.bind fun amount _ => keeps_popLong.bind fun value _ => keeps_push (.long _)

/-- A bitwise combination takes two numbers and pushes one. -/
theorem keeps_bitwise (operator : Bitwise) (kind : WordKind) :
    Keeps (Change operation f) (bitwise operator kind) fun _ => True := by
  cases kind with
  | int =>
    exact keeps_popInt.bind fun left _ => keeps_popInt.bind fun right _ => keeps_push (.int _)
  | long =>
    exact keeps_popLong.bind fun left _ => keeps_popLong.bind fun right _ => keeps_push (.long _)

/-- A comparison takes two numbers and pushes an int. -/
theorem keeps_compare (comparison : Comparison) :
    Keeps (Change operation f) (compare comparison) fun _ => True := by
  cases comparison with
  | long =>
    exact keeps_popLong.bind fun left _ => keeps_popLong.bind fun right _ => keeps_push (.int _)
  | float unordered =>
    exact keeps_popFloat.bind fun left _ => keeps_popFloat.bind fun right _ => keeps_push (.int _)
  | double unordered =>
    exact keeps_popDouble.bind fun left _ => keeps_popDouble.bind fun right _ =>
      keeps_push (.int _)

/-- A number of any kind may be taken, for a conversion. -/
theorem keeps_popNumber (kind : NumericKind) :
    Keeps (Change operation f) (popNumber kind) fun _ => True := by
  cases kind with
  | int => exact keeps_popInt.bind fun v _ => keeps_pure trivial
  | long => exact keeps_popLong.bind fun v _ => keeps_pure trivial
  | float => exact keeps_popFloat.bind fun v _ => keeps_pure trivial
  | double => exact keeps_popDouble.bind fun v _ => keeps_pure trivial

/-- A converted number is a number, whatever its kind. -/
theorem supplies_toSlot (n : Number) (kind : NumericKind) :
    Supplies operation f (n.toSlot kind) := by
  cases kind with
  | int => exact .int _
  | long => exact .long _
  | float => exact .float _
  | double => exact .double _

/-- An element of an array is a number, whatever its type. -/
theorem supplies_element (t : ElementType) (v : t.Value) : Supplies operation f (t.toSlot v) := by
  cases t with
  | long => exact .long v
  | float => exact .float v
  | double => exact .double v
  | _ => exact .int _

/-- A loaded element is a number. -/
theorem supplies_load {a : PrimitiveArray} {op : Opcode} {index : Int32} {s : Slot}
    (h : a.load op index = .ok s) : Supplies operation f s := by
  unfold PrimitiveArray.load at h
  split at h
  · cases hposition : a.position index with
    | error t =>
      rw [hposition] at h
      cases h
    | ok i =>
      rw [hposition] at h
      cases h
      exact supplies_element _ _
  · cases h

/-- A load from an array takes an index and a reference and pushes a number. -/
theorem keeps_arrayLoad (op : Opcode) :
    Keeps (Change operation f) (arrayLoad op) fun _ => True := by
  refine keeps_popInt.bind fun index _ => (keeps_popArray op).bind fun found _ => ?_
  exact (keeps_ofExcept (found.2.operational_load op index) fun s hs => supplies_load hs).bind
    fun s hs => keeps_push hs

/-- A store into an array takes a slot, an index and a reference.  What it changes is in the heap,
of which `Change` does not speak. -/
theorem keeps_arrayStore (op : Opcode) :
    Keeps (Change operation f) (arrayStore op) fun _ => True := by
  refine keeps_pop.bind fun value _ => keeps_popInt.bind fun index _ => ?_
  refine (keeps_popArray op).bind fun found _ => ?_
  refine (keeps_ofExcept (found.2.operational_store op index value) fun _ _ => trivial).bind
    fun stored (_ : True) => ?_
  exact keeps_modify fun g hg => { hg with }

/-- A new array takes a length and pushes a reference to an object. -/
theorem keeps_newArray (element : ElementType) :
    Keeps (Change operation f) (newArray element) fun _ => True := by
  refine keeps_popInt.bind fun length _ => ?_
  split
  · exact keeps_throw rfl
  · refine (keeps_allocate _).bind fun r hr => ?_
    obtain ⟨id, rfl⟩ := hr
    exact keeps_push (.object id)

/-- Completing a frame takes its value off the stack; the status is not spoken of. -/
theorem keeps_complete (kind : Option Kind) :
    Keeps (Change operation f) (complete kind) fun _ => True := by
  cases kind with
  | none => exact keeps_modify fun g hg => { hg with }
  | some kind =>
    exact (keeps_popOfKind kind).bind fun value _ => keeps_modify fun g hg => { hg with }

/-- A shuffle brings in nothing: the slots it leaves were on the stack before. -/
theorem keeps_shuffle (s : Shuffle) :
    Keeps (Change operation f)
      (onStack fun stack => (stack.shuffle s).map fun stack => ((), stack)) fun _ => True := by
  refine keeps_onStack (fun stack => (stack.operational_shuffle s).map _)
    fun g hg _ stack hstack => ⟨{ hg with stack := fun s' hs' => ?_ }, trivial⟩
  cases hshuffle : g.stack.shuffle s with
  | error t =>
    rw [hshuffle] at hstack
    cases hstack
  | ok result =>
    rw [hshuffle] at hstack
    cases hstack
    exact hg.stack s' (OperandStack.mem_of_mem_shuffle hshuffle hs')

/-- A branch goes to its target or stays, and only one to a subroutine pushes something. -/
theorem follows_branch (origin : Nat) (target : Int) (b : Branch) :
    Follows (.branch b target) f (branch origin target b f) := by
  have hleads : ∀ pc : Nat, target = pc → pc < f.code.size → Leads (.branch b target) f pc := by
    rintro pc rfl hlt
    exact .branch rfl hlt
  cases b with
  | always => exact (keeps_jump hleads).follows
  | subroutine =>
    -- the address that is pushed is read off the frame before anything has changed it
    show Follows _ f ((push (.ofReference (.returnAddress f.pc)) >>= fun _ =>
      jump origin target) f)
    exact ((keeps_push (.returnAddress rfl)).bind fun _ _ => keeps_jump hleads).follows
  | onInt condition => exact (keeps_popInt.bind fun value _ => keeps_jumpIf hleads).follows
  | onIntPair condition =>
    exact (keeps_popInt.bind fun left _ => keeps_popInt.bind fun right _ =>
      keeps_jumpIf hleads).follows
  | onReferencePair same =>
    exact (keeps_popReference.bind fun left _ => keeps_popReference.bind fun right _ =>
      keeps_jumpIf hleads).follows
  | onNull null => exact (keeps_popReference.bind fun r _ => keeps_jumpIf hleads).follows

/-- A return from a subroutine goes to an address that a local holds. -/
theorem follows_returnFromSubroutine (origin index : Nat) :
    Follows (.returnFromSubroutine index) f (returnFromSubroutine origin index f) := by
  -- here too the local is read off the frame before anything has changed it
  have hlocal : Keeps (Change (.returnFromSubroutine index) f) (ofExcept (f.locals.load index))
      (· ∈ f.locals) := keeps_ofExcept (f.locals.operational_load index) fun s hs =>
    Locals.mem_of_load hs
  refine (hlocal.bind fun s hs => ?_).follows
  split
  · refine keeps_jump fun pc hpc hlt => ?_
    cases hpc
    exact .returnAddress rfl hs hlt
  · exact keeps_throw rfl

/-- **What an operation can change.**  Trap or not, it leaves the code and the step count alone,
brings in only the slots it supplies, and goes only where it leads. -/
theorem follows_execute (origin : Nat) (operation : Operation) (f : Frame) :
    Follows operation f (execute origin operation f) := by
  cases operation with
  | nop => exact (keeps_pure trivial).follows
  | push s => exact (keeps_push (.constant rfl)).follows
  | load kind index =>
    refine ((keeps_loadLocal index).bind fun s hs => ?_).follows
    exact (keeps_ofExcept (kind.operational_check s) fun _ _ => trivial).bind
      fun _ (_ : True) => keeps_push hs
  | store kind index =>
    exact ((keeps_popOfKind kind).bind fun s hs => keeps_storeLocal hs).follows
  | increment index delta =>
    refine ((keeps_loadLocal index).bind fun s _ => ?_).follows
    exact (keeps_ofExcept s.operational_asInt fun _ _ => trivial).bind
      fun value (_ : True) => keeps_storeLocal (.int _)
  | arrayLoad op => exact (keeps_arrayLoad op).follows
  | arrayStore op => exact (keeps_arrayStore op).follows
  | newArray element => exact (keeps_newArray element).follows
  | arrayLength =>
    exact ((keeps_popArray arrayLengthOpcode).bind fun _ _ => keeps_push (.int _)).follows
  | shuffle s => exact (keeps_shuffle s).follows
  | arithmetic kind operator => exact (keeps_arithmetic operator kind).follows
  | negate kind => exact (keeps_negate kind).follows
  | shift kind s => exact (keeps_shift s kind).follows
  | bitwise kind operator => exact (keeps_bitwise operator kind).follows
  | convert source target =>
    exact ((keeps_popNumber source).bind fun n _ => keeps_push (supplies_toSlot n target)).follows
  | narrow target => exact (keeps_popInt.bind fun v _ => keeps_push (.int _)).follows
  | compare comparison => exact (keeps_compare comparison).follows
  | branch b target => exact follows_branch origin target b
  | returnFromSubroutine index => exact follows_returnFromSubroutine origin index
  | complete kind => exact (keeps_complete kind).follows

end Execution

end MethodMachine
