/-
# What an operation makes of a frame

An operation that is not quiet does one of a few things, and does nothing else:

| operation | pushes | writes |
| --- | --- | --- |
| `push` | its constant | |
| `load` | the slot in its local, which passes for its kind | |
| branch to a subroutine | the address after it | |
| `store` | | the slot it takes, into its local |
| `increment` | | an int, into its local |
| `arrayStore` | | an array, in the place of the one that it takes |
| `newArray` | a reference to the new array | an array after all objects |
| `complete` | | the slot it takes, if any, into the status |

`Operation.Makes f g` says this of the frame `g` that an operation makes of `f`.  It holds trap or
not (`makes_execute`), since a trap has changed only the stack.  What a step keeps is then read off
the cases.  Above all, every slot that a frame holds after a step was there before, or the operation
has pushed it (`Frame.holds_next`).
-/

import MethodMachine.Proofs.QuietEffects
import MethodMachine.Proofs.Residue

namespace MethodMachine

namespace Operation

/-- A slot that an operation pushes when it is carried out in the frame `f` and leaves `heap`.  A
reference to a new object is pushed only if the heap has grown. -/
inductive Yields (operation : Operation) (f : Frame) (heap : Heap) : Slot → Prop where
  | number {s : Slot} : s.isNumber = true → Yields operation f heap s
  | constant {s : Slot} : operation = .push s → Yields operation f heap s
  | loaded {kind : Kind} {index : Nat} {s : Slot} : operation = .load kind index →
    f.locals[index]? = some s → kind.check s = .ok () → Yields operation f heap s
  | object : f.heap.size < heap.size →
    Yields operation f heap (.ofReference (.object f.heap.size))
  | returnAddress {target : Int} : operation = .branch .subroutine target →
    Yields operation f heap (.ofReference (.returnAddress f.pc))

/-- What an operation makes of the frame `f`, trap or not. -/
inductive Makes (operation : Operation) (f : Frame) : Frame → Prop where
  /-- the stack may change, and control may go to where the operation leads -/
  | goes {stack : OperandStack} {pc : Nat} :
    (∀ s ∈ stack, s ∈ f.stack ∨ Yields operation f f.heap s) → (pc = f.pc ∨ Leads operation f pc) →
    Makes operation f { f with stack := stack, pc := pc }
  /-- the top of the stack goes into a local -/
  | stores {kind : Kind} {index : Nat} {s : Slot} {rest : OperandStack} :
    operation = .store kind index → f.stack = s :: rest → kind.check s = .ok () →
    index < f.locals.size →
    Makes operation f { f with stack := rest, locals := f.locals.setIfInBounds index s }
  /-- an int in a local is replaced by another -/
  | increments {index : Nat} {delta v : Int32} {s : Slot} : operation = .increment index delta →
    f.locals[index]? = some s → s.asInt = .ok v →
    Makes operation f { f with locals := f.locals.setIfInBounds index (.int (v + delta)) }
  /-- an array that was on the stack is replaced by what a store makes of it -/
  | storesElement {op : Opcode} {value index : Slot} {i : Int32} {id : Nat}
    {a stored : PrimitiveArray} {rest : OperandStack} : operation = .arrayStore op →
    f.stack = value :: index :: .ofReference (.object id) :: rest → index.asInt = .ok i →
    f.heap[id]? = some (.array a) → a.store op i value = .ok stored →
    Makes operation f { f with stack := rest, heap := f.heap.replace id stored }
  /-- a new array comes after all objects -/
  | allocates {element : ElementType} {length : Slot} {n : Int32} {rest : OperandStack} :
    operation = .newArray element → f.stack = length :: rest → length.asInt = .ok n → ¬n < 0 →
    Makes operation f { f with
      stack := .ofReference (.object f.heap.size) :: rest
      heap := f.heap.push (.array (.new element n.toInt.toNat)) }
  /-- the frame completes without a value -/
  | completes : operation = .complete none → Makes operation f { f with status := .returned none }
  /-- the frame completes with the top of the stack -/
  | completesWith {kind : Kind} {s : Slot} {rest : OperandStack} :
    operation = .complete (some kind) → f.stack = s :: rest → kind.check s = .ok () →
    Makes operation f { f with stack := rest, status := .returned (some s) }

end Operation

namespace Execution

variable {origin : Nat} {operation : Operation} {f g : Frame} {t : Trap} {u : Unit}

open Operation (Makes)

/-- A slot that is taken for a kind was on top and passes for it. -/
theorem popOfKind_eq_ok {kind : Kind} {s : Slot} (h : popOfKind kind f = .ok s g) :
    ∃ rest, f.stack = s :: rest ∧ kind.check s = .ok () ∧ g = { f with stack := rest } := by
  obtain ⟨s', rest, hstack, hread, rfl⟩ := popAs_eq_ok h
  cases hcheck : kind.check s' with
  | ok =>
    rw [hcheck] at hread
    cases hread
    exact ⟨rest, hstack, hcheck, rfl⟩
  | error t =>
    rw [hcheck] at hread
    cases hread

/-- A result that has been computed already leaves the frame as it is. -/
theorem ofExcept_eq_ok {α : Type} {x : Except Trap α} {a : α} (h : ofExcept x f = .ok a g) :
    x = .ok a ∧ g = f := by
  cases x with
  | ok a' =>
    cases h
    exact ⟨rfl, rfl⟩
  | error t => cases h

/-- A slot goes only into a local that there is. -/
theorem storeLocal_eq_ok {index : Nat} {s : Slot} (h : storeLocal index s f = .ok u g) :
    index < f.locals.size ∧ g = { f with locals := f.locals.setIfInBounds index s } := by
  unfold storeLocal at h
  split at h
  · rename_i hlt
    cases h
    exact ⟨hlt, rfl⟩
  · cases h

/-- A trap makes of a frame what its operation can make of it. -/
theorem makes_of_error (h : execute origin operation f = .error t g) : operation.Makes f g := by
  by_cases hcall : ∃ target, operation = .branch .subroutine target
  · obtain ⟨target, rfl⟩ := hcall
    obtain ⟨-, rfl⟩ := execute_subroutine_eq_error h
    refine Makes.goes (fun s hs => ?_) (.inl rfl)
    rcases List.mem_cons.1 hs with rfl | hmem
    · exact .inr (.returnAddress rfl)
    · exact .inl hmem
  · obtain ⟨count, -, rfl⟩ := trapsAfter_execute origin (not_exists.mp hcall) f t g h
    exact Makes.goes (fun s hs => .inl (List.mem_of_mem_drop hs)) (.inl rfl)

/-- Where control is after an operation that succeeds. -/
theorem pc_of_execute (h : execute origin operation f = .ok u g) :
    g.pc = f.pc ∨ operation.Leads f g.pc := by
  have hchange := (follows_execute origin operation f).change
  rw [h] at hchange
  exact hchange.pc

/-- A quiet operation changes the stack and the program counter. -/
theorem makes_of_isQuiet (hquiet : operation.isQuiet = true)
    (h : execute origin operation f = .ok u g) : operation.Makes f g := by
  have hexecute := quiet_execute origin hquiet
  have hpc := pc_of_execute h
  rw [hexecute.change f u g h] at hpc ⊢
  refine Makes.goes (fun s hs => ?_) hpc
  rcases hexecute.stack f u g h s hs with hmem | hnumber
  · exact .inl hmem
  · exact .inr (.number hnumber)

/-- A push yields its constant. -/
theorem makes_of_push {s : Slot} (h : execute origin (.push s) f = .ok u g) :
    (Operation.push s).Makes f g := by
  cases h
  refine Makes.goes (fun s' hs' => ?_) (.inl rfl)
  rcases List.mem_cons.1 hs' with rfl | hmem
  · exact .inr (.constant rfl)
  · exact .inl hmem

/-- A load yields a local that passes for its kind. -/
theorem makes_of_load {kind : Kind} {index : Nat}
    (h : execute origin (.load kind index) f = .ok u g) : (Operation.load kind index).Makes f g := by
  obtain ⟨s, f', hload, hrest⟩ := bind_eq_ok h
  obtain ⟨hlocal, rfl⟩ := loadLocal_eq_ok hload
  obtain ⟨_, f'', hcheck, hpush⟩ := bind_eq_ok hrest
  obtain ⟨hkind, rfl⟩ := ofExcept_eq_ok hcheck
  cases hpush
  refine Makes.goes (fun s' hs' => ?_) (.inl rfl)
  rcases List.mem_cons.1 hs' with rfl | hmem
  · exact .inr (.loaded rfl hlocal hkind)
  · exact .inl hmem

/-- A store moves the top of the stack into a local. -/
theorem makes_of_store {kind : Kind} {index : Nat}
    (h : execute origin (.store kind index) f = .ok u g) :
    (Operation.store kind index).Makes f g := by
  obtain ⟨s, f', hpop, h⟩ := bind_eq_ok h
  obtain ⟨rest, hstack, hkind, rfl⟩ := popOfKind_eq_ok hpop
  obtain ⟨hlt, rfl⟩ := storeLocal_eq_ok h
  exact .stores rfl hstack hkind hlt

/-- An increment replaces the int in a local. -/
theorem makes_of_increment {index : Nat} {delta : Int32}
    (h : execute origin (.increment index delta) f = .ok u g) :
    (Operation.increment index delta).Makes f g := by
  obtain ⟨s, f', hload, hrest⟩ := bind_eq_ok h
  obtain ⟨hlocal, rfl⟩ := loadLocal_eq_ok hload
  obtain ⟨v, f'', hread, hstore⟩ := bind_eq_ok hrest
  obtain ⟨hint, rfl⟩ := ofExcept_eq_ok hread
  obtain ⟨-, rfl⟩ := storeLocal_eq_ok hstore
  exact .increments rfl hlocal hint

/-- A store into an array replaces the array that the stack points to. -/
theorem makes_of_arrayStore {op : Opcode} (h : execute origin (.arrayStore op) f = .ok u g) :
    (Operation.arrayStore op).Makes f g := by
  obtain ⟨value, f₁, hpop, h⟩ := bind_eq_ok h
  rw [pop, OperandStack.pop_eq_popAs] at hpop
  obtain ⟨value', rest, hstack, hvalue, rfl⟩ := popAs_eq_ok hpop
  cases hvalue
  obtain ⟨i, f₂, hpopInt, h⟩ := bind_eq_ok h
  obtain ⟨index, rest₂, hstack₂, hindex, rfl⟩ := popAs_eq_ok hpopInt
  obtain ⟨⟨id, a⟩, f₃, hpopArray, h⟩ := bind_eq_ok h
  obtain ⟨rest₃, hstack₃, hobject, rfl⟩ := popArray_eq_ok hpopArray
  obtain ⟨stored, f₄, hstore, h⟩ := bind_eq_ok h
  obtain ⟨hstored, rfl⟩ := ofExcept_eq_ok hstore
  cases h
  change rest = _ at hstack₂
  change rest₂ = _ at hstack₃
  rw [hstack₂, hstack₃] at hstack
  exact .storesElement rfl hstack hindex hobject hstored

/-- A new array is the last object of the heap, and its reference the top of the stack. -/
theorem newArray_eq_ok {element : ElementType} (h : newArray element f = .ok u g) :
    ∃ length n rest, f.stack = length :: rest ∧ length.asInt = .ok n ∧ ¬n < 0 ∧
      g = { f with
        stack := .ofReference (.object f.heap.size) :: rest
        heap := f.heap.push (.array (.new element n.toInt.toNat)) } := by
  obtain ⟨n, f', hpop, h⟩ := bind_eq_ok h
  obtain ⟨length, rest, hstack, hlength, rfl⟩ := popAs_eq_ok hpop
  split at h
  · cases h
  · rename_i hn
    cases h
    exact ⟨length, n, rest, hstack, hlength, hn, rfl⟩

/-- A new array grows the heap and yields a reference to its new object. -/
theorem makes_of_newArray {element : ElementType}
    (h : execute origin (.newArray element) f = .ok u g) :
    (Operation.newArray element).Makes f g := by
  obtain ⟨length, n, rest, hstack, hlength, hn, rfl⟩ := newArray_eq_ok h
  exact .allocates rfl hstack hlength hn

/-- A branch to a subroutine yields the address after it. -/
theorem makes_of_subroutine {target : Int}
    (h : execute origin (.branch .subroutine target) f = .ok u g) :
    (Operation.branch .subroutine target).Makes f g := by
  have hpc := pc_of_execute h
  change jump origin target
    { f with stack := .ofReference (.returnAddress f.pc) :: f.stack } = _ at h
  rw [jump_eq_ok h] at hpc ⊢
  refine Makes.goes (fun s hs => ?_) hpc
  rcases List.mem_cons.1 hs with rfl | hmem
  · exact .inr (.returnAddress rfl)
  · exact .inl hmem

/-- Completing a frame moves its value from the stack to the status. -/
theorem makes_of_complete {kind : Option Kind}
    (h : execute origin (.complete kind) f = .ok u g) : (Operation.complete kind).Makes f g := by
  cases kind with
  | none =>
    cases h
    exact .completes rfl
  | some kind =>
    obtain ⟨s, f', hpop, h⟩ := bind_eq_ok h
    obtain ⟨rest, hstack, hkind, rfl⟩ := popOfKind_eq_ok hpop
    cases h
    exact .completesWith rfl hstack hkind

/-- An operation that succeeds makes one of these changes. -/
theorem makes_of_ok (h : execute origin operation f = .ok u g) : operation.Makes f g := by
  cases hquiet : operation.isQuiet with
  | true => exact makes_of_isQuiet hquiet h
  | false =>
    cases operation with
    | push s => exact makes_of_push h
    | load kind index => exact makes_of_load h
    | store kind index => exact makes_of_store h
    | increment index delta => exact makes_of_increment h
    | arrayStore op => exact makes_of_arrayStore h
    | newArray element => exact makes_of_newArray h
    | branch b target =>
      cases b with
      | subroutine => exact makes_of_subroutine h
      | _ => cases hquiet
    | complete kind => exact makes_of_complete h
    | _ => cases hquiet

/-- **What an operation makes of a frame**, trap or not. -/
theorem makes_execute (origin : Nat) (operation : Operation) (f : Frame) :
    operation.Makes f (left (execute origin operation f)) := by
  cases h : execute origin operation f with
  | ok u g => exact makes_of_ok h
  | error t g => exact makes_of_error h

end Execution

namespace Frame

/-- A frame holds a slot: on its stack, in a local, or as its value. -/
inductive Holds (f : Frame) (s : Slot) : Prop where
  | stack : s ∈ f.stack → Holds f s
  | locals : s ∈ f.locals → Holds f s
  | value : f.value? = some s → Holds f s

end Frame

namespace Operation

variable {operation : Operation} {f g : Frame} {s : Slot}

namespace Makes

/-- The code stays. -/
theorem code (h : operation.Makes f g) : g.code = f.code := by
  cases h <;> rfl

/-- The step count is left to the step. -/
theorem steps (h : operation.Makes f g) : g.steps = f.steps := by
  cases h <;> rfl

/-- Control goes on or to where the operation leads. -/
theorem pc (h : operation.Makes f g) : g.pc = f.pc ∨ operation.Leads f g.pc := by
  cases h with
  | goes hstack hpc => exact hpc
  | _ => exact .inl rfl

/-- No local comes or goes. -/
theorem size_locals (h : operation.Makes f g) : g.locals.size = f.locals.size := by
  cases h with
  | stores | increments => exact Array.size_setIfInBounds
  | _ => rfl

/-- A slot on the stack was there before or has been yielded. -/
theorem stack (h : operation.Makes f g) (hs : s ∈ g.stack) :
    s ∈ f.stack ∨ operation.Yields f g.heap s := by
  cases h with
  | goes hstack hpc => exact hstack s hs
  | stores _ hstack _ _ | completesWith _ hstack _ =>
    rw [hstack]
    exact .inl (List.mem_cons_of_mem _ hs)
  | storesElement _ hstack _ _ _ =>
    rw [hstack]
    exact .inl (List.mem_cons_of_mem _ (List.mem_cons_of_mem _ (List.mem_cons_of_mem _ hs)))
  | allocates _ hstack _ _ =>
    rcases List.mem_cons.1 hs with rfl | hmem
    · refine .inr (.object ?_)
      rw [Array.size_push]
      exact Nat.lt_succ_self _
    · rw [hstack]
      exact .inl (List.mem_cons_of_mem _ hmem)
  | increments | completes => exact .inl hs

/-- A slot in a local comes from the frame or is a number. -/
theorem locals (h : operation.Makes f g) (hs : s ∈ g.locals) :
    s ∈ f.stack ∨ s ∈ f.locals ∨ s.isNumber = true := by
  cases h with
  | stores _ hstack _ _ =>
    rcases Array.mem_or_eq_of_mem_setIfInBounds hs with hold | rfl
    · exact .inr (.inl hold)
    · rw [hstack]
      exact .inl (List.mem_cons_self ..)
  | increments _ _ _ =>
    rcases Array.mem_or_eq_of_mem_setIfInBounds hs with hold | rfl
    · exact .inr (.inl hold)
    · exact .inr (.inr rfl)
  | _ => exact .inr (.inl hs)

/-- A value comes from the stack or was there before. -/
theorem value? (h : operation.Makes f g) (hs : g.value? = some s) :
    s ∈ f.stack ∨ f.value? = some s := by
  cases h with
  | completes => cases hs
  | completesWith _ hstack _ =>
    cases hs
    rw [hstack]
    exact .inl (List.mem_cons_self ..)
  | _ => exact .inr hs

/-- A slot that a frame holds after an operation was there before, or the operation pushes it. -/
theorem holds (h : operation.Makes f g) (hs : g.Holds s) :
    f.Holds s ∨ operation.Yields f g.heap s := by
  cases hs with
  | stack hmem =>
    rcases h.stack hmem with hold | hyields
    · exact .inl (.stack hold)
    · exact .inr hyields
  | locals hmem =>
    rcases h.locals hmem with hstack | hlocals | hnumber
    · exact .inl (.stack hstack)
    · exact .inl (.locals hlocals)
    · exact .inr (.number hnumber)
  | value hvalue =>
    rcases h.value? hvalue with hstack | hold
    · exact .inl (.stack hstack)
    · exact .inl (.value hold)

end Makes

/-- Whether the constant of the operation, if it has one, is a number or null. -/
def hasPlainConstant : Operation → Bool
  | push s => s.isNumber || s = .null
  | _ => true

/-- The constants that opcodes announce are numbers and null. -/
theorem hasPlainConstant_of_shape? (op : Opcode) :
    ∀ shape ∈ (Encoding.ofOpcode op).shape?, shape.hasPlainConstant = true := by
  revert op
  refine Opcode.forall_of_fin ?_
  decide +kernel

/-- The constant of an instruction is a number or null. -/
theorem constant_of_decode {code : Code} {address next : Nat}
    (h : decode code address = .ok (.push s, next)) : s.isNumber = true ∨ s = .null := by
  obtain ⟨op, -, hshape⟩ := shape?_of_decode h
  have hplain := hasPlainConstant_of_shape? op _ hshape
  cases s with
  | int v => exact .inl rfl
  | _ => simpa [shape, hasPlainConstant] using hplain

end Operation

namespace Frame

/-- A frame runs or has returned. -/
theorem running_or_returned (f : Frame) :
    f.status = .running ∨ ∃ value, f.status = .returned value := by
  cases f.status with
  | running => exact .inl rfl
  | returned value => exact .inr ⟨value, rfl⟩

/-- A frame that has returned makes no step. -/
theorem step_of_returned {f : Frame} {value : Option Slot} (h : f.status = .returned value) :
    step f = .error .alreadyReturned f := by
  simp only [step, h]

/-- A step changes nothing, or it makes of the frame what its operation makes of it. -/
theorem next_cases (f : Frame) :
    f.next = f ∨
    ∃ operation pc, f.status = .running ∧ Operation.decode f.code f.pc = .ok (operation, pc) ∧
      operation.Makes { f with pc := pc, steps := f.steps + 1 } f.next := by
  rcases running_or_returned f with hrunning | ⟨value, hreturned⟩
  · rcases step_cases f with ⟨t, hstep, -⟩ | ⟨operation, pc, hdecode, hstep⟩
    · refine .inl ?_
      rw [next, hstep]
      rfl
    · refine .inr ⟨operation, pc, hrunning, hdecode, ?_⟩
      rw [next, hstep]
      exact Execution.makes_execute ..
  · refine .inl ?_
    rw [next, step_of_returned hreturned]
    rfl

/-- **A slot that a frame holds after a step was there before**, unless it is a number or null, a
reference to an object that the step has made, or the address after the call that the step is. -/
theorem holds_next {f : Frame} {s : Slot} (h : f.next.Holds s) :
    f.Holds s ∨ (s.isNumber = true ∨ s = .null) ∨
    (s = .ofReference (.object f.heap.size) ∧ f.heap.size < f.next.heap.size) ∨
    ∃ target pc, Operation.decode f.code f.pc = .ok (.branch .subroutine target, pc) ∧
      s = .ofReference (.returnAddress pc) := by
  rcases next_cases f with hnext | ⟨operation, pc, -, hdecode, hmakes⟩
  · rw [hnext] at h
    exact .inl h
  · rcases hmakes.holds h with hold | hyields
    · refine .inl ?_
      cases hold with
      | stack hmem => exact .stack hmem
      | locals hmem => exact .locals hmem
      | value hvalue => exact .value hvalue
    · cases hyields with
      | number hnumber => exact .inr (.inl (.inl hnumber))
      | constant hpush =>
        subst hpush
        exact .inr (.inl (Operation.constant_of_decode hdecode))
      | loaded _ hlocal _ => exact .inl (.locals (Array.mem_of_getElem? hlocal))
      | object hgrown => exact .inr (.inr (.inl ⟨rfl, hgrown⟩))
      | returnAddress hcall =>
        subst hcall
        exact .inr (.inr (.inr ⟨_, pc, hdecode, rfl⟩))

end Frame

end MethodMachine
