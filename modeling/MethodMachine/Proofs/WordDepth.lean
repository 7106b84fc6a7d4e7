/-
# The effect of an instruction on the depth of the stack

The depth of a stack is counted in words, two for a wide slot and one for every other.  Slots of any
width may stand on it, yet an operation that succeeds has changed the depth by an amount that its
opcode tells (`Operation.effect`):

| operation | words |
| --- | --- |
| constant, load | those of the kind |
| store, return of a value | minus those of the kind |
| array load | those of an element, minus two |
| array store | minus those of an element, minus two |
| arithmetic, bitwise | minus those of the kind |
| shift, branch on one value | minus one |
| branch on two values | minus two |
| comparison | one, minus two operands |
| conversion | those of the target, minus those of the source |
| branch to a subroutine | one |
| shuffle | the words it copies, or minus those it drops |
| any other | none |

`Balanced` says that an effect changes the depth by an amount, and `Balanced.bind` counts what is
left to do.  Two operations meet a slot before they know how wide it is.  A load from a local checks
its slot before it pushes it, and an array store takes its value unseen, but succeeds only if the
element type of the array agrees with it.

So along a run the depth is a sum over its opcodes, whatever values they meet
(`word_effect_is_static`).
-/

import MethodMachine.Proofs.ControlFlow

namespace MethodMachine

/-- The number of words that a slot takes. -/
def Slot.width (s : Slot) : Int := if s.isWide then 2 else 1

/-- The number of words that a slot of the kind takes. -/
def Kind.width : Kind → Int
  | int => 1
  | long => 2
  | float => 1
  | double => 2
  | reference => 1

/-- The number of words that a number of the kind takes. -/
def NumericKind.width : NumericKind → Int
  | int => 1
  | long => 2
  | float => 1
  | double => 2

/-- The number of words that a number of the kind takes. -/
def WordKind.width : WordKind → Int
  | int => 1
  | long => 2

/-- The number of words that an operand of the comparison takes. -/
def Comparison.width : Comparison → Int
  | long => 2
  | float _ => 1
  | double _ => 2

/-- The number of words that an element takes for an opcode that loads or stores elements. -/
def Opcode.elementWidth (op : Opcode) : Int :=
  if op = 0x2F ∨ op = 0x31 ∨ op = 0x50 ∨ op = 0x52 then 2 else 1

/-- The number of words that a rearrangement adds. -/
def Rearrangement.effect : Rearrangement → Int
  | drop count => -count
  | copy count _ => count
  | exchange => 0

/-- The number of words that a branch adds. -/
def Branch.effect : Branch → Int
  | always => 0
  | subroutine => 1
  | onInt _ => -1
  | onIntPair _ => -2
  | onReferencePair _ => -2
  | onNull _ => -1

/-- The number of words that an operation adds when it succeeds. -/
def Operation.effect : Operation → Int
  | push s => s.width
  | load kind _ => kind.width
  | store kind _ => -kind.width
  | arrayLoad op => op.elementWidth - 2
  | arrayStore op => -op.elementWidth - 2
  | shuffle s => s.rearrangement.effect
  | arithmetic kind _ => -kind.width
  | shift _ _ => -1
  | bitwise kind _ => -kind.width
  | convert source target => target.width - source.width
  | compare comparison => 1 - 2 * comparison.width
  | branch b _ => b.effect
  | complete (some kind) => -kind.width
  | _ => 0

/-- The number of words on the stack. -/
def Frame.depth (f : Frame) : Int := (OperandStack.words f.stack).length

namespace Execution

variable {α β : Type} {m n w : Int} {e : Execution α} {k : α → Execution β}

/-- When it succeeds, an effect has added so many words. -/
def Balanced (n : Int) (e : Execution α) : Prop :=
  ∀ f a g, e f = .ok a g → g.depth = f.depth + n

/-- A number of words may be written in another way. -/
theorem Balanced.of_eq (h : Balanced m e) (heq : m = n) : Balanced n e := heq ▸ h

/-- What an effect has added need not be added by those after it. -/
theorem Balanced.bind (he : Balanced m e) (hk : ∀ a, Balanced (n - m) (k a)) :
    Balanced n (e >>= k) := by
  intro f b g h
  obtain ⟨a, g', hef, hkf⟩ := bind_eq_ok h
  have hfirst := he f a g' hef
  have hsecond := hk a g' b g hkf
  omega

/-- A value alone adds no words. -/
theorem balanced_pure (a : α) : Balanced 0 (pure a) := by
  intro f b g h
  cases h
  omega

/-- A trap never succeeds, so it adds any number of words. -/
theorem balanced_throw (t : Trap) : Balanced n (throw t : Execution α) := by
  intro f a g h
  cases h

/-- Looking at the frame adds no words. -/
theorem balanced_get : Balanced 0 (get : Execution Frame) := by
  intro f a g h
  cases h
  omega

/-- A change of the frame adds what it adds to every frame. -/
theorem balanced_modify {change : Frame → Frame} (h : ∀ f, (change f).depth = f.depth + n) :
    Balanced n (modify change : Execution Unit) := by
  intro f a g hg
  cases hg
  exact h f

/-- What is done with a value may depend on how it came about. -/
theorem balanced_ofExcept_bind {x : Except Trap α} (h : ∀ a, x = .ok a → Balanced n (k a)) :
    Balanced n (ofExcept x >>= k) := by
  cases x with
  | ok a => exact h a rfl
  | error t => exact balanced_throw t

end Execution

section widths

variable {s : Slot}

/-- What reads as an int takes one word, a boolean too. -/
theorem Slot.width_of_asInt {v : Int32} (h : s.asInt = .ok v) : s.width = 1 := by
  cases s with
  | boolean _ | int _ => rfl
  | _ => cases h

/-- What reads as a long takes two words. -/
theorem Slot.width_of_asLong {v : Int64} (h : s.asLong = .ok v) : s.width = 2 := by
  cases s with
  | long _ => rfl
  | _ => cases h

/-- What reads as a float takes one word. -/
theorem Slot.width_of_asFloat {v : Single} (h : s.asFloat = .ok v) : s.width = 1 := by
  cases s with
  | float _ => rfl
  | _ => cases h

/-- What reads as a double takes two words. -/
theorem Slot.width_of_asDouble {v : Double} (h : s.asDouble = .ok v) : s.width = 2 := by
  cases s with
  | double _ => rfl
  | _ => cases h

/-- What reads as a reference takes one word. -/
theorem Slot.width_of_asReference {v : Option Reference} (h : s.asReference = .ok v) :
    s.width = 1 := by
  cases s with
  | reference _ => rfl
  | _ => cases h

/-- A slot that passes for a kind is as wide as the kind. -/
theorem Kind.width_of_check {kind : Kind} {u : Unit} (h : kind.check s = .ok u) :
    s.width = kind.width := by
  cases kind <;> cases s <;> cases h <;> rfl

/-- A converted number is as wide as the kind it was converted to. -/
theorem Number.width_toSlot (n : Number) (kind : NumericKind) :
    (n.toSlot kind).width = kind.width := by
  cases kind <;> rfl

/-- An element is as wide as the opcode that loads its type says. -/
theorem ElementType.width_toSlot (t : ElementType) (v : t.Value) :
    (t.toSlot v).width = t.loadOpcode.elementWidth := by
  cases t <;> rfl

/-- A slot that an array takes is as wide as the opcode that stores its type says. -/
theorem ElementType.width_of_ofSlot {t : ElementType} {v : t.Value} (h : t.ofSlot s = .ok v) :
    s.width = t.storeOpcode.elementWidth := by
  cases t <;> cases s <;> cases h <;> rfl

variable {a stored : PrimitiveArray} {op : Opcode} {index : Int32}

/-- What is loaded from an array is as wide as the opcode tells. -/
theorem PrimitiveArray.width_of_load (h : a.load op index = .ok s) :
    s.width = op.elementWidth := by
  unfold load at h
  split at h
  · rename_i hop
    obtain ⟨i, -, hi⟩ := Operation.exists_of_bind h
    cases hi
    rw [hop, ElementType.width_toSlot]
  · cases h

/-- What can be stored into an array is as wide as the opcode tells. -/
theorem PrimitiveArray.width_of_store (h : a.store op index s = .ok stored) :
    s.width = op.elementWidth := by
  unfold store at h
  split at h
  · rename_i hop
    obtain ⟨i, -, hi⟩ := Operation.exists_of_bind h
    obtain ⟨v, hv, -⟩ := Operation.exists_of_bind hi
    rw [hop, ElementType.width_of_ofSlot hv]
  · cases h

end widths

namespace OperandStack

/-- A rearrangement of words changes their number by its effect. -/
theorem Rearranges.length_words {r : Rearrangement} {stack result : OperandStack}
    (h : Rearranges r stack result) :
    ((OperandStack.words result).length : Int) = (OperandStack.words stack).length + r.effect := by
  cases h with
  | drop top rest hcount =>
    rw [words_append, List.length_append, hcount, Rearrangement.effect]
    omega
  | copy top middle rest hcount hskip =>
    simp only [words_append, List.length_append, Rearrangement.effect]
    omega
  | exchange first second rest hfirst hsecond =>
    simp only [words_append, List.length_append, Rearrangement.effect]
    omega

end OperandStack

namespace Execution

variable {α β γ : Type} {n w v : Int}

/-- The depth of a stack is that of what is below its top, and the width of the top. -/
theorem depth_of_cons {f : Frame} {s : Slot} {rest : OperandStack} (h : f.stack = s :: rest) :
    f.depth = { f with stack := rest }.depth + s.width := by
  simp only [Frame.depth, h, OperandStack.words_cons, List.length_append,
    OperandStack.length_words_slot, Slot.width]
  split <;> omega

/-- A push adds the words of its slot. -/
theorem balanced_push (s : Slot) : Balanced s.width (push s) :=
  balanced_modify fun _ => depth_of_cons rfl

/-- Taking a slot that is read as a value of known width. -/
theorem balanced_popAs {read : Slot → Except Trap α} (h : ∀ {s a}, read s = .ok a → s.width = w) :
    Balanced (-w) (onStack (OperandStack.popAs read)) := by
  intro f a g hg
  obtain ⟨s, rest, hstack, hread, rfl⟩ := popAs_eq_ok hg
  rw [depth_of_cons hstack, h hread]
  omega

/-- An int is one word. -/
theorem balanced_popInt : Balanced (-1) popInt := balanced_popAs Slot.width_of_asInt

/-- A long is two words. -/
theorem balanced_popLong : Balanced (-2) popLong := balanced_popAs Slot.width_of_asLong

/-- A float is one word. -/
theorem balanced_popFloat : Balanced (-1) popFloat := balanced_popAs Slot.width_of_asFloat

/-- A double is two words. -/
theorem balanced_popDouble : Balanced (-2) popDouble := balanced_popAs Slot.width_of_asDouble

/-- A reference is one word. -/
theorem balanced_popReference : Balanced (-1) popReference :=
  balanced_popAs Slot.width_of_asReference

/-- A slot that is taken for a kind has passed its check, so it is as wide as the kind. -/
theorem balanced_popOfKind (kind : Kind) : Balanced (-kind.width) (popOfKind kind) := by
  refine balanced_popAs fun {s a} h => ?_
  cases hcheck : kind.check s with
  | ok u => exact Kind.width_of_check hcheck
  | error t =>
    rw [hcheck] at h
    cases h

/-- A slot is taken before its width is known. -/
theorem balanced_pop_bind {k : Slot → Execution α} (h : ∀ s, Balanced (n + s.width) (k s)) :
    Balanced n (pop >>= k) := by
  intro f a g hg
  obtain ⟨s, g', hpop, hk⟩ := bind_eq_ok hg
  rw [pop, OperandStack.pop_eq_popAs] at hpop
  obtain ⟨s', rest, hstack, hread, rfl⟩ := popAs_eq_ok hpop
  cases hread
  rw [h s _ a g hk, depth_of_cons hstack]
  omega

/-- An array is taken by its reference. -/
theorem balanced_popArray (op : Opcode) : Balanced (-1) (popArray op) := by
  refine balanced_popReference.bind fun r => ?_
  cases r with
  | none => exact balanced_throw _
  | some r =>
    refine balanced_get.bind fun f => ?_
    cases f.heap.array? r with
    | some found => exact balanced_pure found
    | none => exact balanced_throw _

/-- Loading a local adds nothing until it is pushed. -/
theorem balanced_loadLocal (index : Nat) : Balanced 0 (loadLocal index) := by
  refine balanced_get.bind fun f => ?_
  cases f.locals.load index with
  | ok s => exact balanced_pure s
  | error t => exact balanced_throw t

/-- Storing a local leaves the stack alone. -/
theorem balanced_storeLocal (index : Nat) (s : Slot) : Balanced 0 (storeLocal index s) := by
  intro f a g h
  unfold storeLocal at h
  split at h
  · cases h
    exact (Int.add_zero f.depth).symm
  · cases h

/-- So does making an object. -/
theorem balanced_allocate (o : HeapObject) : Balanced 0 (allocate o) := by
  intro f r g h
  cases h
  exact (Int.add_zero f.depth).symm

/-- A jump leaves the stack alone. -/
theorem balanced_jump (origin : Nat) (target : Int) : Balanced 0 (jump origin target) := by
  refine balanced_get.bind fun f => ?_
  split
  · exact balanced_modify fun f => (Int.add_zero f.depth).symm
  · exact balanced_throw _

/-- So does a jump under a condition. -/
theorem balanced_jumpIf (condition : Bool) (origin : Nat) (target : Int) :
    Balanced 0 (jumpIf condition origin target) := by
  unfold jumpIf
  split
  · exact balanced_jump origin target
  · exact balanced_pure ()

/-- One value taken and a result pushed. -/
theorem balanced_unary {e : Execution α} {result : α → Slot} (he : Balanced (-w) e)
    (hresult : ∀ a, (result a).width = v) (hn : n = v - w) :
    Balanced n (do push (result (← e))) :=
  he.bind fun a => (balanced_push _).of_eq (by rw [hresult]; omega)

/-- Two values taken and a result pushed. -/
theorem balanced_binary {e : Execution α} {e' : Execution β} {u : Int}
    {result : α → β → Slot} (he : Balanced (-w) e) (he' : Balanced (-u) e')
    (hresult : ∀ a b, (result a b).width = v) (hn : n = v - w - u) :
    Balanced n (do
      let left ← e
      let right ← e'
      push (result left right)) :=
  he.bind fun a => he'.bind fun b => (balanced_push _).of_eq (by rw [hresult]; omega)

/-- Two values taken and a result pushed, unless the operator has none. -/
theorem balanced_partial {e : Execution α} {operator : α → α → Except Trap α} {result : α → Slot}
    (he : Balanced (-w) e) (hresult : ∀ a, (result a).width = w) :
    Balanced (-w) (do
      let left ← e
      let right ← e
      push (result (← ofExcept (operator left right)))) :=
  he.bind fun a => he.bind fun b => balanced_ofExcept_bind fun c _ =>
    (balanced_push _).of_eq (by rw [hresult]; omega)

/-- Of two operands and a result of one kind, the words of one are gone. -/
theorem balanced_arithmetic (operator : Arithmetic) (kind : NumericKind) :
    Balanced (-kind.width) (arithmetic operator kind) := by
  cases kind with
  | int => exact balanced_partial balanced_popInt fun _ => rfl
  | long => exact balanced_partial balanced_popLong fun _ => rfl
  | float => exact balanced_binary balanced_popFloat balanced_popFloat (fun _ _ => rfl) rfl
  | double => exact balanced_binary balanced_popDouble balanced_popDouble (fun _ _ => rfl) rfl

/-- Change of sign gives a number of the kind that it takes. -/
theorem balanced_negate (kind : NumericKind) : Balanced 0 (negate kind) := by
  cases kind with
  | int => exact balanced_unary balanced_popInt (fun _ => rfl) rfl
  | long => exact balanced_unary balanced_popLong (fun _ => rfl) rfl
  | float => exact balanced_unary balanced_popFloat (fun _ => rfl) rfl
  | double => exact balanced_unary balanced_popDouble (fun _ => rfl) rfl

/-- A shift gives back a value of its kind; the amount is gone. -/
theorem balanced_shift (s : Shift) (kind : WordKind) : Balanced (-1) (shift s kind) := by
  cases kind with
  | int => exact balanced_binary balanced_popInt balanced_popInt (fun _ _ => rfl) rfl
  | long => exact balanced_binary balanced_popInt balanced_popLong (fun _ _ => rfl) rfl

/-- A bitwise combination gives one number of its kind for two. -/
theorem balanced_bitwise (operator : Bitwise) (kind : WordKind) :
    Balanced (-kind.width) (bitwise operator kind) := by
  cases kind with
  | int => exact balanced_binary balanced_popInt balanced_popInt (fun _ _ => rfl) rfl
  | long => exact balanced_binary balanced_popLong balanced_popLong (fun _ _ => rfl) rfl

/-- A comparison gives an int for two operands. -/
theorem balanced_compare (comparison : Comparison) :
    Balanced (1 - 2 * comparison.width) (Execution.compare comparison) := by
  cases comparison with
  | long => exact balanced_binary balanced_popLong balanced_popLong (fun _ _ => rfl) rfl
  | float => exact balanced_binary balanced_popFloat balanced_popFloat (fun _ _ => rfl) rfl
  | double => exact balanced_binary balanced_popDouble balanced_popDouble (fun _ _ => rfl) rfl

/-- A number takes the words of its kind. -/
theorem balanced_popNumber (kind : NumericKind) : Balanced (-kind.width) (popNumber kind) := by
  cases kind with
  | int => exact balanced_popInt.bind fun _ => balanced_pure _
  | long => exact balanced_popLong.bind fun _ => balanced_pure _
  | float => exact balanced_popFloat.bind fun _ => balanced_pure _
  | double => exact balanced_popDouble.bind fun _ => balanced_pure _

/-- A branch takes the values that decide it, and one to a subroutine pushes an address. -/
theorem balanced_branch (origin : Nat) (target : Int) (b : Branch) :
    Balanced b.effect (branch origin target b) := by
  cases b with
  | always => exact balanced_jump origin target
  | subroutine =>
    exact balanced_get.bind fun f => (balanced_push _).bind fun _ => balanced_jump origin target
  | onInt => exact balanced_popInt.bind fun _ => balanced_jumpIf _ origin target
  | onIntPair =>
    exact balanced_popInt.bind fun _ => balanced_popInt.bind fun _ =>
      balanced_jumpIf _ origin target
  | onReferencePair =>
    exact balanced_popReference.bind fun _ => balanced_popReference.bind fun _ =>
      balanced_jumpIf _ origin target
  | onNull => exact balanced_popReference.bind fun _ => balanced_jumpIf _ origin target

/-- A return from a subroutine leaves the stack alone. -/
theorem balanced_returnFromSubroutine (origin index : Nat) :
    Balanced 0 (returnFromSubroutine origin index) := by
  refine (balanced_loadLocal index).bind fun s => ?_
  split
  · exact balanced_jump origin _
  · exact balanced_throw _

/-- The value of the frame is taken off the stack, if there is one. -/
theorem balanced_complete (kind : Option Kind) :
    Balanced (Operation.complete kind).effect (complete kind) := by
  cases kind with
  | none => exact balanced_modify fun f => (Int.add_zero f.depth).symm
  | some kind =>
    refine (balanced_popOfKind kind).bind fun s => balanced_modify fun f => ?_
    rw [Operation.effect, Int.sub_self, Int.add_zero]
    rfl

/-- A load from an array gives an element for an index and a reference. -/
theorem balanced_arrayLoad (op : Opcode) : Balanced (op.elementWidth - 2) (arrayLoad op) := by
  refine balanced_popInt.bind fun index => (balanced_popArray op).bind fun found =>
    balanced_ofExcept_bind fun s hs => (balanced_push s).of_eq ?_
  rw [PrimitiveArray.width_of_load hs]
  omega

/-- The value is taken first, and only the store tells how wide it was. -/
theorem balanced_arrayStore (op : Opcode) : Balanced (-op.elementWidth - 2) (arrayStore op) := by
  refine balanced_pop_bind fun s => balanced_popInt.bind fun index =>
    (balanced_popArray op).bind fun found => balanced_ofExcept_bind fun stored hstored =>
    balanced_modify fun f => ?_
  have hwidth := PrimitiveArray.width_of_store hstored
  change f.depth = _
  omega

/-- A new array gives a reference for a length. -/
theorem balanced_newArray (element : ElementType) : Balanced 0 (newArray element) := by
  refine balanced_popInt.bind fun length => ?_
  split
  · exact balanced_throw _
  · exact (balanced_allocate _).bind fun r => balanced_push _

/-- A shuffle adds what its rearrangement of words adds, whichever of its forms applies. -/
theorem balanced_shuffle (origin : Nat) (s : Shuffle) :
    Balanced s.rearrangement.effect (execute origin (.shuffle s)) := by
  intro f u g h
  have hrefines := OperandStack.refines_shuffle s f.stack
  rw [execute_shuffle] at h
  cases hshuffle : f.stack.shuffle s with
  | ok stack =>
    rw [hshuffle] at h hrefines
    cases h
    exact OperandStack.Rearranges.length_words hrefines
  | error t =>
    rw [hshuffle] at h
    cases h

/-- **An operation that succeeds adds as many words as its effect says.** -/
theorem balanced_execute (origin : Nat) (operation : Operation) :
    Balanced operation.effect (execute origin operation) := by
  cases operation with
  | nop => exact balanced_pure ()
  | push s => exact balanced_push s
  | load kind index =>
    exact (balanced_loadLocal index).bind fun s => balanced_ofExcept_bind fun u hu =>
      (balanced_push s).of_eq (by rw [Kind.width_of_check hu, Operation.effect, Int.sub_zero])
  | store kind index =>
    exact (balanced_popOfKind kind).bind fun s =>
      (balanced_storeLocal index s).of_eq (by rw [Operation.effect, Int.sub_self])
  | increment index delta =>
    exact (balanced_loadLocal index).bind fun s => balanced_ofExcept_bind fun value _ =>
      balanced_storeLocal index _
  | arrayLoad op => exact balanced_arrayLoad op
  | arrayStore op => exact balanced_arrayStore op
  | newArray element => exact balanced_newArray element
  | arrayLength =>
    exact (balanced_popArray arrayLengthOpcode).bind fun found => balanced_push _
  | shuffle s => exact balanced_shuffle origin s
  | arithmetic kind operator => exact balanced_arithmetic operator kind
  | negate kind => exact balanced_negate kind
  | shift kind s => exact balanced_shift s kind
  | bitwise kind operator => exact balanced_bitwise operator kind
  | convert source target =>
    exact balanced_unary (balanced_popNumber source) (fun n => n.width_toSlot target) rfl
  | narrow target => exact balanced_unary balanced_popInt (fun _ => rfl) rfl
  | compare comparison => exact balanced_compare comparison
  | branch b target => exact balanced_branch origin target b
  | returnFromSubroutine index => exact balanced_returnFromSubroutine origin index
  | complete kind => exact balanced_complete kind

end Execution

/-- The operands of an instruction do not change its effect. -/
theorem Operation.effect_shape (operation : Operation) :
    operation.shape.effect = operation.effect := by
  cases operation with
  | push s => cases s <;> rfl
  | _ => rfl

namespace Opcode

/-- The number of words that an instruction with the opcode adds when it succeeds. -/
def effect (op : Opcode) : Int := ((Encoding.ofOpcode op).shape?.map Operation.effect).getD 0

/-- The number of words that instructions with the opcodes add, one after the other. -/
def totalEffect : List Opcode → Int
  | [] => 0
  | op :: rest => op.effect + totalEffect rest

/-- The effects of two lists of opcodes add up. -/
theorem totalEffect_append (ops ops' : List Opcode) :
    totalEffect (ops ++ ops') = totalEffect ops + totalEffect ops' := by
  induction ops with
  | nil => simp [totalEffect]
  | cons op rest ih =>
    rw [List.cons_append, totalEffect, totalEffect, ih]
    omega

-- an int made a long and added to one, the sum compared with a third and the result dropped
example : totalEffect [0x0A, 0x04, 0x85, 0x61, 0x09, 0x94, 0x57] = 0 := by decide +kernel

end Opcode

namespace Frame

variable {f g : Frame} {u : Unit}

/-- **The opcode tells the effect of a step.** -/
theorem depth_of_step (h : step f = .ok u g) :
    ∃ op, f.code.opcodeAt? f.pc = some op ∧ g.depth = f.depth + op.effect := by
  rcases step_cases f with ⟨t, hstep, -⟩ | ⟨operation, pc, hdecode, hstep⟩
  · rw [hstep] at h
    cases h
  · rw [hstep] at h
    obtain ⟨op, hop, hshape⟩ := Operation.shape?_of_decode hdecode
    refine ⟨op, hop, ?_⟩
    have heffect : op.effect = operation.effect := by
      rw [Opcode.effect, hshape, Option.map_some, Option.getD_some, Operation.effect_shape]
    rw [heffect]
    exact Execution.balanced_execute f.pc operation { f with pc := pc, steps := f.steps + 1 } u g h

/-- The opcodes of the first steps. -/
def executed (f : Frame) : Nat → List Opcode
  | 0 => []
  | n + 1 => f.executed n ++ ((f.after n).code.opcodeAt? (f.after n).pc).toList

/-- Steps that do not trap have an opcode each, and add the effects of these. -/
theorem depth_after {n : Nat} (h : ∀ i < n, (f.after i).trap? = none) :
    (f.executed n).length = n ∧
      (f.after n).depth = f.depth + Opcode.totalEffect (f.executed n) := by
  induction n with
  | zero => exact ⟨rfl, (Int.add_zero f.depth).symm⟩
  | succ n ih =>
    obtain ⟨hlength, hdepth⟩ := ih fun i hi => h i (by omega)
    obtain ⟨op, hop, hstep⟩ := depth_of_step (trap?_eq_none_iff.1 (h n (by omega)))
    rw [executed, hop, Option.toList_some]
    refine ⟨by rw [List.length_append, hlength, List.length_singleton], ?_⟩
    rw [after, hstep, hdepth, Opcode.totalEffect_append, Opcode.totalEffect, Opcode.totalEffect]
    omega

/-- **An opcode changes the depth of the stack by a fixed number of words.**  Two steps that succeed
on the same opcode, or on the same opcode modified by `wide`, add the same number of words, whatever
their operands and the rest of their frames are.  So as long as a run from the start of the code
does not trap, the depth is the sum of the effects of the opcodes that it has carried out. -/
theorem word_effect_is_static :
    (∀ (f g f' g' : Frame) (u v : Unit), f.code.opcodeAt? f.pc = g.code.opcodeAt? g.pc →
      step f = .ok u f' → step g = .ok v g' → f'.depth - f.depth = g'.depth - g.depth) ∧
    ∀ (code : Code) (locals : Nat) (heap : Heap) (args : List (Nat × Slot)) (n : Nat),
      let f := (new code locals heap).setLocals args
      (∀ i < n, (f.after i).trap? = none) →
        (f.executed n).length = n ∧ (f.after n).depth = Opcode.totalEffect (f.executed n) := by
  constructor
  · intro f g f' g' u v hsame hf hg
    obtain ⟨op, hop, hdepth⟩ := depth_of_step hf
    obtain ⟨op', hop', hdepth'⟩ := depth_of_step hg
    rw [hsame, hop', Option.some.injEq] at hop
    subst hop
    omega
  · intro code locals heap args n f hsteps
    obtain ⟨hlength, hdepth⟩ := depth_after hsteps
    have hempty : f.depth = 0 := by
      rw [depth, stack_setLocals]
      rfl
    exact ⟨hlength, by rw [hdepth, hempty, Int.zero_add]⟩

end Frame

end MethodMachine
