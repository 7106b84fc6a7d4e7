/-
# Views of a frame

A *view* shows a frame in other surroundings.  There is more code around its own, there are more
slots below its stack and more locals after its own, steps were made before its first, or its
booleans are the ints they stand for:

| of a frame | in a view |
| --- | --- |
| the program counter, a return address, the target of a branch | past the code in front |
| a boolean, and the kind of one in a trap | the int `0` or `1`, if the view has only ints |
| every other slot, and the heap | the same |

Operations look at a frame through few effects, and each of them does in a view what it does without
(`Mirrors`).  The exception are traps for something that is missing, where the view may have it
(`View.lifts`):

| trap | may be lifted by |
| --- | --- |
| stack underflow | slots below the stack |
| index of a local out of bounds | locals after those of the frame |
| address out of bounds | code around that of the frame |

`Mirrors.bind` puts effects together, so every operation does in a view what it does without
(`mirrors_execute`).
-/

import MethodMachine.Proofs.Effects

namespace MethodMachine

/-- A way of showing a frame. -/
structure View where
  /-- whether booleans are shown as ints -/
  intsOnly : Bool := false
  /-- the code in front of that of the frame -/
  front : Code := #[]
  /-- the code behind it -/
  back : Code := #[]
  /-- the slots below the stack -/
  below : OperandStack := []
  /-- the locals after those of the frame -/
  beyond : Locals := #[]
  /-- the number of steps made before -/
  earlier : Nat := 0

namespace View

variable {α β γ δ : Type} {v : View}

/-- Whether the view has code around that of the frame. -/
def hasCode (v : View) : Bool := !(v.front.isEmpty && v.back.isEmpty)

/-- Whether the trap is for something that the view may have. -/
def lifts (v : View) : Trap → Bool
  | .stackUnderflow => !v.below.isEmpty
  | .localIndexOutOfBounds _ => !v.beyond.isEmpty
  | .branchOutOfBounds .. => v.hasCode
  | .codeOutOfBounds _ => v.hasCode
  | _ => false

/-- A reference in the view. -/
def reference (v : View) : Reference → Reference
  | .object id => .object id
  | .returnAddress pc => .returnAddress (v.front.size + pc)

/-- A slot in the view. -/
def slot (v : View) : Slot → Slot
  | .boolean b => if v.intsOnly then .int (Slot.ofTruth b) else .boolean b
  | .reference r => .reference (r.map v.reference)
  | s => s

/-- The kind of a slot in the view. -/
def kind (v : View) : SlotKind → SlotKind
  | .boolean => if v.intsOnly then .int else .boolean
  | k => k

/-- A trap in the view. -/
def trap (v : View) : Trap → Trap
  | .typeMismatch expected found => .typeMismatch expected (v.kind found)
  | t => t

/-- A stack in the view. -/
def stack (v : View) (stack : OperandStack) : OperandStack := stack.map v.slot ++ v.below

/-- Locals in the view. -/
def locals (v : View) (locals : Locals) : Locals := locals.map v.slot ++ v.beyond

/-- Code in the view. -/
def code (v : View) (code : Code) : Code := v.front ++ code ++ v.back

/-- A status in the view. -/
def status (v : View) : Status → Status
  | .running => .running
  | .returned value => .returned (value.map v.slot)

/-- A frame in the view. -/
def frame (v : View) (f : Frame) : Frame where
  code := v.code f.code
  pc := v.front.size + f.pc
  stack := v.stack f.stack
  locals := v.locals f.locals
  heap := f.heap
  status := v.status f.status
  steps := v.earlier + f.steps

/-- An operation in the view: its constant and its target are shown. -/
def operation (v : View) : Operation → Operation
  | .push s => .push (v.slot s)
  | .branch b target => .branch b (v.front.size + target)
  | o => o

/-- A view without code around that of the frame has none in front and none behind. -/
theorem front_eq_and_back_eq (h : v.hasCode = false) : v.front = #[] ∧ v.back = #[] := by
  simpa [hasCode] using h

/-- A boolean is shown as an int or as it is. -/
theorem slot_boolean (v : View) (b : Bool) :
    v.slot (.boolean b) = .int (Slot.ofTruth b) ∨ v.slot (.boolean b) = .boolean b := by
  rw [slot]
  split
  · exact .inl rfl
  · exact .inr rfl

/-- A slot is as wide in a view as it is without. -/
@[simp] theorem isWide_slot (s : Slot) : (v.slot s).isWide = s.isWide := by
  cases s with
  | boolean b =>
    rcases v.slot_boolean b with hslot | hslot
    · rw [hslot]
      rfl
    · rw [hslot]
  | _ => rfl

/-- Different references stay different in a view. -/
theorem reference_inj {r r' : Reference} : v.reference r = v.reference r' ↔ r = r' := by
  cases r <;> cases r' <;> simp [reference]

/-- Without code in front, a reference looks the same. -/
theorem reference_of_front (hfront : v.front = #[]) (r : Reference) : v.reference r = r := by
  cases r with
  | object id => rfl
  | returnAddress pc => rw [reference, hfront, Array.size_empty, Nat.zero_add]

/-- With booleans as they are, a trap looks the same. -/
theorem trap_of_not_intsOnly (hints : v.intsOnly = false) (t : Trap) : v.trap t = t := by
  cases t with
  | typeMismatch expected found => cases found <;> simp [trap, kind, hints]
  | _ => rfl

/-- Without code in front, and with booleans as they are, a slot looks the same. -/
theorem slot_eq_self (hints : v.intsOnly = false) (hfront : v.front = #[]) (s : Slot) :
    v.slot s = s := by
  cases s with
  | boolean b => rw [slot, hints]; rfl
  | reference r =>
    cases r with
    | none => rfl
    | some r => rw [slot, Option.map_some, reference_of_front hfront]
  | _ => rfl

/-- Whether two references are the same can be told in a view. -/
theorem beq_map_reference (r r' : Option Reference) :
    (r.map v.reference == r'.map v.reference) = (r == r') := by
  rw [Bool.eq_iff_iff, beq_iff_eq, beq_iff_eq]
  cases r <;> cases r' <;> simp [reference_inj]

/-- A reference denotes in a view what it denotes without. -/
theorem array?_reference (heap : Heap) (r : Reference) :
    heap.array? (v.reference r) = heap.array? r := by
  cases r <;> rfl

/-- A converted number looks the same in every view. -/
theorem slot_toSlot (n : Number) (k : NumericKind) : v.slot (n.toSlot k) = n.toSlot k := by
  cases k <;> rfl

/-- An element of an array looks the same in every view. -/
theorem slot_element (t : ElementType) (x : t.Value) : v.slot (t.toSlot x) = t.toSlot x := by
  cases t <;> rfl

/-- In the view, a result is seen as another, where `seen` says how values are seen. -/
def Shows (v : View) (seen : α → β) (x : Except Trap α) (x' : Except Trap β) : Prop :=
  match x with
  | .ok a => x' = .ok (seen a)
  | .error t => v.lifts t = true ∨ x' = .error (v.trap t)

/-- In the view, what an effect comes to is seen as another such. -/
def ShowsResult (v : View) (seen : α → β) (r : EStateM.Result Trap Frame α)
    (r' : EStateM.Result Trap Frame β) : Prop :=
  match r with
  | .ok a g => r' = .ok (seen a) (v.frame g)
  | .error t g => v.lifts t = true ∨ r' = .error (v.trap t) (v.frame g)

/-- In the view, one effect does what another does without. -/
def Mirrors (v : View) (seen : α → β) (e : Execution α) (e' : Execution β) : Prop :=
  ∀ f, v.ShowsResult seen (e f) (e' (v.frame f))

/-- What comes after a result is seen in the view if it is for the results that there can be. -/
theorem Shows.bindOk {seen : α → β} {seen' : γ → δ} {x : Except Trap α} {x' : Except Trap β}
    {k : α → Except Trap γ} {k' : β → Except Trap δ} (hx : v.Shows seen x x')
    (hk : ∀ a, x = .ok a → v.Shows seen' (k a) (k' (seen a))) :
    v.Shows seen' (x >>= k) (x' >>= k') := by
  cases x with
  | ok a =>
    cases hx
    exact hk a rfl
  | error t =>
    rcases hx with hlifts | rfl
    · exact .inl hlifts
    · exact .inr rfl

/-- What comes after a result is seen in the view if it is for every result. -/
theorem Shows.bind {seen : α → β} {seen' : γ → δ} {x : Except Trap α} {x' : Except Trap β}
    {k : α → Except Trap γ} {k' : β → Except Trap δ} (hx : v.Shows seen x x')
    (hk : ∀ a, v.Shows seen' (k a) (k' (seen a))) : v.Shows seen' (x >>= k) (x' >>= k') :=
  hx.bindOk fun a _ => hk a

/-- What is made of a value is seen in the view if it can be made of the value that is seen. -/
theorem Shows.map {seen : α → β} {seen' : γ → δ} {x : Except Trap α} {x' : Except Trap β}
    {change : α → γ} {change' : β → δ} (hx : v.Shows seen x x')
    (h : ∀ a, change' (seen a) = seen' (change a)) :
    v.Shows seen' (x.map change) (x'.map change') := by
  cases x with
  | ok a =>
    cases hx
    exact congrArg Except.ok (h a)
  | error t =>
    rcases hx with hlifts | rfl
    · exact .inl hlifts
    · exact .inr rfl

/-- **Effects in a row do in a view what they do without**, if each of them does. -/
theorem Mirrors.bind {seen : α → β} {seen' : γ → δ} {e : Execution α} {e' : Execution β}
    {k : α → Execution γ} {k' : β → Execution δ} (he : v.Mirrors seen e e')
    (hk : ∀ a, v.Mirrors seen' (k a) (k' (seen a))) : v.Mirrors seen' (e >>= k) (e' >>= k') := by
  intro f
  have hshows := he f
  show v.ShowsResult seen' (EStateM.bind e k f) (EStateM.bind e' k' (v.frame f))
  unfold EStateM.bind
  cases hef : e f with
  | ok a g =>
    rw [hef] at hshows
    rw [hshows]
    exact hk a g
  | error t g =>
    rw [hef] at hshows
    rcases hshows with hlifts | hshows
    · exact .inl hlifts
    · rw [hshows]
      exact .inr rfl

section reading

variable (v) (s : Slot)

/-- An int reads the same in every view.  This is where a boolean may be shown as an int: it reads
as that int. -/
theorem shows_asInt : v.Shows id s.asInt (v.slot s).asInt := by
  cases s with
  | boolean b => rcases v.slot_boolean b with hslot | hslot <;> rw [hslot] <;> rfl
  | int _ => rfl
  | _ => exact .inr rfl

/-- Who refuses booleans and ints refuses a boolean in the view too. -/
theorem shows_boolean {read : Slot → Except Trap α} {seen : α → α} {expected : SlotKind} (b : Bool)
    (hboolean : read (.boolean b) = .error (.typeMismatch expected .boolean))
    (hint : read (.int (Slot.ofTruth b)) = .error (.typeMismatch expected .int)) :
    v.Shows seen (read (.boolean b)) (read (v.slot (.boolean b))) := by
  rw [hboolean, slot]
  refine .inr ?_
  rw [trap, kind]
  split
  · exact hint
  · exact hboolean

/-- A long reads the same in every view. -/
theorem shows_asLong : v.Shows id s.asLong (v.slot s).asLong := by
  cases s with
  | boolean b => exact v.shows_boolean b rfl rfl
  | long _ => rfl
  | _ => exact .inr rfl

/-- A float reads the same in every view. -/
theorem shows_asFloat : v.Shows id s.asFloat (v.slot s).asFloat := by
  cases s with
  | boolean b => exact v.shows_boolean b rfl rfl
  | float _ => rfl
  | _ => exact .inr rfl

/-- A double reads the same in every view. -/
theorem shows_asDouble : v.Shows id s.asDouble (v.slot s).asDouble := by
  cases s with
  | boolean b => exact v.shows_boolean b rfl rfl
  | double _ => rfl
  | _ => exact .inr rfl

/-- A reference is read as what it is in the view. -/
theorem shows_asReference :
    v.Shows (Option.map v.reference) s.asReference (v.slot s).asReference := by
  cases s with
  | boolean b => exact v.shows_boolean b rfl rfl
  | reference _ => rfl
  | _ => exact .inr rfl

/-- A slot passes for a kind in a view if it does without. -/
theorem shows_check (k : Kind) : v.Shows id (k.check s) (k.check (v.slot s)) := by
  cases k with
  | int => exact (v.shows_asInt s).map fun _ => rfl
  | long => exact (v.shows_asLong s).map fun _ => rfl
  | float => exact (v.shows_asFloat s).map fun _ => rfl
  | double => exact (v.shows_asDouble s).map fun _ => rfl
  | reference => exact (v.shows_asReference s).map fun _ => rfl

/-- An array keeps the same value of a slot in every view. -/
theorem shows_ofSlot (t : ElementType) : v.Shows id (t.ofSlot s) (t.ofSlot (v.slot s)) := by
  cases t with
  | int => exact v.shows_asInt s
  | long => exact v.shows_asLong s
  | float => exact v.shows_asFloat s
  | double => exact v.shows_asDouble s
  | _ => exact (v.shows_asInt s).map fun _ => rfl

end reading

/-- An index is in bounds of an array in every view or in none. -/
theorem shows_position (a : PrimitiveArray) (index : Int32) :
    v.Shows id (a.position index) (a.position index) := by
  unfold PrimitiveArray.position
  split
  · rfl
  · exact .inr rfl

/-- A loaded element looks the same in every view. -/
theorem shows_load (a : PrimitiveArray) (op : Opcode) (index : Int32) :
    v.Shows v.slot (a.load op index) (a.load op index) := by
  unfold PrimitiveArray.load
  split
  · exact (shows_position a index).bind fun i => congrArg Except.ok (slot_element ..).symm
  · exact .inr rfl

/-- A store into an array gives the same array in every view. -/
theorem shows_store (a : PrimitiveArray) (op : Opcode) (index : Int32) (s : Slot) :
    v.Shows id (a.store op index s) (a.store op index (v.slot s)) := by
  unfold PrimitiveArray.store
  split
  · exact (shows_position a index).bind fun i => (v.shows_ofSlot s a.element).bind fun x => rfl
  · exact .inr rfl

/-- Arithmetic on ints has nothing to do with the view. -/
theorem shows_onInt (operator : Arithmetic) (a b : Int32) :
    v.Shows id (operator.onInt a b) (operator.onInt a b) := by
  cases operator with
  | div | rem =>
    rw [Arithmetic.onInt]
    split
    · exact .inr rfl
    · rfl
  | _ => rfl

/-- Neither has arithmetic on longs. -/
theorem shows_onLong (operator : Arithmetic) (a b : Int64) :
    v.Shows id (operator.onLong a b) (operator.onLong a b) := by
  cases operator with
  | div | rem =>
    rw [Arithmetic.onLong]
    split
    · exact .inr rfl
    · rfl
  | _ => rfl

/-- An underflow is lifted, or nothing is below the stack. -/
theorem shows_underflow {seen : α → β} {x' : Except Trap β}
    (h : v.below = [] → x' = .error .stackUnderflow) :
    v.Shows seen (.error .stackUnderflow) x' := by
  cases hbelow : v.below with
  | nil => exact .inr (h hbelow)
  | cons s rest => exact .inl (by rw [lifts, hbelow]; rfl)

/-- Below an empty stack there is what the view has below. -/
@[simp] theorem stack_nil : v.stack [] = v.below := rfl

/-- The top of a stack in a view is its top, as the view shows it. -/
@[simp] theorem stack_cons (s : Slot) (rest : OperandStack) :
    v.stack (s :: rest) = v.slot s :: v.stack rest := rfl

/-- Taking the top slot is seen in the view if reading it is. -/
theorem shows_popAs {read : Slot → Except Trap α} {read' : Slot → Except Trap β} {seen : α → β}
    (hread : ∀ s, v.Shows seen (read s) (read' (v.slot s))) (stack : OperandStack) :
    v.Shows (Prod.map seen v.stack) (OperandStack.popAs read stack)
      (OperandStack.popAs read' (v.stack stack)) := by
  cases stack with
  | nil => exact shows_underflow fun h => by rw [stack_nil, h]; rfl
  | cons s rest => exact (hread s).map fun a => rfl

/-- One narrow slot is removed in a view as without. -/
theorem shows_popNarrow (stack : OperandStack) :
    v.Shows (Prod.map v.slot v.stack) stack.popNarrow (v.stack stack).popNarrow := by
  unfold OperandStack.popNarrow
  cases stack with
  | nil => exact shows_underflow fun h => by rw [stack_nil, h]
  | cons a rest =>
    dsimp only [stack_cons]
    rw [isWide_slot]
    split
    · exact .inr rfl
    · rfl

/-- The top of the stack is seen as the view shows it. -/
theorem shows_peek (stack : OperandStack) : v.Shows v.slot stack.peek (v.stack stack).peek := by
  cases stack with
  | nil => exact shows_underflow fun h => by rw [stack_nil, h]; rfl
  | cons a rest => rfl

/-- The widths of slots look the same in every view. -/
theorem shows_widths (stack : OperandStack) (count : Nat) :
    v.Shows id (stack.widths count) ((v.stack stack).widths count) := by
  induction count generalizing stack with
  | zero => simp [Shows]
  | succ count ih =>
    cases stack with
    | nil => exact shows_underflow fun h => by rw [stack_nil, h]; rfl
    | cons a rest =>
      have hrest := ih rest
      simp only [OperandStack.widths, stack_cons, isWide_slot]
      cases hwidths : OperandStack.widths rest count with
      | ok wide =>
        rw [hwidths] at hrest
        rw [hrest]
        rfl
      | error t =>
        rw [hwidths] at hrest
        rcases hrest with hlifts | hrest
        · exact .inl hlifts
        · rw [hrest]
          exact .inr rfl

/-- Widths that are found are those of slots on the stack. -/
theorem le_length_of_widths {stack : OperandStack} {count : Nat} {wide : List Bool}
    (h : stack.widths count = .ok wide) : count ≤ stack.length := by
  induction count generalizing stack wide with
  | zero => exact Nat.zero_le _
  | succ count ih =>
    cases stack with
    | nil => cases h
    | cons a rest =>
      rw [OperandStack.widths] at h
      split at h
      · rename_i hrest
        exact Nat.succ_le_succ (ih hrest)
      · cases h

/-- A stack with a top is not empty. -/
theorem length_pos_of_peek {stack : OperandStack} {top : Slot} (h : stack.peek = .ok top) :
    0 < stack.length := by
  cases stack with
  | nil => cases h
  | cons a rest => exact Nat.succ_pos _

/-- Slots that are there are dropped in the view as without. -/
theorem shows_drop {stack : OperandStack} {count : Nat} (h : count ≤ stack.length) :
    v.Shows v.stack (.ok (stack.drop count)) (.ok ((v.stack stack).drop count)) := by
  simp [Shows, View.stack, List.drop_append_of_le_length, h]

/-- Slots that are there are copied in the view as without. -/
theorem shows_insertCopies {stack : OperandStack} {count below : Nat}
    (hcount : count ≤ stack.length) (hbelow : below ≤ stack.length) :
    v.Shows v.stack (.ok (stack.insertCopies count below))
      (.ok ((v.stack stack).insertCopies count below)) := by
  simp [Shows, OperandStack.insertCopies, View.stack, List.take_append_of_le_length,
    List.drop_append_of_le_length, hcount, hbelow]

/-- Copies under a condition on the widths are made in a view as without.  The slots that are copied
and passed over are among those whose widths are known, so none of them is below the stack. -/
theorem shows_copyIf (s : Shuffle) (form : List Bool) {count below : Nat}
    (hcount : count ≤ form.length) (hbelow : below ≤ form.length) (stack : OperandStack) :
    v.Shows v.stack (stack.copyIf s form count below)
      ((v.stack stack).copyIf s form count below) := by
  refine (shows_widths stack form.length).bindOk fun wide hwide => ?_
  have hlength := le_length_of_widths hwide
  rw [id]
  split
  · exact shows_insertCopies (Nat.le_trans hcount hlength) (Nat.le_trans hbelow hlength)
  · exact .inr rfl

/-- Two words are removed in a view as without. -/
theorem shows_pop2 (stack : OperandStack) : v.Shows v.stack stack.pop2 (v.stack stack).pop2 := by
  refine (shows_peek stack).bindOk fun top htop => ?_
  rw [isWide_slot]
  split
  · exact shows_drop (length_pos_of_peek htop)
  · refine (shows_widths stack 2).bindOk fun wide hwide => ?_
    rw [id]
    split
    · exact shows_drop (le_length_of_widths hwide)
    · exact .inr rfl

/-- One word is copied below the next two in a view as without. -/
theorem shows_dupX2 (stack : OperandStack) : v.Shows v.stack stack.dupX2 (v.stack stack).dupX2 := by
  refine (shows_widths stack 2).bindOk fun wide hwide => ?_
  have hlength := le_length_of_widths hwide
  rw [id]
  split
  · exact shows_insertCopies (by omega) hlength
  · split
    · exact shows_copyIf .dupX2 _ (by decide) (by decide) stack
    · exact .inr rfl

/-- Two words are copied in a view as without. -/
theorem shows_dup2 (stack : OperandStack) : v.Shows v.stack stack.dup2 (v.stack stack).dup2 := by
  refine (shows_peek stack).bindOk fun top htop => ?_
  rw [isWide_slot]
  split
  · exact shows_insertCopies (length_pos_of_peek htop) (Nat.zero_le _)
  · exact shows_copyIf .dup2 _ (by decide) (by decide) stack

/-- Two words are copied below the next in a view as without. -/
theorem shows_dup2X1 (stack : OperandStack) :
    v.Shows v.stack stack.dup2X1 (v.stack stack).dup2X1 := by
  refine (shows_peek stack).bind fun top => ?_
  rw [isWide_slot]
  split
  · exact shows_copyIf .dup2X1 _ (by decide) (by decide) stack
  · exact shows_copyIf .dup2X1 _ (by decide) (by decide) stack

/-- Two words are copied below the next two in a view as without. -/
theorem shows_dup2X2 (stack : OperandStack) :
    v.Shows v.stack stack.dup2X2 (v.stack stack).dup2X2 := by
  refine (shows_peek stack).bind fun top => ?_
  rw [isWide_slot]
  split
  · refine (shows_widths stack 2).bindOk fun wide hwide => ?_
    have hlength := le_length_of_widths hwide
    rw [id]
    split
    · exact shows_insertCopies (by omega) hlength
    · exact shows_copyIf .dup2X2 _ (by decide) (by decide) stack
  · refine (shows_widths stack 3).bindOk fun wide hwide => ?_
    have hlength := le_length_of_widths hwide
    rw [id]
    split
    · exact shows_insertCopies (by omega) hlength
    · split
      · exact shows_copyIf .dup2X2 _ (by decide) (by decide) stack
      · exact .inr rfl

/-- Two words are exchanged in a view as without. -/
theorem shows_swap (stack : OperandStack) : v.Shows v.stack stack.swap (v.stack stack).swap := by
  refine (shows_widths stack 2).bindOk fun wide hwide => ?_
  rw [id]
  split
  · rcases stack with _ | ⟨a, _ | ⟨b, rest⟩⟩
    · cases hwide
    · cases hwide
    · rfl
  · exact .inr rfl

/-- A shuffle looks only at the widths of slots, and not below those it moves. -/
theorem shows_shuffle (s : Shuffle) (stack : OperandStack) :
    v.Shows v.stack (stack.shuffle s) ((v.stack stack).shuffle s) := by
  cases s with
  | pop => exact (shows_popNarrow stack).map fun _ => rfl
  | pop2 => exact shows_pop2 stack
  | dup => exact shows_copyIf .dup _ (by decide) (by decide) stack
  | dupX1 => exact shows_copyIf .dupX1 _ (by decide) (by decide) stack
  | dupX2 => exact shows_dupX2 stack
  | dup2 => exact shows_dup2 stack
  | dup2X1 => exact shows_dup2X1 stack
  | dup2X2 => exact shows_dup2X2 stack
  | swap => exact shows_swap stack

/-- A missing local is there in the view, or the view has no more locals. -/
theorem shows_missing {seen : α → β} {x' : Except Trap β} {index : Nat}
    (h : v.beyond = #[] → x' = .error (.localIndexOutOfBounds index)) :
    v.Shows seen (.error (.localIndexOutOfBounds index)) x' := by
  cases hbeyond : v.beyond.isEmpty with
  | true => exact .inr (h (Array.isEmpty_iff.1 hbeyond))
  | false => exact .inl (by rw [lifts, hbeyond]; rfl)

/-- A local is seen as the view shows it. -/
theorem shows_loadLocals (locals : Locals) (index : Nat) :
    v.Shows v.slot (locals.load index) ((v.locals locals).load index) := by
  unfold Locals.load View.locals
  split
  · rename_i s hs
    obtain ⟨hlt, rfl⟩ := Array.getElem?_eq_some_iff.1 hs
    simp [Shows, hlt, Array.getElem?_append_left]
  · rename_i hs
    refine shows_missing fun h => ?_
    simp [h, hs]

open Execution

/-- A value alone is seen in the view. -/
theorem mirrors_pure (seen : α → β) (a : α) : v.Mirrors seen (pure a) (pure (seen a)) :=
  fun _ => rfl

/-- So is a trap that looks the same in the view. -/
theorem mirrors_throw {seen : α → β} {t : Trap} (h : v.trap t = t) :
    v.Mirrors seen (throw t) (throw t) :=
  fun f => .inr (by rw [h]; rfl)

/-- Who looks at the frame in a view sees the frame as the view shows it. -/
theorem mirrors_get : v.Mirrors v.frame get get := fun _ => rfl

/-- A change is mirrored by one that makes of a shown frame what the view shows of the changed one.
-/
theorem mirrors_modify {change change' : Frame → Frame}
    (h : ∀ f, change' (v.frame f) = v.frame (change f)) :
    v.Mirrors id (modify change) (modify change') :=
  fun f => congrArg (EStateM.Result.ok ()) (h f)

/-- A result that has been computed already is mirrored by one that it is seen as. -/
theorem mirrors_ofExcept {seen : α → β} {x : Except Trap α} {x' : Except Trap β}
    (h : v.Shows seen x x') : v.Mirrors seen (Execution.ofExcept x) (Execution.ofExcept x') := by
  cases x with
  | ok a =>
    cases h
    exact mirrors_pure seen a
  | error t =>
    rcases h with hlifts | rfl
    · exact fun f => .inl hlifts
    · exact fun f => .inr rfl

/-- An action on the stack is mirrored if its result is seen in the view. -/
theorem mirrors_onStack {seen : α → β} {action : OperandStack → Except Trap (α × OperandStack)}
    {action' : OperandStack → Except Trap (β × OperandStack)}
    (h : ∀ stack, v.Shows (Prod.map seen v.stack) (action stack) (action' (v.stack stack))) :
    v.Mirrors seen (onStack action) (onStack action') := by
  intro f
  have hshows := h f.stack
  unfold onStack
  cases hresult : action f.stack with
  | ok result =>
    rw [hresult] at hshows
    dsimp only [frame]
    rw [hshows]
    rfl
  | error t =>
    rw [hresult] at hshows
    rcases hshows with hlifts | hshows
    · exact .inl hlifts
    · refine .inr ?_
      dsimp only [frame]
      rw [hshows]

/-- A push is mirrored by a push of the slot that the view shows. -/
theorem mirrors_push (s : Slot) : v.Mirrors id (push s) (push (v.slot s)) :=
  mirrors_modify fun _ => rfl

/-- Pushing a slot that looks the same in the view. -/
theorem mirrors_push_of_eq {s : Slot} (h : v.slot s = s) : v.Mirrors id (push s) (push s) := by
  have hpush := v.mirrors_push s
  rwa [h] at hpush

/-- Taking the top slot is mirrored if reading it is seen in the view. -/
theorem mirrors_popAs {read : Slot → Except Trap α} {read' : Slot → Except Trap β} {seen : α → β}
    (h : ∀ s, v.Shows seen (read s) (read' (v.slot s))) :
    v.Mirrors seen (onStack (OperandStack.popAs read)) (onStack (OperandStack.popAs read')) :=
  mirrors_onStack (shows_popAs h)

/-- The same int is taken in every view. -/
theorem mirrors_popInt : v.Mirrors id popInt popInt := mirrors_popAs v.shows_asInt

/-- The same long is taken in every view. -/
theorem mirrors_popLong : v.Mirrors id popLong popLong := mirrors_popAs v.shows_asLong

/-- The same float is taken in every view. -/
theorem mirrors_popFloat : v.Mirrors id popFloat popFloat := mirrors_popAs v.shows_asFloat

/-- The same double is taken in every view. -/
theorem mirrors_popDouble : v.Mirrors id popDouble popDouble := mirrors_popAs v.shows_asDouble

/-- A reference is taken as the view shows it. -/
theorem mirrors_popReference : v.Mirrors (Option.map v.reference) popReference popReference :=
  mirrors_popAs v.shows_asReference

/-- A slot is taken as the view shows it. -/
theorem mirrors_pop : v.Mirrors v.slot pop pop := by
  rw [pop, OperandStack.pop_eq_popAs]
  exact mirrors_popAs fun _ => rfl

/-- So is a slot of a kind. -/
theorem mirrors_popOfKind (k : Kind) : v.Mirrors v.slot (popOfKind k) (popOfKind k) :=
  mirrors_popAs fun s => (v.shows_check s k).map fun _ => rfl

/-- The same array is taken in every view, since the heap is the same. -/
theorem mirrors_popArray (op : Opcode) : v.Mirrors id (popArray op) (popArray op) := by
  refine mirrors_popReference.bind fun r => ?_
  cases r with
  | none => exact mirrors_throw rfl
  | some r =>
    refine mirrors_get.bind fun g => ?_
    have harray : (v.frame g).heap.array? (v.reference r) = g.heap.array? r :=
      array?_reference g.heap r
    rw [harray]
    cases g.heap.array? r with
    | some found => exact mirrors_pure id found
    | none => exact mirrors_throw rfl

/-- A local is loaded as the view shows it. -/
theorem mirrors_loadLocal (index : Nat) : v.Mirrors v.slot (loadLocal index) (loadLocal index) :=
  mirrors_get.bind fun g => mirrors_ofExcept (shows_loadLocals g.locals index)

/-- A slot is stored into a local as the view shows it, at the same index. -/
theorem mirrors_storeLocal (index : Nat) (s : Slot) :
    v.Mirrors id (storeLocal index s) (storeLocal index (v.slot s)) := by
  intro f
  unfold storeLocal
  by_cases hlt : index < f.locals.size
  · have hlt' : index < (v.frame f).locals.size := by
      simp only [frame, View.locals, Array.size_append, Array.size_map]
      omega
    have hset : (v.locals f.locals).setIfInBounds index (v.slot s) =
        v.locals (f.locals.setIfInBounds index s) := by
      simp [View.locals, Array.setIfInBounds_append_left, hlt]
    rw [if_pos hlt, if_pos hlt']
    dsimp only [ShowsResult, frame]
    rw [hset]
  · rw [if_neg hlt]
    cases hbeyond : v.beyond.isEmpty with
    | false => exact .inl (by rw [lifts, hbeyond]; rfl)
    | true =>
      have hlt' : ¬index < (v.frame f).locals.size := by
        simpa [frame, View.locals, Array.isEmpty_iff.1 hbeyond] using hlt
      rw [if_neg hlt']
      exact .inr rfl

/-- A new object gets the same position in every view. -/
theorem mirrors_allocate (o : HeapObject) : v.Mirrors v.reference (allocate o) (allocate o) :=
  fun _ => rfl

/-- A jump is mirrored by one past the code in front, from there and to there. -/
theorem mirrors_jump (origin : Nat) (target : Int) :
    v.Mirrors id (jump origin target) (jump (v.front.size + origin) (v.front.size + target)) := by
  refine mirrors_get.bind fun g => ?_
  by_cases hbounds : 0 ≤ target ∧ target < g.code.size
  · have hbounds' : 0 ≤ v.front.size + target ∧ v.front.size + target < (v.frame g).code.size := by
      simp only [frame, View.code, Array.size_append]
      omega
    rw [if_pos hbounds, if_pos hbounds']
    refine mirrors_modify fun f => ?_
    have hpc : (v.front.size + target).toNat = v.front.size + target.toNat := by omega
    rw [hpc]
    rfl
  · rw [if_neg hbounds]
    cases hcode : v.hasCode with
    | true => exact fun _ => .inl hcode
    | false =>
      -- without code around that of the frame, all addresses stay where they are
      obtain ⟨hfront, hback⟩ := front_eq_and_back_eq hcode
      have hbounds' : ¬(0 ≤ v.front.size + target ∧
          v.front.size + target < (v.frame g).code.size) := by
        simpa [frame, View.code, hfront, hback] using hbounds
      rw [if_neg hbounds']
      simp only [hfront, Array.size_empty, Nat.zero_add, Int.natCast_zero, Int.zero_add]
      exact mirrors_throw rfl

/-- So is a jump under a condition. -/
theorem mirrors_jumpIf (condition : Bool) (origin : Nat) (target : Int) :
    v.Mirrors id (jumpIf condition origin target)
      (jumpIf condition (v.front.size + origin) (v.front.size + target)) := by
  unfold jumpIf
  split
  · exact mirrors_jump origin target
  · exact mirrors_pure id ()

/-- One operand is taken, and a number pushed. -/
theorem mirrors_unary {e : Execution α} {result : α → Slot} (he : v.Mirrors id e e)
    (h : ∀ a, v.slot (result a) = result a) :
    v.Mirrors id (do push (result (← e))) (do push (result (← e))) :=
  he.bind fun a => mirrors_push_of_eq (h a)

/-- Two operands are taken, and a number pushed. -/
theorem mirrors_binary {e₁ : Execution α} {e₂ : Execution β} {result : α → β → Slot}
    (he₁ : v.Mirrors id e₁ e₁) (he₂ : v.Mirrors id e₂ e₂)
    (h : ∀ a b, v.slot (result a b) = result a b) :
    v.Mirrors id (do push (result (← e₁) (← e₂))) (do push (result (← e₁) (← e₂))) :=
  he₁.bind fun a => he₂.bind fun b => mirrors_push_of_eq (h a b)

/-- Binary arithmetic gives the same number in every view. -/
theorem mirrors_arithmetic (operator : Arithmetic) (k : NumericKind) :
    v.Mirrors id (arithmetic operator k) (arithmetic operator k) := by
  cases k with
  | int =>
    exact mirrors_popInt.bind fun left => mirrors_popInt.bind fun right =>
      mirrors_unary (mirrors_ofExcept (shows_onInt operator left right)) fun _ => rfl
  | long =>
    exact mirrors_popLong.bind fun left => mirrors_popLong.bind fun right =>
      mirrors_unary (mirrors_ofExcept (shows_onLong operator left right)) fun _ => rfl
  | float => exact mirrors_binary mirrors_popFloat mirrors_popFloat fun _ _ => rfl
  | double => exact mirrors_binary mirrors_popDouble mirrors_popDouble fun _ _ => rfl

/-- Change of sign gives the same number in every view. -/
theorem mirrors_negate (k : NumericKind) : v.Mirrors id (negate k) (negate k) := by
  cases k with
  | int => exact mirrors_unary mirrors_popInt fun _ => rfl
  | long => exact mirrors_unary mirrors_popLong fun _ => rfl
  | float => exact mirrors_unary mirrors_popFloat fun _ => rfl
  | double => exact mirrors_unary mirrors_popDouble fun _ => rfl

/-- A shift gives the same number in every view. -/
theorem mirrors_shift (s : Shift) (k : WordKind) : v.Mirrors id (shift s k) (shift s k) := by
  cases k with
  | int => exact mirrors_binary mirrors_popInt mirrors_popInt fun _ _ => rfl
  | long => exact mirrors_binary mirrors_popInt mirrors_popLong fun _ _ => rfl

/-- A bitwise combination gives the same number in every view. -/
theorem mirrors_bitwise (operator : Bitwise) (k : WordKind) :
    v.Mirrors id (bitwise operator k) (bitwise operator k) := by
  cases k with
  | int => exact mirrors_binary mirrors_popInt mirrors_popInt fun _ _ => rfl
  | long => exact mirrors_binary mirrors_popLong mirrors_popLong fun _ _ => rfl

/-- A comparison gives the same int in every view. -/
theorem mirrors_compare (comparison : Comparison) :
    v.Mirrors id (Execution.compare comparison) (Execution.compare comparison) := by
  cases comparison with
  | long => exact mirrors_binary mirrors_popLong mirrors_popLong fun _ _ => rfl
  | float unordered => exact mirrors_binary mirrors_popFloat mirrors_popFloat fun _ _ => rfl
  | double unordered => exact mirrors_binary mirrors_popDouble mirrors_popDouble fun _ _ => rfl

/-- The same number is taken in every view. -/
theorem mirrors_popNumber (k : NumericKind) : v.Mirrors id (popNumber k) (popNumber k) := by
  cases k with
  | int => exact mirrors_popInt.bind fun _ => mirrors_pure id _
  | long => exact mirrors_popLong.bind fun _ => mirrors_pure id _
  | float => exact mirrors_popFloat.bind fun _ => mirrors_pure id _
  | double => exact mirrors_popDouble.bind fun _ => mirrors_pure id _

/-- The same element is loaded in every view. -/
theorem mirrors_arrayLoad (op : Opcode) : v.Mirrors id (arrayLoad op) (arrayLoad op) := by
  refine mirrors_popInt.bind fun index => (mirrors_popArray op).bind fun found => ?_
  exact (mirrors_ofExcept (shows_load found.2 op index)).bind fun s => mirrors_push s

/-- The same value is stored into an array in every view. -/
theorem mirrors_arrayStore (op : Opcode) : v.Mirrors id (arrayStore op) (arrayStore op) := by
  refine mirrors_pop.bind fun value => mirrors_popInt.bind fun index => ?_
  refine (mirrors_popArray op).bind fun found => ?_
  refine (mirrors_ofExcept (shows_store found.2 op index value)).bind fun stored => ?_
  exact mirrors_modify fun _ => rfl

/-- A new array of the same length is made in every view. -/
theorem mirrors_newArray (element : ElementType) :
    v.Mirrors id (newArray element) (newArray element) := by
  refine mirrors_popInt.bind fun length => ?_
  by_cases hlength : length < 0
  · simp only [id, if_pos hlength]
    exact mirrors_throw rfl
  · simp only [id, if_neg hlength]
    exact (mirrors_allocate _).bind fun r => mirrors_push (.ofReference r)

/-- A frame completes in a view with the value that the view shows. -/
theorem mirrors_complete (k : Option Kind) : v.Mirrors id (complete k) (complete k) := by
  cases k with
  | none => exact mirrors_modify fun _ => rfl
  | some k => exact (mirrors_popOfKind k).bind fun value => mirrors_modify fun _ => rfl

/-- A shuffle is the same in every view. -/
theorem mirrors_shuffle (origin : Nat) (s : Shuffle) :
    v.Mirrors id (execute origin (.shuffle s)) (execute (v.front.size + origin) (.shuffle s)) := by
  unfold execute
  exact mirrors_onStack fun stack => (shows_shuffle s stack).map fun _ => rfl

/-- A branch is mirrored by one to the target past the code in front, and so is the return address
that one to a subroutine pushes. -/
theorem mirrors_branch (origin : Nat) (target : Int) (b : Branch) :
    v.Mirrors id (branch origin target b)
      (branch (v.front.size + origin) (v.front.size + target) b) := by
  cases b with
  | always => exact mirrors_jump origin target
  | subroutine =>
    exact mirrors_get.bind fun g => (mirrors_push (.ofReference (.returnAddress g.pc))).bind
      fun _ => mirrors_jump origin target
  | onInt condition => exact mirrors_popInt.bind fun value => mirrors_jumpIf _ origin target
  | onIntPair condition =>
    exact mirrors_popInt.bind fun left => mirrors_popInt.bind fun right =>
      mirrors_jumpIf _ origin target
  | onReferencePair same =>
    refine mirrors_popReference.bind fun left => mirrors_popReference.bind fun right => ?_
    rw [beq_map_reference]
    exact mirrors_jumpIf _ origin target
  | onNull null =>
    refine mirrors_popReference.bind fun r => ?_
    rw [Option.isNone_map]
    exact mirrors_jumpIf _ origin target

/-- A return from a subroutine goes to the address in its local, which is past the code in front
too. -/
theorem mirrors_returnFromSubroutine (origin index : Nat) :
    v.Mirrors id (returnFromSubroutine origin index)
      (returnFromSubroutine (v.front.size + origin) index) := by
  refine (mirrors_loadLocal index).bind fun s => ?_
  cases s with
  | boolean b =>
    rcases v.slot_boolean b with hslot | hslot
    all_goals
      rw [hslot]
      exact mirrors_throw rfl
  | reference r =>
    match r with
    | some (.returnAddress pc) => exact mirrors_jump origin pc
    | some (.object id) => exact mirrors_throw rfl
    | none => exact mirrors_throw rfl
  | _ => exact mirrors_throw rfl

/-- **An operation does in a view what it does without.** -/
theorem mirrors_execute (origin : Nat) (o : Operation) :
    v.Mirrors id (execute origin o) (execute (v.front.size + origin) (v.operation o)) := by
  cases o with
  | nop => exact mirrors_pure id ()
  | push s => exact mirrors_push s
  | load k index =>
    exact (mirrors_loadLocal index).bind fun s =>
      (mirrors_ofExcept (v.shows_check s k)).bind fun _ => mirrors_push s
  | store k index => exact (mirrors_popOfKind k).bind fun s => mirrors_storeLocal index s
  | increment index delta =>
    exact (mirrors_loadLocal index).bind fun s =>
      (mirrors_ofExcept (v.shows_asInt s)).bind fun value =>
        mirrors_storeLocal index (.int (value + delta))
  | arrayLoad op => exact mirrors_arrayLoad op
  | arrayStore op => exact mirrors_arrayStore op
  | newArray element => exact mirrors_newArray element
  | arrayLength =>
    exact mirrors_unary (mirrors_popArray arrayLengthOpcode) (fun _ => rfl)
  | shuffle s => exact mirrors_shuffle origin s
  | arithmetic k operator => exact mirrors_arithmetic operator k
  | negate k => exact mirrors_negate k
  | shift k s => exact mirrors_shift s k
  | bitwise k operator => exact mirrors_bitwise operator k
  | convert source target =>
    exact mirrors_unary (mirrors_popNumber source) fun n => slot_toSlot n target
  | narrow target => exact mirrors_unary mirrors_popInt fun _ => rfl
  | compare comparison => exact mirrors_compare comparison
  | branch b target => exact mirrors_branch origin target b
  | returnFromSubroutine index => exact mirrors_returnFromSubroutine origin index
  | complete k => exact mirrors_complete k

end View

end MethodMachine
