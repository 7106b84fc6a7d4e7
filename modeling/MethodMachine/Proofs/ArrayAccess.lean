/-
# Storing into arrays and loading from them

An array of primitive values can be seen through slots: `PrimitiveArray.slot?` is the slot that the
value at a position is loaded as.  A store changes what is seen at one position and nothing else,
and is refused for the first of three reasons:

| reason | trap of a store | trap of a load |
| --- | --- | --- |
| the opcode is not that of the element type | `arrayTypeMismatch` | `arrayTypeMismatch` |
| the index is not in bounds | `arrayIndexOutOfBounds` | `arrayIndexOutOfBounds` |
| the slot is not of the kind that the type needs | `typeMismatch` | |

What is loaded after a store need not be the slot that was stored (`ElementType.GivesBack`).  A
byte, a char or a short comes back as the int that the machine makes of it by `i2b`, `i2c` or `i2s`,
though the array keeps the low bits only and the instruction never leaves the int; a boolean comes
back as `0` or `1`; and the other four come back as they are, a boolean among the ints as an int.
-/

import MethodMachine.Proofs.QuietEffects
import MethodMachine.Proofs.Residue

namespace MethodMachine

namespace Opcode

/-- An opcode turns the slot on top of the stack into another, wherever it is carried out. -/
def Turns (op : Opcode) (s r : Slot) : Prop :=
  ∀ (f : Frame) (rest : OperandStack), f.status = .running → f.code[f.pc]? = some op →
    f.stack = s :: rest →
    Frame.step f = .ok () { f with pc := f.pc + 1, steps := f.steps + 1, stack := r :: rest }

end Opcode

namespace ElementType

/-- The kind of slot that is stored into an array of the type. -/
def needs : ElementType → SlotKind
  | long => .long
  | float => .float
  | double => .double
  | _ => .int

/-- A slot can be stored into an array of the type: it has the kind that is needed, or it is a
boolean where an int is. -/
def Accepts (t : ElementType) (s : Slot) : Prop :=
  s.kind = t.needs ∨ t.needs = .int ∧ s.kind = .boolean

/-- The letter that the names of the load and store opcodes of the type begin with. -/
def letter : ElementType → String
  | boolean => "b"
  | byte => "b"
  | char => "c"
  | short => "s"
  | int => "i"
  | long => "l"
  | float => "f"
  | double => "d"

/-- A slot that is stored into an array of the type comes back as another. -/
def GivesBack (t : ElementType) (s r : Slot) : Prop :=
  match t with
  | boolean => ∃ v, s.asInt = .ok v ∧ r = .int (if v = 0 then 0 else 1)
  | byte => Opcode.Turns 0x91 s r
  | char => Opcode.Turns 0x92 s r
  | short => Opcode.Turns 0x93 s r
  | int => ∃ v, s.asInt = .ok v ∧ r = .int v
  | long => r = s
  | float => r = s
  | double => r = s

theorem name?_opcodes (t : ElementType) :
    t.storeOpcode.name? = some (t.letter ++ "astore") ∧
      t.loadOpcode.name? = some (t.letter ++ "aload") := by
  cases t <;> decide +kernel

/-- A slot becomes a value exactly if the type accepts it, and otherwise its kind is to blame. -/
theorem ofSlot_cases (t : ElementType) (s : Slot) :
    (t.Accepts s ∧ ∃ v, t.ofSlot s = .ok v) ∨
      (¬t.Accepts s ∧ t.ofSlot s = .error (.typeMismatch t.needs s.kind)) := by
  cases t <;> cases s <;>
    simp [Accepts, needs, Slot.kind, ofSlot, Slot.asInt, Slot.asLong, Slot.asFloat, Slot.asDouble,
      Except.map]

end ElementType

/-- An opcode without operands is decoded to its operation. -/
theorem Operation.decode_of_plain {code : Code} {address : Nat} {op : Opcode}
    {operation : Operation} (hop : code[address]? = some op)
    (he : Encoding.ofOpcode op = .plain operation) :
    decode code address = .ok (operation, address + 1) := by
  rw [decode, hop]
  show decodeAs code address op (Encoding.ofOpcode op) = _
  rw [he]
  rfl

theorem Execution.popInt_of_cons {f : Frame} {s : Slot} {rest : OperandStack} {v : Int32}
    (hstack : f.stack = s :: rest) (hs : s.asInt = .ok v) :
    popInt f = .ok v { f with stack := rest } :=
  popAs_of_cons Slot.asInt hstack hs

/-- A narrowing opcode turns a slot that is an int into the narrowed int. -/
theorem Opcode.turns_of_narrow (op : Opcode) (target : Narrowing) {s : Slot} {v : Int32}
    (hop : Encoding.ofOpcode op = .plain (.narrow target)) (hs : s.asInt = .ok v) :
    op.Turns s (.int (target.onInt v)) := by
  intro f rest hrunning hcode hstack
  rw [Frame.step_of_decode hrunning (Operation.decode_of_plain hcode hop)]
  have hpop := Execution.popInt_of_cons (f := { f with pc := f.pc + 1, steps := f.steps + 1 })
    hstack hs
  exact Execution.bind_of_ok hpop

theorem exists_of_map {α β : Type} {x : Except Trap α} {change : α → β} {b : β}
    (h : x.map change = .ok b) : ∃ a, x = .ok a ∧ change a = b := by
  cases x with
  | ok a => exact ⟨a, rfl, Except.ok.inj h⟩
  | error t => cases h

namespace ElementType

/-- **A value that was made of a slot is what the type gives back for the slot.** -/
theorem givesBack_toSlot {t : ElementType} {s : Slot} {v : t.Value} (h : t.ofSlot s = .ok v) :
    t.GivesBack s (t.toSlot v) := by
  cases t with
  | boolean =>
    obtain ⟨n, hn, rfl⟩ := exists_of_map h
    refine ⟨n, hn, ?_⟩
    by_cases hzero : n = 0 <;> simp [toSlot, Slot.ofTruth, hzero]
  | byte =>
    obtain ⟨n, hn, rfl⟩ := exists_of_map h
    exact Opcode.turns_of_narrow 0x91 .byte (by decide +kernel) hn
  | char =>
    obtain ⟨n, hn, rfl⟩ := exists_of_map h
    exact Opcode.turns_of_narrow 0x92 .char (by decide +kernel) hn
  | short =>
    obtain ⟨n, hn, rfl⟩ := exists_of_map h
    exact Opcode.turns_of_narrow 0x93 .short (by decide +kernel) hn
  | int => exact ⟨v, h, rfl⟩
  | long =>
    cases s with
    | long n =>
      cases h
      rfl
    | _ => cases h
  | float =>
    cases s with
    | float n =>
      cases h
      rfl
    | _ => cases h
  | double =>
    cases s with
    | double n =>
      cases h
      rfl
    | _ => cases h

end ElementType

/-- A load leaves the heap alone, trap or not. -/
theorem Execution.heap_arrayLoad (op : Opcode) (f : Frame) :
    (left (arrayLoad op f)).heap = f.heap := by
  cases h : arrayLoad op f with
  | ok u g =>
    show g.heap = f.heap
    rw [(quiet_arrayLoad op).change f u g h]
  | error t g =>
    obtain ⟨count, -, rfl⟩ := trapsAfter_arrayLoad op f t g h
    rfl

namespace PrimitiveArray

variable {a b : PrimitiveArray} {op : Opcode} {index : Int32} {s : Slot}

/-- The slot that the value at a position is loaded as. -/
def slot? (a : PrimitiveArray) (i : Nat) : Option Slot :=
  if i < a.size then some (a.element.toSlot (a.get i)) else none

/-- An index denotes a position of the array. -/
def InBounds (a : PrimitiveArray) (index : Int32) : Prop :=
  0 ≤ index.toInt ∧ index.toInt < a.size

theorem InBounds.toNat_lt (h : a.InBounds index) : index.toInt.toNat < a.size := by
  have hlow := h.1
  have hhigh := h.2
  omega

theorem position_of_inBounds (h : a.InBounds index) :
    a.position index = .ok index.toInt.toNat := if_pos h

theorem position_of_not_inBounds (h : ¬a.InBounds index) :
    a.position index = .error (.arrayIndexOutOfBounds index a.size) := if_neg h

/-- Putting a value at a position changes what is seen there, and nothing else. -/
theorem slot?_set {i : Nat} (hi : i < a.size) (v : a.element.Value) (j : Nat) :
    (a.set i v).slot? j = if i = j then some (a.element.toSlot v) else a.slot? j := by
  show (if j < a.size then some (a.element.toSlot ((a.set i v).get j)) else none) = _
  rw [get_set, slot?]
  by_cases hij : i = j
  · subst hij
    rw [if_pos hi, if_pos rfl, if_pos rfl]
  · rw [if_neg hij, if_neg hij]

theorem store_of_opcode_ne (h : op ≠ a.element.storeOpcode) :
    a.store op index s = .error (.arrayTypeMismatch op a.element) := if_neg h

theorem store_of_not_inBounds (hop : op = a.element.storeOpcode) (h : ¬a.InBounds index) :
    a.store op index s = .error (.arrayIndexOutOfBounds index a.size) := by
  rw [store, if_pos hop, position_of_not_inBounds h]
  rfl

/-- With the opcode and the index in order, all depends on the slot. -/
theorem store_of_inBounds (hop : op = a.element.storeOpcode) (h : a.InBounds index) :
    a.store op index s = (a.element.ofSlot s).map (a.set index.toInt.toNat) := by
  rw [store, if_pos hop, position_of_inBounds h]
  cases a.element.ofSlot s <;> rfl

/-- **What a store does that succeeds:** it puts the value of the slot at the position. -/
theorem store_eq_ok (h : a.store op index s = .ok b) :
    op = a.element.storeOpcode ∧ a.InBounds index ∧
      ∃ v, a.element.ofSlot s = .ok v ∧ b = a.set index.toInt.toNat v := by
  by_cases hop : op = a.element.storeOpcode
  · by_cases hindex : a.InBounds index
    · rw [store_of_inBounds hop hindex] at h
      obtain ⟨v, hv, hset⟩ := exists_of_map h
      exact ⟨hop, hindex, v, hv, hset.symm⟩
    · rw [store_of_not_inBounds hop hindex] at h
      cases h
  · rw [store_of_opcode_ne hop] at h
    cases h

theorem load_of_opcode_ne (h : op ≠ a.element.loadOpcode) :
    a.load op index = .error (.arrayTypeMismatch op a.element) := if_neg h

theorem load_of_not_inBounds (hop : op = a.element.loadOpcode) (h : ¬a.InBounds index) :
    a.load op index = .error (.arrayIndexOutOfBounds index a.size) := by
  rw [load, if_pos hop, position_of_not_inBounds h]
  rfl

theorem load_of_inBounds (hop : op = a.element.loadOpcode) (h : a.InBounds index) :
    a.load op index = .ok (a.element.toSlot (a.get index.toInt.toNat)) := by
  rw [load, if_pos hop, position_of_inBounds h]
  rfl

theorem exists_store_eq_ok_iff :
    (∃ b, a.store op index s = .ok b) ↔
      op = a.element.storeOpcode ∧ a.InBounds index ∧ a.element.Accepts s := by
  constructor
  · rintro ⟨b, h⟩
    obtain ⟨hop, hindex, v, hv, -⟩ := store_eq_ok h
    rcases a.element.ofSlot_cases s with ⟨haccepts, -⟩ | ⟨-, herror⟩
    · exact ⟨hop, hindex, haccepts⟩
    · rw [hv] at herror
      cases herror
  · rintro ⟨hop, hindex, haccepts⟩
    rcases a.element.ofSlot_cases s with ⟨-, v, hv⟩ | ⟨hrefuses, -⟩
    · refine ⟨a.set index.toInt.toNat v, ?_⟩
      rw [store_of_inBounds hop hindex, hv]
      rfl
    · exact absurd haccepts hrefuses

theorem store_of_not_accepts (hop : op = a.element.storeOpcode) (hindex : a.InBounds index)
    (h : ¬a.element.Accepts s) :
    a.store op index s = .error (.typeMismatch a.element.needs s.kind) := by
  rcases a.element.ofSlot_cases s with ⟨haccepts, -⟩ | ⟨-, herror⟩
  · exact absurd haccepts h
  · rw [store_of_inBounds hop hindex, herror]
    rfl

theorem exists_load_eq_ok_iff :
    (∃ r, a.load op index = .ok r) ↔ op = a.element.loadOpcode ∧ a.InBounds index := by
  constructor
  · rintro ⟨r, h⟩
    by_cases hop : op = a.element.loadOpcode
    · by_cases hindex : a.InBounds index
      · exact ⟨hop, hindex⟩
      · rw [load_of_not_inBounds hop hindex] at h
        cases h
    · rw [load_of_opcode_ne hop] at h
      cases h
  · rintro ⟨hop, hindex⟩
    exact ⟨_, load_of_inBounds hop hindex⟩

/-- A store keeps the shape of the array and what is seen at all other positions. -/
theorem slot?_of_store (h : a.store op index s = .ok b) :
    b.size = a.size ∧ b.element = a.element ∧
      ∀ j, j ≠ index.toInt.toNat → b.slot? j = a.slot? j := by
  obtain ⟨-, hindex, v, -, rfl⟩ := store_eq_ok h
  refine ⟨rfl, rfl, fun j hj => ?_⟩
  rw [slot?_set hindex.toNat_lt, if_neg hj.symm]

/-- A slot that was stored is loaded as what the type gives back for it. -/
theorem load_of_store (h : a.store op index s = .ok b) :
    ∃ r, b.load a.element.loadOpcode index = .ok r ∧ a.element.GivesBack s r := by
  obtain ⟨-, hindex, v, hv, rfl⟩ := store_eq_ok h
  refine ⟨a.element.toSlot v, ?_, ElementType.givesBack_toSlot hv⟩
  have hload := load_of_inBounds (a := a.set index.toInt.toNat v) rfl hindex
  rw [get_set, if_pos rfl] at hload
  exact hload

/-- **Stored slots come back.**  A store succeeds exactly if the opcode is that of the element type,
the index is in bounds and the slot is of a kind that the type accepts; of several reasons to refuse
it, the first in this order is reported, and the array that the machine holds stays as it was.  A
store that succeeds changes neither the shape of the array nor another position, and the load opcode
of the type then gives back what the type makes of the slot.  A load is refused for the first two
reasons, and for no other, and it never changes an array. -/
theorem stored_slots_come_back (a : PrimitiveArray) (op : Opcode) (index : Int32) (s : Slot) :
    (a.element.storeOpcode.name? = some (a.element.letter ++ "astore") ∧
      a.element.loadOpcode.name? = some (a.element.letter ++ "aload")) ∧
    ((∃ b, a.store op index s = .ok b) ↔
      op = a.element.storeOpcode ∧ a.InBounds index ∧ a.element.Accepts s) ∧
    (op ≠ a.element.storeOpcode →
      a.store op index s = .error (.arrayTypeMismatch op a.element)) ∧
    (op = a.element.storeOpcode → ¬a.InBounds index →
      a.store op index s = .error (.arrayIndexOutOfBounds index a.size)) ∧
    (op = a.element.storeOpcode → a.InBounds index → ¬a.element.Accepts s →
      a.store op index s = .error (.typeMismatch a.element.needs s.kind)) ∧
    (∀ f t g, Execution.arrayStore op f = .error t g → g.heap = f.heap) ∧
    (∀ b, a.store op index s = .ok b →
      (b.size = a.size ∧ b.element = a.element ∧
        ∀ j, j ≠ index.toInt.toNat → b.slot? j = a.slot? j) ∧
      ∃ r, b.load a.element.loadOpcode index = .ok r ∧ a.element.GivesBack s r) ∧
    ((∃ r, a.load op index = .ok r) ↔ op = a.element.loadOpcode ∧ a.InBounds index) ∧
    (op ≠ a.element.loadOpcode →
      a.load op index = .error (.arrayTypeMismatch op a.element)) ∧
    (op = a.element.loadOpcode → ¬a.InBounds index →
      a.load op index = .error (.arrayIndexOutOfBounds index a.size)) ∧
    (∀ f, (Execution.left (Execution.arrayLoad op f)).heap = f.heap) := by
  refine ⟨a.element.name?_opcodes, exists_store_eq_ok_iff, store_of_opcode_ne,
    store_of_not_inBounds, store_of_not_accepts, ?_, ?_, exists_load_eq_ok_iff, load_of_opcode_ne,
    load_of_not_inBounds, Execution.heap_arrayLoad op⟩
  · intro f t g htrap
    obtain ⟨count, -, rfl⟩ := Execution.trapsAfter_arrayStore op f t g htrap
    rfl
  · intro b hstore
    exact ⟨slot?_of_store hstore, load_of_store hstore⟩

end PrimitiveArray

end MethodMachine
