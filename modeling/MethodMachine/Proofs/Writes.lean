/-
# One write at a time

Outside its stack, a frame keeps slots in its locals and in the elements of arrays (`Place`).  The
instruction at hand targets at most one of these places, and which one can be read off the code and
the stack:

| instruction | place |
| --- | --- |
| a store or `iinc`, behind a `wide` or not | the local that it names |
| an array store | the element at the index, and of the array, that it takes off the stack |
| any other | none |

A step changes no other place, and if it traps it changes none (`Frame.Alters.targets`).  A
reference may be held many times over, but a store goes to the one object that it denotes, so all
who hold the reference see the same.

Arrays are not places.  A store replaces an array by one of the same shape, and a new array comes
after all others, so the shape of an array is never lost (`Heap.KeepsShapes`).
-/

import MethodMachine.Proofs.ArrayAccess
import MethodMachine.Proofs.ControlFlow
import MethodMachine.Proofs.Isolation

namespace MethodMachine

/-- What an instruction does with the local that it names. -/
inductive LocalUse where
  | loads
  | writes
deriving DecidableEq

/-- What an instruction does with a local, and the index of the local if the opcode has it. -/
def Opcode.localUse? (op : Opcode) : Option (LocalUse × Option Nat) :=
  let n := op.toNat
  -- iload, lload, fload, dload, aload
  if 0x15 ≤ n ∧ n < 0x1A then some (.loads, none)
  -- iload_0 to aload_3
  else if 0x1A ≤ n ∧ n < 0x2E then some (.loads, some ((n - 0x1A) % 4))
  -- istore, lstore, fstore, dstore, astore
  else if 0x36 ≤ n ∧ n < 0x3B then some (.writes, none)
  -- istore_0 to astore_3
  else if 0x3B ≤ n ∧ n < 0x4F then some (.writes, some ((n - 0x3B) % 4))
  -- iinc
  else if n = 0x84 then some (.writes, none)
  else none

namespace Code

/-- The index of a local that follows an opcode: two bytes behind a `wide`, and otherwise one. -/
def localIndex (code : Code) (address : Nat) : Nat :=
  if code[address]? = some 0xC4 then code.unsigned (address + 2) 2
  else code.unsigned (address + 1) 1

/-- What the instruction at an address does with a local, and with which. -/
def localUse? (code : Code) (address : Nat) : Option (LocalUse × Nat) :=
  (code.opcodeAt? address).bind fun op =>
    op.localUse?.map fun (use, index?) => (use, index?.getD (code.localIndex address))

end Code

/-- What an operation does with a local, and with which. -/
def Operation.localUse? : Operation → Option (LocalUse × Nat)
  | load _ index => some (.loads, index)
  | store _ index => some (.writes, index)
  | increment index _ => some (.writes, index)
  | _ => none

/-- What an encoding does with a local, and the index of the local if the encoding has it. -/
def Encoding.localUse? : Encoding → Option (LocalUse × Option Nat)
  | plain operation => operation.localUse?.map fun (use, index) => (use, some index)
  | indexed access => (access.operation 0).localUse?.map fun (use, _) => (use, none)
  | increment => some (.writes, none)
  | _ => none

theorem Encoding.localUse?_ofOpcode (op : Opcode) : (ofOpcode op).localUse? = op.localUse? := by
  revert op
  refine Opcode.forall_of_fin ?_
  decide +kernel

namespace Operation

variable {code : Code} {address next : Nat} {op : Opcode} {operation : Operation}

theorem localUse?_of_opcodeAt? (hop : code.opcodeAt? address = some op) :
    code.localUse? address = (Encoding.ofOpcode op).localUse?.map fun (use, index?) =>
      (use, index?.getD (code.localIndex address)) := by
  rw [Code.localUse?, hop, Encoding.localUse?_ofOpcode]
  rfl

theorem localUse?_of_decodeWidened (hwide : code[address]? = some 0xC4)
    (h : decodeWidened code address = .ok (operation, next)) :
    code.localUse? address = operation.localUse? := by
  obtain ⟨n, hn, h⟩ := exists_of_bind h
  obtain ⟨index, hindex, h⟩ := exists_of_bind h
  obtain ⟨hle, rfl⟩ := operand_eq_ok hn
  obtain ⟨-, rfl⟩ := operand_eq_ok hindex
  have hinner : code[address + 1]? = some code[address + 1] := Array.getElem?_eq_getElem (by omega)
  have hopcode : code.opcodeAt? address = some code[address + 1] := by
    rw [Code.opcodeAt?, if_pos hwide, hinner]
  have hlocal : code.localIndex address = code.unsigned (address + 2) 2 := if_pos hwide
  rw [ofNat_unsigned_one hinner] at h
  rw [localUse?_of_opcodeAt? hopcode, hlocal]
  dsimp only at h
  split at h
  · rename_i access haccess
    cases h
    rw [haccess]
    cases access <;> rfl
  · rename_i hincrement
    obtain ⟨delta, -, h⟩ := exists_of_bind h
    cases h
    rw [hincrement]
    rfl
  · cases h

/-- **An instruction uses the local that its bytes name.** -/
theorem localUse?_of_decode (h : decode code address = .ok (operation, next)) :
    code.localUse? address = operation.localUse? := by
  unfold decode at h
  split at h
  · cases h
  · rename_i op hop
    by_cases hwide : op = 0xC4
    · subst hwide
      exact localUse?_of_decodeWidened hop h
    · have hnarrow : code[address]? ≠ some 0xC4 := by
        rw [hop]
        exact mt Option.some.inj hwide
      have hopcode : code.opcodeAt? address = some op := by
        rw [Code.opcodeAt?, if_neg hnarrow, hop]
      have hlocal : code.localIndex address = code.unsigned (address + 1) 1 := if_neg hnarrow
      have hne : Encoding.ofOpcode op ≠ .widened := mt (ofOpcode_eq_widened_iff op).1 hwide
      have hallows := allows_decodeAs hne h
      rw [localUse?_of_opcodeAt? hopcode, hlocal]
      cases he : Encoding.ofOpcode op with
      | plain o =>
        rw [he] at h
        cases h
        cases operation <;> rfl
      | indexed access =>
        rw [he] at h
        obtain ⟨index, hindex, h⟩ := exists_of_bind h
        obtain ⟨-, rfl⟩ := operand_eq_ok hindex
        cases h
        cases access <;> rfl
      | increment =>
        rw [he] at h
        obtain ⟨index, hindex, h⟩ := exists_of_bind h
        obtain ⟨-, rfl⟩ := operand_eq_ok hindex
        obtain ⟨delta, -, h⟩ := exists_of_bind h
        cases h
        rfl
      | widened => exact absurd he hne
      | reserved | unsupported =>
        rw [he] at h
        cases h
      | _ =>
        -- what is left has no local, whatever its operand is
        rw [he] at hallows
        obtain ⟨operand, rfl⟩ := hallows
        rfl

/-- Whether the operation, if it stores into an array, is that of the opcode. -/
def storesBy (op : Opcode) : Operation → Bool
  | arrayStore op' => op' = op
  | _ => true

theorem storesBy_of_operation? (op : Opcode) :
    ∀ operation ∈ (Encoding.ofOpcode op).operation?, operation.storesBy op = true := by
  revert op
  refine Opcode.forall_of_fin ?_
  decide +kernel

theorem opcode_of_arrayStore (h : decode code address = .ok (.arrayStore op, next)) :
    code[address]? = some op := by
  obtain ⟨op', hop, hannounces⟩ := announces_decode h
  suffices hstores : (arrayStore op).storesBy op' = true by
    rw [hop, of_decide_eq_true hstores]
  generalize hoperation : arrayStore op = operation at hannounces
  cases hannounces with
  | plain hplain =>
    refine storesBy_of_operation? op' operation ?_
    rw [hplain]
    rfl
  | access a index => cases a <;> cases hoperation
  | _ => cases hoperation

end Operation

/-- A place outside the stack in which a slot is kept. -/
inductive Place where
  | inLocal (index : Nat)
  | inArray (id index : Nat)
deriving DecidableEq

namespace Heap

variable {heap new newer : Heap}

/-- The slot that an element of an array is seen as. -/
def element? (heap : Heap) (id index : Nat) : Option Slot :=
  match heap[id]? with
  | some (.array a) => a.slot? index
  | _ => none

theorem element?_of_array {id : Nat} {a : PrimitiveArray} (h : heap[id]? = some (.array a))
    (index : Nat) : heap.element? id index = a.slot? index := by
  rw [element?, h]

theorem array_of_element? {id index : Nat} {s : Slot} (h : heap.element? id index = some s) :
    ∃ a, heap[id]? = some (.array a) ∧ a.slot? index = some s := by
  unfold element? at h
  split at h
  · rename_i a ha
    exact ⟨a, ha, h⟩
  · cases h

/-- The arrays of a heap are in another too, with the same element types and sizes. -/
def KeepsShapes (heap new : Heap) : Prop :=
  ∀ (id : Nat) (a : PrimitiveArray), heap[id]? = some (.array a) →
    ∃ b : PrimitiveArray, new[id]? = some (.array b) ∧ b.element = a.element ∧ b.size = a.size

theorem KeepsShapes.refl (heap : Heap) : heap.KeepsShapes heap :=
  fun _ a ha => ⟨a, ha, rfl, rfl⟩

theorem KeepsShapes.trans (h : heap.KeepsShapes new) (h' : new.KeepsShapes newer) :
    heap.KeepsShapes newer := by
  intro id a ha
  obtain ⟨b, hb, helement, hsize⟩ := h id a ha
  obtain ⟨c, hc, helement', hsize'⟩ := h' id b hb
  exact ⟨c, hc, helement'.trans helement, hsize'.trans hsize⟩

variable {op : Opcode} {i : Int32} {id : Nat} {a stored : PrimitiveArray} {value s : Slot}

theorem getElem?_push_of_array (ha : heap[id]? = some (.array a)) (o : HeapObject) :
    (heap.push o)[id]? = some (.array a) := by
  obtain ⟨hlt, -⟩ := Array.getElem?_eq_some_iff.1 ha
  rw [Array.getElem?_push, if_neg (Nat.ne_of_lt hlt), ha]

theorem keepsShapes_push (heap : Heap) (o : HeapObject) : heap.KeepsShapes (heap.push o) :=
  fun _ a ha => ⟨a, getElem?_push_of_array ha o, rfl, rfl⟩

theorem getElem?_replace_self (ha : heap[id]? = some (.array a)) :
    (heap.replace id stored)[id]? = some (.array stored) := by
  obtain ⟨hlt, -⟩ := Array.getElem?_eq_some_iff.1 ha
  rw [getElem?_replace, if_pos rfl, if_pos hlt]

theorem keepsShapes_replace (ha : heap[id]? = some (.array a))
    (hstore : a.store op i value = .ok stored) : heap.KeepsShapes (heap.replace id stored) := by
  obtain ⟨hsize, helement, -⟩ := PrimitiveArray.slot?_of_store hstore
  intro id' b hb
  by_cases hid : id = id'
  · subst hid
    cases ha.symm.trans hb
    exact ⟨stored, getElem?_replace_self ha, helement, hsize⟩
  · refine ⟨b, ?_, rfl, rfl⟩
    rw [getElem?_replace, if_neg hid, hb]

/-- Storing into an array changes one element. -/
theorem element?_replace {id' index : Nat} (ha : heap[id]? = some (.array a))
    (hstore : a.store op i value = .ok stored) (hs : heap.element? id' index = some s) :
    (heap.replace id stored).element? id' index = some s ∨ id' = id ∧ index = i.toInt.toNat := by
  obtain ⟨-, -, hothers⟩ := PrimitiveArray.slot?_of_store hstore
  by_cases hid : id = id'
  · subst hid
    by_cases hindex : index = i.toInt.toNat
    · exact .inr ⟨rfl, hindex⟩
    · refine .inl ?_
      rw [element?_of_array (getElem?_replace_self ha), hothers index hindex,
        ← element?_of_array ha, hs]
  · refine .inl ?_
    rw [element?, getElem?_replace, if_neg hid]
    exact hs

theorem element?_push {index : Nat} (hs : heap.element? id index = some s) (o : HeapObject) :
    element? (heap.push o) id index = some s := by
  obtain ⟨a, ha, hslot⟩ := array_of_element? hs
  rw [element?_of_array (getElem?_push_of_array ha o), hslot]

end Heap

namespace Frame

/-- The slot that is kept in a place. -/
def contents? (f : Frame) : Place → Option Slot
  | .inLocal index => f.locals[index]?
  | .inArray id index => f.heap.element? id index

/-- The place that the instruction at hand is about to write. -/
inductive Targets (f : Frame) : Place → Prop where
  | inLocal {index : Nat} : f.code.localUse? f.pc = some (.writes, index) →
    Targets f (.inLocal index)
  | inArray {value index : Slot} {i : Int32} {id : Nat} {a : PrimitiveArray}
    {rest : OperandStack} : f.code[f.pc]? = some a.element.storeOpcode →
    f.stack = value :: index :: .ofReference (.object id) :: rest → index.asInt = .ok i →
    f.heap[id]? = some (.array a) → a.InBounds i → Targets f (.inArray id i.toInt.toNat)

/-- A step changes what is kept in a place. -/
def Alters (f : Frame) (p : Place) : Prop :=
  ∃ s, f.contents? p = some s ∧ f.next.contents? p ≠ some s

end Frame

namespace Operation.Makes

variable {operation : Operation} {f g : Frame} {p : Place} {s : Slot}

/-- What an operation changes outside the stack is one local that it writes, or one element of an
array that it takes off the stack. -/
theorem contents? (h : operation.Makes f g) (hs : f.contents? p = some s) :
    g.contents? p = some s ∨
    (∃ index, operation.localUse? = some (.writes, index) ∧ p = .inLocal index) ∨
    ∃ (value index : Slot) (i : Int32) (id : Nat) (a : PrimitiveArray) (rest : OperandStack),
      operation = .arrayStore a.element.storeOpcode ∧
      f.stack = value :: index :: .ofReference (.object id) :: rest ∧ index.asInt = .ok i ∧
      f.heap[id]? = some (.array a) ∧ a.InBounds i ∧ p = .inArray id i.toInt.toNat := by
  -- a local that is not the one written is as it was
  have hlocal (index : Nat) (new : Slot) :
      { f with locals := f.locals.setIfInBounds index new }.contents? p = some s ∨
        p = .inLocal index := by
    cases p with
    | inLocal index' =>
      by_cases hindex : index = index'
      · exact .inr (congrArg _ hindex.symm)
      · refine .inl ?_
        show (f.locals.setIfInBounds index new)[index']? = some s
        rw [Array.getElem?_setIfInBounds_ne hindex]
        exact hs
    | inArray id index' => exact .inl hs
  cases h with
  | @stores kind index new rest hstore _ _ _ =>
    subst hstore
    exact (hlocal index new).imp_right fun hp => .inl ⟨index, rfl, hp⟩
  | @increments index delta v old hincrement _ _ =>
    subst hincrement
    exact (hlocal index _).imp_right fun hp => .inl ⟨index, rfl, hp⟩
  | @storesElement op value index i id a stored rest hop hstack hindex hobject hstore =>
    cases p with
    | inLocal index' => exact .inl hs
    | inArray id' index' =>
      refine (Heap.element?_replace hobject hstore hs).imp_right ?_
      rintro ⟨rfl, rfl⟩
      obtain ⟨rfl, hbounds, -⟩ := PrimitiveArray.store_eq_ok hstore
      exact .inr ⟨value, index, i, _, a, rest, hop, hstack, hindex, hobject, hbounds, rfl⟩
  | allocates =>
    cases p with
    | inLocal index => exact .inl hs
    | inArray id index => exact .inl (Heap.element?_push hs _)
  | goes | completes | completesWith =>
    cases p with
    | inLocal index => exact .inl hs
    | inArray id index => exact .inl hs

theorem keepsShapes (h : operation.Makes f g) : f.heap.KeepsShapes g.heap := by
  cases h with
  | storesElement _ _ _ hobject hstore => exact Heap.keepsShapes_replace hobject hstore
  | allocates => exact Heap.keepsShapes_push _ _
  | _ => exact Heap.KeepsShapes.refl _

end Operation.Makes

/-- A reference to an array on the stack is taken for the array. -/
theorem Execution.popArray_of_cons (op : Opcode) {f : Frame} {id : Nat} {a : PrimitiveArray}
    {rest : OperandStack} (hstack : f.stack = .ofReference (.object id) :: rest)
    (hobject : f.heap[id]? = some (.array a)) :
    popArray op f = .ok (id, a) { f with stack := rest } := by
  have hpop : popReference f = .ok (some (.object id)) { f with stack := rest } :=
    popAs_of_cons Slot.asReference hstack rfl
  have harray : f.heap.array? (.object id) = some (id, a) := by
    rw [Heap.array?, hobject]
  have hget : (get : Execution Frame) { f with stack := rest } =
      .ok { f with stack := rest } { f with stack := rest } := rfl
  refine (bind_of_ok hpop).trans ((bind_of_ok hget).trans ?_)
  dsimp only
  rw [harray]
  rfl

namespace Frame

variable {f g : Frame} {p q : Place} {s : Slot} {t : Trap} {u : Unit}

/-- A trap changes nothing outside the stack. -/
theorem contents?_of_step_eq_error (h : step f = .error t g) (p : Place) :
    g.contents? p = f.contents? p := by
  rcases step_eq_error h with ⟨-, rfl⟩ | ⟨operation, next, -, -, hg⟩
  · rfl
  · rw [hg]
    cases p <;> rfl

/-- **A step changes only what it targets**, and only if it succeeds. -/
theorem Alters.targets (h : f.Alters p) : f.trap? = none ∧ f.Targets p := by
  obtain ⟨s, hs, hchanged⟩ := h
  constructor
  · cases htrap : f.trap? with
    | none => rfl
    | some t =>
      refine absurd hs ?_
      rw [next] at hchanged
      rw [trap?] at htrap
      cases hstep : step f with
      | ok u g =>
        rw [hstep] at htrap
        cases htrap
      | error t g =>
        rw [hstep] at hchanged
        rwa [← contents?_of_step_eq_error hstep p]
  · rcases next_cases f with hnext | ⟨operation, pc, -, hdecode, hmakes⟩
    · rw [hnext] at hchanged
      exact absurd hs hchanged
    · have hbefore : { f with pc := pc, steps := f.steps + 1 }.contents? p = some s := by
        cases p <;> exact hs
      rcases hmakes.contents? hbefore with hkept | ⟨index, huse, rfl⟩ |
        ⟨value, index, i, id, a, rest, rfl, hstack, hindex, hobject, hbounds, rfl⟩
      · exact absurd hkept hchanged
      · exact .inLocal ((Operation.localUse?_of_decode hdecode).trans huse)
      · exact .inArray (Operation.opcode_of_arrayStore hdecode) hstack hindex hobject hbounds

/-- An element is altered for all who refer to its array: here the store goes through the stack, and
a local refers to the same array. -/
example :
    let f : Frame := { new #[0x4F] 1 #[.array (.new .int 2)] with
      stack := [.int 7, .int 1, .ofReference (.object 0)]
      locals := #[.ofReference (.object 0)] }
    f.Alters (.inArray 0 1) :=
  ⟨.int 0, rfl, by decide +kernel⟩

/-- An array store names no local. -/
theorem localUse?_of_storeOpcode {code : Code} {address : Nat} {element : ElementType}
    (h : code[address]? = some element.storeOpcode) : code.localUse? address = none := by
  have hnone : element.storeOpcode ≠ 0xC4 ∧ element.storeOpcode.localUse? = none := by
    cases element <;> decide
  have hopcode : code.opcodeAt? address = some element.storeOpcode := by
    rw [Code.opcodeAt?, h, if_neg (mt Option.some.inj hnone.1)]
  rw [Code.localUse?, hopcode, Option.bind_some, hnone.2]
  rfl

/-- **An instruction targets at most one place.** -/
theorem Targets.unique (hp : f.Targets p) (hq : f.Targets q) : p = q := by
  cases hp with
  | inLocal huse =>
    cases hq with
    | inLocal huse' =>
      cases huse.symm.trans huse'
      rfl
    | inArray hop _ _ _ _ =>
      rw [localUse?_of_storeOpcode hop] at huse
      cases huse
  | inArray hop hstack hindex _ _ =>
    cases hq with
    | inLocal huse =>
      rw [localUse?_of_storeOpcode hop] at huse
      cases huse
    | inArray _ hstack' hindex' _ _ =>
      cases hstack.symm.trans hstack'
      cases hindex.symm.trans hindex'
      rfl

theorem keepsShapes_next (f : Frame) : f.heap.KeepsShapes f.next.heap := by
  rcases next_cases f with hnext | ⟨operation, pc, -, -, hmakes⟩
  · rw [hnext]
    exact Heap.KeepsShapes.refl _
  · exact hmakes.keepsShapes

/-- Arrays keep their shapes forever. -/
theorem keepsShapes_after (f : Frame) (n : Nat) : f.heap.KeepsShapes (f.after n).heap := by
  refine after_induction (motive := fun g => f.heap.KeepsShapes g.heap) ?_ ?_ n
  · exact Heap.KeepsShapes.refl _
  · intro g hkeeps
    exact hkeeps.trans (keepsShapes_next g)

theorem size_locals_after (f : Frame) (n : Nat) : (f.after n).locals.size = f.locals.size := by
  refine after_induction (motive := fun g => g.locals.size = f.locals.size) rfl ?_ n
  intro g hsize
  rcases next_cases g with hnext | ⟨operation, pc, -, -, hmakes⟩
  · rw [hnext, hsize]
  · exact hmakes.size_locals.trans hsize

/-- A place that is not altered on the way is as it was. -/
theorem contents?_after {n : Nat} (hs : f.contents? p = some s)
    (h : ∀ m < n, ¬(f.after m).Alters p) : (f.after n).contents? p = some s := by
  induction n with
  | zero => exact hs
  | succ n ih =>
    have hbefore := ih fun m hm => h m (Nat.lt_succ_of_lt hm)
    exact Decidable.byContradiction fun hchanged => h n (Nat.lt_succ_self n) ⟨s, hbefore, hchanged⟩

/-- A local that no store on the way names is as it was. -/
theorem getElem?_locals_after {n index : Nat} (hs : f.locals[index]? = some s)
    (h : ∀ m < n, (f.after m).trap? = none →
      f.code.localUse? (f.after m).pc ≠ some (.writes, index)) :
    (f.after n).locals[index]? = some s := by
  refine contents?_after (p := .inLocal index) hs fun m hm halters => ?_
  obtain ⟨htrap, htargets⟩ := halters.targets
  cases htargets with
  | inLocal huse =>
    rw [code_after] at huse
    exact h m hm htrap huse

/-- A load that succeeds pushes the slot in the local that it names. -/
theorem stack_of_load {index : Nat} (huse : f.code.localUse? f.pc = some (.loads, index))
    (hs : f.locals[index]? = some s) (h : f.trap? = none) : f.next.stack = s :: f.stack := by
  have hstep := trap?_eq_none_iff.1 h
  rcases step_cases f with ⟨t, herror, -⟩ | ⟨operation, pc, hdecode, hexecute⟩
  · rw [hstep] at herror
    cases herror
  · rw [hstep] at hexecute
    rw [Operation.localUse?_of_decode hdecode] at huse
    cases operation with
    | load kind index' =>
      cases huse
      obtain ⟨s', f', hload, hrest⟩ := Execution.bind_eq_ok hexecute.symm
      obtain ⟨hlocal, rfl⟩ := Execution.loadLocal_eq_ok hload
      obtain ⟨_, f'', hcheck, hpush⟩ := Execution.bind_eq_ok hrest
      obtain ⟨-, rfl⟩ := Execution.ofExcept_eq_ok hcheck
      cases hs.symm.trans hlocal
      rw [← (EStateM.Result.ok.inj hpush).2]
    | _ => cases huse

/-- `newarray` with a length that is not negative makes an array of that length. -/
theorem step_of_newArray {type : UInt8} {element : ElementType} {length : Slot} {n : Int32}
    {rest : OperandStack} (hrunning : f.status = .running) (hop : f.code[f.pc]? = some 0xBC)
    (htype : f.code[f.pc + 1]? = some type) (helement : ElementType.ofCode? type = some element)
    (hstack : f.stack = length :: rest) (hlength : length.asInt = .ok n) (hn : 0 ≤ n.toInt) :
    step f = .ok () { f with
      pc := f.pc + 2
      steps := f.steps + 1
      stack := .ofReference (.object f.heap.size) :: rest
      heap := f.heap.push (.array (.new element n.toInt.toNat)) } := by
  have hdecode : Operation.decode f.code f.pc = .ok (.newArray element, f.pc + 2) := by
    have hle : f.pc + 1 + 1 ≤ f.code.size := (Array.getElem?_eq_some_iff.1 htype).1
    rw [Operation.decode, hop]
    show Operation.decodeAs f.code f.pc 0xBC .arrayType = _
    simp only [Operation.decodeAs, Operation.operand_of_le hle, bind, Except.bind,
      Operation.ofNat_unsigned_one htype, helement]
    rfl
  have hpop := Execution.popInt_of_cons (f := { f with pc := f.pc + 2, steps := f.steps + 1 })
    hstack hlength
  have hnonneg : ¬n < 0 := by
    rw [Int32.lt_iff_toInt_lt]
    exact Int.not_lt.2 hn
  rw [step_of_decode hrunning hdecode]
  refine (Execution.bind_of_ok hpop).trans ?_
  rw [if_neg hnonneg]
  rfl

/-- `arraylength` pushes the size of the array that it takes. -/
theorem step_of_arrayLength {id : Nat} {a : PrimitiveArray} {rest : OperandStack}
    (hrunning : f.status = .running) (hop : f.code[f.pc]? = some 0xBE)
    (hstack : f.stack = .ofReference (.object id) :: rest)
    (hobject : f.heap[id]? = some (.array a)) :
    step f = .ok () { f with
      pc := f.pc + 1, steps := f.steps + 1, stack := .int (Int32.ofNat a.size) :: rest } := by
  have hdecode : Operation.decode f.code f.pc = .ok (.arrayLength, f.pc + 1) :=
    Operation.decode_of_plain hop (by decide +kernel)
  have hpop := Execution.popArray_of_cons Execution.arrayLengthOpcode
    (f := { f with pc := f.pc + 1, steps := f.steps + 1 }) hstack hobject
  rw [step_of_decode hrunning hdecode]
  exact Execution.bind_of_ok hpop

/-- However many steps come between, `arraylength` pushes what `newarray` took for the length. -/
theorem stack_of_arrayLength {id m : Nat} {element : ElementType} {n : Int32} {rest : OperandStack}
    (hobject : f.heap[id]? = some (.array (.new element n.toInt.toNat))) (hn : 0 ≤ n.toInt)
    (hrunning : (f.after m).status = .running)
    (hop : f.code[(f.after m).pc]? = some 0xBE)
    (hstack : (f.after m).stack = .ofReference (.object id) :: rest) :
    (f.after m).trap? = none ∧ (f.after (m + 1)).stack = .int n :: rest := by
  obtain ⟨a, ha, -, hsize⟩ := keepsShapes_after f m id _ hobject
  have hlength : Int32.ofNat a.size = n := by
    rw [hsize]
    show Int32.ofNat n.toInt.toNat = n
    rw [← Int32.ofInt_eq_ofNat, Int.toNat_of_nonneg hn, Int32.ofInt_toInt]
  rw [← code_after f m] at hop
  have hstep := step_of_arrayLength hrunning hop hstack ha
  rw [hlength] at hstep
  rw [trap?, after, next, hstep]
  exact ⟨rfl, rfl⟩

/-- **A step writes at most one place, and arrays keep their shapes.**  What a step changes outside
the stack is what its instruction targets: the local that a store or an increment names, or the
element at the index that an array store takes, of the array that it takes.  There is never more
than one such place, and none if the step traps.  However many steps are made, there are as many
locals as before, and all arrays have the element types and sizes that they had.  So a load pushes
the very slot that was in its local, if no step on the way has gone through that stores to it; and
whatever happens to a new array, `arraylength` pushes the length that it was made with. -/
theorem steps_write_one_place (f : Frame) :
    (∀ p, f.Alters p → f.trap? = none ∧ f.Targets p) ∧
    (∀ p q, f.Alters p → f.Alters q → p = q) ∧
    (∀ n, (f.after n).locals.size = f.locals.size ∧ f.heap.KeepsShapes (f.after n).heap) ∧
    (∀ n index s, f.locals[index]? = some s →
      (∀ m < n, (f.after m).trap? = none →
        f.code.localUse? (f.after m).pc ≠ some (.writes, index)) →
      f.code.localUse? (f.after n).pc = some (.loads, index) → (f.after n).trap? = none →
      (f.after (n + 1)).stack = s :: (f.after n).stack) ∧
    (∀ type element length n rest, f.status = .running → f.code[f.pc]? = some 0xBC →
      f.code[f.pc + 1]? = some type → ElementType.ofCode? type = some element →
      f.stack = length :: rest → length.asInt = .ok n → 0 ≤ n.toInt →
      f.trap? = none ∧ f.next.stack = .ofReference (.object f.heap.size) :: rest ∧
      ∀ m rest', (f.next.after m).status = .running →
        f.code[(f.next.after m).pc]? = some 0xBE →
        (f.next.after m).stack = .ofReference (.object f.heap.size) :: rest' →
        (f.next.after m).trap? = none ∧ (f.next.after (m + 1)).stack = .int n :: rest') := by
  refine ⟨fun p => Alters.targets, ?_, ?_, ?_, ?_⟩
  · intro p q hp hq
    exact hp.targets.2.unique hq.targets.2
  · intro n
    exact ⟨size_locals_after f n, keepsShapes_after f n⟩
  · intro n index s hs hkept huse htrap
    rw [← code_after f n] at huse
    exact stack_of_load huse (getElem?_locals_after hs hkept) htrap
  · intro type element length n rest hrunning hop htype helement hstack hlength hn
    have hstep := step_of_newArray hrunning hop htype helement hstack hlength hn
    have hnext : f.next = _ := congrArg Execution.left hstep
    refine ⟨?_, ?_, ?_⟩
    · rw [trap?, hstep]
    · rw [hnext]
      rfl
    · intro m rest' hrunning' hop' hstack'
      have hobject : f.next.heap[f.heap.size]? =
          some (.array (.new element n.toInt.toNat)) := by
        rw [hnext]
        exact Array.getElem?_push_size
      rw [← code_next f] at hop'
      exact stack_of_arrayLength hobject hn hrunning' hop' hstack'

end Frame

end MethodMachine
