/-
# An increment is a load, a constant, a sum and a store

`iinc` adds a constant to a local without touching the stack.  The same can be written with four
instructions, and both have an encoding for indices of one byte and one for indices of two:

| increment | instructions that it stands for |
| --- | --- |
| `iinc i d` | `iload i`, `bipush d`, `iadd`, `istore i` |
| `wide iinc i d` | `wide iload i`, `sipush d`, `iadd`, `wide istore i` |

The index is read without a sign and the constant with one, in either encoding.  All depends on what
the local is as an int (`Locals.loadInt`).  If it is one, a boolean among them, the sum is stored
over it either way.  If it is not, or if there is no such local, then `iinc` and the load fail
alike, and the load is the only one of the four that can: nothing has been pushed by then.
-/

import MethodMachine.Proofs.Integers
import MethodMachine.Proofs.ReturnAddresses
import MethodMachine.Proofs.RoundTrip

namespace MethodMachine

namespace Code

variable {code : Code} {start : Nat} {bytes : List UInt8}

theorem Holds.of_cons {b : UInt8} (h : code.Holds start (b :: bytes)) :
    code[start]? = some b ∧ code.Holds (start + 1) bytes := by
  have hsplit : code.Holds start ([b] ++ bytes) := h
  exact ⟨h.getElem? (k := 0) (Nat.succ_pos _), (holds_append.1 hsplit).2⟩

theorem Holds.extract (h : code.Holds start bytes) (hne : bytes ≠ []) :
    start + bytes.length ≤ code.size ∧
      (code.extract start (start + bytes.length)).toList = bytes := by
  have hslice := h.slice? (k := 0) (n := bytes.length) (by omega) hne
  rwa [Nat.add_zero, List.drop_zero, List.take_length, slice?_eq_some_iff] at hslice

/-- Bytes that the code holds are read as the number that they stand for. -/
theorem Holds.operand {count : Nat} (h : code.Holds start bytes) (hcount : bytes.length = count)
    (hpos : 0 < count) : Operation.operand code start count = .ok (unsignedWord bytes) := by
  subst hcount
  obtain ⟨hle, hbytes⟩ := h.extract (List.ne_nil_of_length_pos hpos)
  rw [Operation.operand_of_le hle, unsigned_eq_unsignedWord hle, hbytes]

theorem Holds.signedOperand {count : Nat} (h : code.Holds start bytes)
    (hcount : bytes.length = count) (hpos : 0 < count) :
    Operation.signedOperand code start count = .ok (signedWord bytes) := by
  subst hcount
  obtain ⟨hle, hbytes⟩ := h.extract (List.ne_nil_of_length_pos hpos)
  rw [Operation.signedOperand_of_le hle, Operation.signed_eq_signedWord hle, hbytes]

end Code

namespace Operation

variable {code : Code} {address index : Nat} {op : Opcode}

theorem decodeWidened_of_indexed {access : LocalAccess} (hop : code[address + 1]? = some op)
    (hindex : operand code (address + 2) 2 = .ok index)
    (he : Encoding.ofOpcode op = .indexed access) :
    decodeWidened code address = .ok (access.operation index, address + 4) := by
  have hle : address + 1 + 1 ≤ code.size := (Array.getElem?_eq_some_iff.1 hop).1
  simp only [decodeWidened, operand_of_le hle, hindex, ofNat_unsigned_one hop, he, bind,
    Except.bind]
  rfl

theorem decodeWidened_of_increment {delta : Int} (hop : code[address + 1]? = some op)
    (hindex : operand code (address + 2) 2 = .ok index)
    (he : Encoding.ofOpcode op = .increment)
    (hdelta : signedOperand code (address + 4) 2 = .ok delta) :
    decodeWidened code address = .ok (.increment index (Int32.ofInt delta), address + 6) := by
  have hle : address + 1 + 1 ≤ code.size := (Array.getElem?_eq_some_iff.1 hop).1
  simp only [decodeWidened, operand_of_le hle, hindex, ofNat_unsigned_one hop, he, hdelta, bind,
    Except.bind]
  rfl

end Operation

/-- An increment of a local by a constant, in one of its two encodings. -/
inductive Increment where
  | narrow (index : UInt8) (delta : Int8)
  | wide (index : UInt16) (delta : Int16)
deriving DecidableEq

namespace Increment

/-- The local that is incremented. -/
def index : Increment → Nat
  | narrow index _ => index.toNat
  | wide index _ => index.toNat

/-- What is added to it. -/
def delta : Increment → Int32
  | narrow _ delta => delta.toInt32
  | wide _ delta => delta.toInt32

/-- How many bytes the index and the constant take each. -/
def size : Increment → Nat
  | narrow _ _ => 1
  | wide _ _ => 2

/-- The bytes of the index. -/
def indexBytes : Increment → List UInt8
  | narrow index _ => [index]
  | wide index _ => bigEndian 2 index.toNat

/-- The bytes of the constant. -/
def deltaBytes : Increment → List UInt8
  | narrow _ delta => [delta.toUInt8]
  | wide _ delta => bigEndian 2 delta.toInt

/-- An opcode as it stands before an index, after `wide` (`0xC4`) if the index takes two bytes. -/
def modified (op : Opcode) : Increment → List UInt8
  | narrow _ _ => [op]
  | wide _ _ => [0xC4, op]

/-- The opcode that pushes the constant, `bipush` or `sipush`. -/
def pushOpcode : Increment → Opcode
  | narrow _ _ => 0x10
  | wide _ _ => 0x11

/-- The bytes of the increment, `iinc` (`0x84`). -/
def bytes (i : Increment) : List UInt8 := i.modified 0x84 ++ i.indexBytes ++ i.deltaBytes

/-- The bytes of the four instructions that it stands for: `iload` (`0x15`), the constant, `iadd`
(`0x60`) and `istore` (`0x36`). -/
def expansion (i : Increment) : List UInt8 :=
  (i.modified 0x15 ++ i.indexBytes) ++ (i.pushOpcode :: i.deltaBytes) ++ [0x60] ++
    (i.modified 0x36 ++ i.indexBytes)

theorem length_indexBytes (i : Increment) : i.indexBytes.length = i.size := by
  cases i <;> rfl

theorem length_deltaBytes (i : Increment) : i.deltaBytes.length = i.size := by
  cases i <;> rfl

theorem size_pos (i : Increment) : 0 < i.size := by
  cases i <;> simp [size]

variable {i : Increment} {code : Code} {start : Nat}

/-- The index is read off the code. -/
theorem operand_of_indexBytes (h : code.Holds start i.indexBytes) :
    Operation.operand code start i.size = .ok i.index := by
  have hvalue : unsignedWord i.indexBytes = i.index := by
    cases i with
    | narrow index delta => simp [indexBytes, Increment.index, unsignedWord]
    | wide index delta =>
      have hbytes : (unsignedWord (bigEndian 2 index.toNat) : Int) = index.toNat % (65536 : Nat) :=
        unsignedWord_bigEndian 2 index.toNat
      have hlt : index.toNat < 65536 := index.toNat_lt
      show unsignedWord (bigEndian 2 index.toNat) = index.toNat
      omega
  rw [h.operand i.length_indexBytes i.size_pos, hvalue]

/-- The constant is read off the code, with its sign. -/
theorem signedOperand_of_deltaBytes (h : code.Holds start i.deltaBytes) :
    Operation.signedOperand code start i.size = .ok i.delta.toInt := by
  have hvalue : signedWord i.deltaBytes = i.delta.toInt := by
    cases i with
    | narrow index delta => exact (signedWord_toUInt8 delta).trans delta.toInt_toInt32.symm
    | wide index delta => exact (signedWord_bigEndian_int16 delta).trans delta.toInt_toInt32.symm
  rw [h.signedOperand i.length_deltaBytes i.size_pos, hvalue]

/-- An opcode with an index is decoded to its operation on the local. -/
theorem decode_of_access (op : Opcode) (access : LocalAccess)
    (hop : Encoding.ofOpcode op = .indexed access)
    (h : code.Holds start (i.modified op ++ i.indexBytes)) :
    Operation.decode code start =
      .ok (access.operation i.index, start + (i.modified op ++ i.indexBytes).length) := by
  obtain ⟨hopcode, hindex⟩ := Code.holds_append.1 h
  have hread := operand_of_indexBytes hindex
  -- `wide` is an opcode of its own, which decodes the one after it
  cases i with
  | narrow index delta =>
    have hfirst : code[start]? = some op := hopcode.of_cons.1
    have hindex : Operation.operand code (start + 1) 1 = .ok index.toNat := hread
    rw [Operation.decode, hfirst]
    show Operation.decodeAs code start op (Encoding.ofOpcode op) = _
    rw [hop, Operation.decodeAs, hindex]
    rfl
  | wide index delta =>
    have hfirst : code[start]? = some 0xC4 := hopcode.of_cons.1
    have hsecond : code[start + 1]? = some op := hopcode.of_cons.2.of_cons.1
    have hindex : Operation.operand code (start + 2) 2 = .ok index.toNat := hread
    rw [Operation.decode, hfirst]
    exact Operation.decodeWidened_of_indexed hsecond hindex hop

theorem decode_of_bytes (h : code.Holds start i.bytes) :
    Operation.decode code start =
      .ok (.increment i.index i.delta, start + i.bytes.length) := by
  obtain ⟨haccess, hdelta⟩ := Code.holds_append.1 h
  obtain ⟨hopcode, hindex⟩ := Code.holds_append.1 haccess
  have hread := operand_of_indexBytes hindex
  have hsigned := signedOperand_of_deltaBytes hdelta
  have hvalue : Int32.ofInt i.delta.toInt = i.delta := i.delta.ofInt_toInt
  cases i with
  | narrow index delta =>
    have hfirst : code[start]? = some 0x84 := hopcode.of_cons.1
    have hindex : Operation.operand code (start + 1) 1 = .ok index.toNat := hread
    have hdelta : Operation.signedOperand code (start + 2) 1 = .ok delta.toInt32.toInt := hsigned
    rw [Operation.decode, hfirst]
    show Operation.decodeAs code start 0x84 .increment = _
    rw [Operation.decodeAs, hindex]
    show Operation.signedOperand code (start + 2) 1 >>= _ = _
    rw [hdelta, ← hvalue]
    rfl
  | wide index delta =>
    have hfirst : code[start]? = some 0xC4 := hopcode.of_cons.1
    have hsecond : code[start + 1]? = some 0x84 := hopcode.of_cons.2.of_cons.1
    have hindex : Operation.operand code (start + 2) 2 = .ok index.toNat := hread
    have hdelta : Operation.signedOperand code (start + 4) 2 = .ok delta.toInt32.toInt := hsigned
    rw [Operation.decode, hfirst, ← hvalue]
    exact Operation.decodeWidened_of_increment hsecond hindex (by decide +kernel) hdelta

theorem decode_of_push (h : code.Holds start (i.pushOpcode :: i.deltaBytes)) :
    Operation.decode code start =
      .ok (.push (.int i.delta), start + (i.pushOpcode :: i.deltaBytes).length) := by
  obtain ⟨hopcode, hdelta⟩ := h.of_cons
  have hsigned := signedOperand_of_deltaBytes hdelta
  have hvalue : Int32.ofInt i.delta.toInt = i.delta := i.delta.ofInt_toInt
  rw [Operation.decode, hopcode, ← hvalue]
  cases i with
  | narrow index delta =>
    show Operation.decodeAs code start 0x10 .constantByte = _
    have hdelta : Operation.signedOperand code (start + 1) 1 = .ok delta.toInt32.toInt := hsigned
    rw [Operation.decodeAs, hdelta]
    rfl
  | wide index delta =>
    show Operation.decodeAs code start 0x11 .constantShort = _
    have hdelta : Operation.signedOperand code (start + 1) 2 = .ok delta.toInt32.toInt := hsigned
    rw [Operation.decodeAs, hdelta]
    rfl

/-- The four instructions stand one after the other. -/
theorem decode_of_expansion (h : code.Holds start i.expansion) :
    ∃ p q r, Operation.decode code start = .ok (.load .int i.index, p) ∧
      Operation.decode code p = .ok (.push (.int i.delta), q) ∧
      Operation.decode code q = .ok (.arithmetic .int .add, r) ∧
      Operation.decode code r = .ok (.store .int i.index, start + i.expansion.length) := by
  obtain ⟨hfront, hstore⟩ := Code.holds_append.1 h
  obtain ⟨hfront, hadd⟩ := Code.holds_append.1 hfront
  obtain ⟨hload, hpush⟩ := Code.holds_append.1 hfront
  have hloaded := decode_of_access 0x15 (.load .int) (by decide +kernel) hload
  have hpushed := decode_of_push hpush
  have hadded := Operation.decode_of_plain hadd.of_cons.1 (Arithmetic.add.ofOpcode_opcode .int)
  have hstored := decode_of_access 0x36 (.store .int) (by decide +kernel) hstore
  have hlast (bytes : List UInt8) : (bytes ++ [0x60]).length = bytes.length + 1 :=
    List.length_append
  rw [Nat.add_assoc, ← List.length_append] at hpushed hstored
  rw [hlast, ← Nat.add_assoc] at hstored
  exact ⟨_, _, _, hloaded, hpushed, hadded, hstored⟩

end Increment

namespace Locals

variable {locals : Locals} {index : Nat}

/-- What a local is as an int. -/
def loadInt (locals : Locals) (index : Nat) : Except Trap Int32 := do (← locals.load index).asInt

theorem loadInt_eq_ok {v : Int32} (h : locals.loadInt index = .ok v) :
    ∃ s, locals[index]? = some s ∧ s.asInt = .ok v := by
  cases hlocal : locals[index]? with
  | none =>
    rw [loadInt, load, hlocal] at h
    cases h
  | some s =>
    rw [loadInt, load, hlocal] at h
    exact ⟨s, rfl, h⟩

/-- A local is no int because there is no such local, or because of its kind. -/
theorem loadInt_eq_error {t : Trap} (h : locals.loadInt index = .error t) :
    (locals[index]? = none ∧ t = .localIndexOutOfBounds index) ∨
      ∃ s, locals[index]? = some s ∧ s.asInt = .error t ∧ t = .typeMismatch .int s.kind := by
  cases hlocal : locals[index]? with
  | none =>
    rw [loadInt, load, hlocal] at h
    cases h
    exact .inl ⟨rfl, rfl⟩
  | some s =>
    rw [loadInt, load, hlocal] at h
    refine .inr ⟨s, rfl, h, ?_⟩
    cases s with
    | int | boolean => cases h
    | _ =>
      cases h
      rfl

end Locals

namespace Execution

variable {f : Frame} {origin index : Nat} {delta v : Int32} {s : Slot} {rest : OperandStack}
  {t : Trap}

theorem execute_increment_of_ok (h : f.locals.loadInt index = .ok v) :
    execute origin (.increment index delta) f =
      .ok () { f with locals := f.locals.setIfInBounds index (.int (v + delta)) } := by
  obtain ⟨s, hlocal, hint⟩ := Locals.loadInt_eq_ok h
  have hbound : index < f.locals.size := (Array.getElem?_eq_some_iff.1 hlocal).1
  have hread : ofExcept s.asInt f = .ok v f := by
    rw [hint]
    rfl
  refine (bind_of_ok (loadLocal_of_some hlocal)).trans ((bind_of_ok hread).trans ?_)
  exact if_pos hbound

theorem execute_increment_of_error (h : f.locals.loadInt index = .error t) :
    execute origin (.increment index delta) f = .error t f := by
  rcases Locals.loadInt_eq_error h with ⟨hnone, rfl⟩ | ⟨s, hlocal, hint, -⟩
  · exact bind_of_error (loadLocal_of_none hnone)
  · have hread : ofExcept s.asInt f = .error t f := by
      rw [hint]
      rfl
    exact (bind_of_ok (loadLocal_of_some hlocal)).trans (bind_of_error hread)

theorem execute_load_of_ok (hlocal : f.locals[index]? = some s) (hint : s.asInt = .ok v) :
    execute origin (.load .int index) f = .ok () { f with stack := s :: f.stack } := by
  have hcheck : ofExcept (Kind.int.check s) f = .ok () f := by
    rw [Kind.check, hint]
    rfl
  exact (bind_of_ok (loadLocal_of_some hlocal)).trans (bind_of_ok hcheck)

theorem execute_load_of_error (h : f.locals.loadInt index = .error t) :
    execute origin (.load .int index) f = .error t f := by
  rcases Locals.loadInt_eq_error h with ⟨hnone, rfl⟩ | ⟨s, hlocal, hint, -⟩
  · exact bind_of_error (loadLocal_of_none hnone)
  · have hcheck : ofExcept (Kind.int.check s) f = .error t f := by
      rw [Kind.check, hint]
      rfl
    exact (bind_of_ok (loadLocal_of_some hlocal)).trans (bind_of_error hcheck)

theorem execute_store_of_int (hstack : f.stack = .int v :: rest) (hbound : index < f.locals.size) :
    execute origin (.store .int index) f =
      .ok () { f with stack := rest, locals := f.locals.setIfInBounds index (.int v) } := by
  have hpop : popOfKind .int f = .ok (.int v) { f with stack := rest } :=
    popAs_of_cons _ hstack rfl
  exact (bind_of_ok hpop).trans (if_pos hbound)

end Execution

namespace Frame

variable {f g : Frame} {n : Nat} {t : Trap}

/-- A number of steps, up to the first that traps. -/
def proceed : Nat → Execution Unit
  | 0 => pure ()
  | n + 1 => do
    step
    proceed n

theorem proceed_of_ok (h : step f = .ok () g) : proceed (n + 1) f = proceed n g :=
  Execution.bind_of_ok h

theorem proceed_of_error (h : step f = .error t g) : proceed (n + 1) f = .error t g :=
  Execution.bind_of_error h

/-- Two frames hold the same slots and the same objects, in whatever code they are. -/
structure SameData (f g : Frame) : Prop where
  stack : f.stack = g.stack
  locals : f.locals = g.locals
  heap : f.heap = g.heap

variable {i : Increment} {v : Int32}

/-- An increment of a local that is an int stores the sum. -/
theorem step_of_increment (hrunning : f.status = .running) (hcode : f.code.Holds f.pc i.bytes)
    (h : f.locals.loadInt i.index = .ok v) :
    step f = .ok () { f with
      pc := f.pc + i.bytes.length
      steps := f.steps + 1
      locals := f.locals.setIfInBounds i.index (.int (v + i.delta)) } :=
  (step_of_decode hrunning (Increment.decode_of_bytes hcode)).trans
    (Execution.execute_increment_of_ok h)

theorem step_of_increment_trapped (hrunning : f.status = .running)
    (hcode : f.code.Holds f.pc i.bytes) (h : f.locals.loadInt i.index = .error t) :
    step f = .error t { f with pc := f.pc + i.bytes.length, steps := f.steps + 1 } :=
  (step_of_decode hrunning (Increment.decode_of_bytes hcode)).trans
    (Execution.execute_increment_of_error h)

/-- The four instructions of an increment store the sum, and leave nothing on the stack. -/
theorem proceed_of_expansion (hrunning : f.status = .running)
    (hcode : f.code.Holds f.pc i.expansion) (h : f.locals.loadInt i.index = .ok v) :
    proceed 4 f = .ok () { f with
      pc := f.pc + i.expansion.length
      steps := f.steps + 4
      locals := f.locals.setIfInBounds i.index (.int (v + i.delta)) } := by
  obtain ⟨s, hlocal, hint⟩ := Locals.loadInt_eq_ok h
  have hbound : i.index < f.locals.size := (Array.getElem?_eq_some_iff.1 hlocal).1
  obtain ⟨p, q, r, hload, hpush, hadd, hstore⟩ := Increment.decode_of_expansion hcode
  -- the slot is loaded as it is, a boolean too: only the sum makes an int of it
  let loaded : Frame := { f with pc := p, steps := f.steps + 1, stack := s :: f.stack }
  let pushed : Frame := { loaded with
    pc := q, steps := f.steps + 2, stack := .int i.delta :: s :: f.stack }
  let added : Frame := { pushed with
    pc := r, steps := f.steps + 3, stack := .int (i.delta + v) :: f.stack }
  have hloaded : step f = .ok () loaded :=
    (step_of_decode hrunning hload).trans (Execution.execute_load_of_ok hlocal hint)
  have hpushed : step loaded = .ok () pushed := step_of_decode (f := loaded) hrunning hpush
  have hadded : step pushed = .ok () added :=
    (step_of_decode (f := pushed) hrunning hadd).trans
      (Execution.popAs_popAs_of_cons Slot.asInt Slot.asInt rfl rfl hint)
  have hstored := (step_of_decode (f := added) hrunning hstore).trans
    (Execution.execute_store_of_int rfl hbound)
  rw [proceed_of_ok hloaded, proceed_of_ok hpushed, proceed_of_ok hadded, proceed_of_ok hstored,
    Int32.add_comm v]
  rfl

theorem proceed_of_expansion_trapped (hrunning : f.status = .running)
    (hcode : f.code.Holds f.pc i.expansion) (h : f.locals.loadInt i.index = .error t) :
    ∃ pc, proceed 4 f = .error t { f with pc := pc, steps := f.steps + 1 } := by
  obtain ⟨p, q, r, hload, -⟩ := Increment.decode_of_expansion hcode
  have hstep := (step_of_decode hrunning hload).trans (Execution.execute_load_of_error h)
  exact ⟨p, proceed_of_error hstep⟩

/-- **An increment is a load, a constant, a sum and a store.**  In frames that hold the same data,
an increment in either encoding and the four instructions that it stands for come to the same: both
store the sum over the local, with the constant extended from its sign and the sum wrapped, and
leave the stack and the heap alone; or both raise the same trap, as there is no such local or as it
is no int, and leave all as it was. -/
theorem increment_abbreviates_sequence (i : Increment) (hf : f.status = .running)
    (hg : g.status = .running) (hshort : f.code.Holds f.pc i.bytes)
    (hlong : g.code.Holds g.pc i.expansion) (hsame : f.SameData g) :
    (∃ v f' g', f.locals.loadInt i.index = .ok v ∧
      step f = .ok () f' ∧ proceed 4 g = .ok () g' ∧ f'.SameData g' ∧
      f'.SameData { f with locals := f.locals.setIfInBounds i.index (.int (v + i.delta)) }) ∨
    (∃ t f' g', f.locals.loadInt i.index = .error t ∧
      step f = .error t f' ∧ proceed 4 g = .error t g' ∧ f'.SameData f ∧ g'.SameData g ∧
      (t = .localIndexOutOfBounds i.index ∨ ∃ kind, t = .typeMismatch .int kind)) := by
  cases h : f.locals.loadInt i.index with
  | ok v =>
    have hstep := step_of_increment hf hshort h
    have hlocals := hsame.locals
    rw [hlocals] at h
    have hproceed := proceed_of_expansion hg hlong h
    refine .inl ⟨v, _, _, rfl, hstep, hproceed, ⟨hsame.stack, ?_, hsame.heap⟩, rfl, rfl, rfl⟩
    rw [hlocals]
  | error t =>
    have hstep := step_of_increment_trapped hf hshort h
    have hcause : t = .localIndexOutOfBounds i.index ∨ ∃ kind, t = .typeMismatch .int kind := by
      rcases Locals.loadInt_eq_error h with ⟨-, ht⟩ | ⟨s, -, -, ht⟩
      · exact .inl ht
      · exact .inr ⟨s.kind, ht⟩
    rw [hsame.locals] at h
    obtain ⟨pc, hproceed⟩ := proceed_of_expansion_trapped hg hlong h
    exact .inr ⟨t, _, _, rfl, hstep, hproceed, ⟨rfl, rfl, rfl⟩, ⟨rfl, rfl, rfl⟩, hcause⟩

/-- A boolean that is true is incremented by a negative constant of two bytes, and is an int. -/
theorem wide_increment_of_boolean :
    let i : Increment := .wide 1 (-300)
    let f : Frame := { new #[0xC4, 0x84, 0x00, 0x01, 0xFE, 0xD4] 2 #[] with
      stack := [.long 5], locals := #[.empty, .boolean true] }
    let g : Frame := { new #[0x00, 0xC4, 0x15, 0x00, 0x01, 0x11, 0xFE, 0xD4, 0x60, 0xC4, 0x36, 0x00,
      0x01] 2 #[] with pc := 1, stack := [.long 5], locals := #[.empty, .boolean true] }
    f.status = .running ∧ g.status = .running ∧ f.code.Holds f.pc i.bytes ∧
      g.code.Holds g.pc i.expansion ∧ f.SameData g ∧
      ∃ f' g', step f = .ok () f' ∧ proceed 4 g = .ok () g' ∧ f'.SameData g' ∧
        f'.locals = #[.empty, .int (-299)] ∧ f'.stack = [.long 5] := by
  intro i f g
  have hshort : f.code.Holds f.pc i.bytes := ⟨[], by decide +kernel⟩
  have hlong : g.code.Holds g.pc i.expansion := ⟨[], by decide +kernel⟩
  have hsame : f.SameData g := ⟨rfl, rfl, rfl⟩
  refine ⟨rfl, rfl, hshort, hlong, hsame, ?_⟩
  rcases increment_abbreviates_sequence i rfl rfl hshort hlong hsame with
    ⟨v, f', g', hv, hstep, hproceed, hagree, hdata⟩ | ⟨t, f', g', ht, -⟩
  · have hv : v = 1 := (Except.ok.inj hv).symm
    subst hv
    exact ⟨f', g', hstep, hproceed, hagree, hdata.locals.trans (by decide +kernel), hdata.stack⟩
  · cases ht

end Frame

end MethodMachine
