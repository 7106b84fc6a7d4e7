/-
# Objects that a frame does not refer to

A frame refers to an object if it has a reference to it on its stack, in a local, or as its value
(`Frame.Refers`).  It cannot guess a reference: after a step it refers to what it referred to before
and at most to one object more, which is new (`Frame.refers_next`).  And it writes and sees an object
only through a reference that it takes off its stack.  So the objects that it does not refer to are

* never referred to, and never written (`Frame.kept_after`);
* never seen: with other objects in their places, all goes on the same (`Frame.Twin.after`).

For the second, an effect is run in two heaps of one size that agree on the objects on the stack
(`Execution.Tracks`): it comes to the same, and leaves two heaps of one size that agree wherever the
first two did.  An effect that leaves the heap alone does so at once (`Overlooks.tracks`).  There are
only two others.  Storing an element replaces the same object in both heaps; and a new array comes
at the end of both, at the same position since they have one size.
-/

import MethodMachine.Proofs.Footprint

namespace MethodMachine

namespace Heap

variable {heap new newer : Heap}

/-- Replacing an array does not change the number of objects. -/
@[simp] theorem size_replace (heap : Heap) (id : Nat) (a : PrimitiveArray) :
    (heap.replace id a).size = heap.size :=
  Array.size_setIfInBounds

/-- Replacing an array changes its object and no other. -/
theorem getElem?_replace (heap : Heap) (id id' : Nat) (a : PrimitiveArray) :
    (heap.replace id a)[id']? =
      if id = id' then if id < heap.size then some (.array a) else none else heap[id']? :=
  Array.getElem?_setIfInBounds

/-- A heap has grown to another: it has not lost objects, and each object of the other is an array
or was there before. -/
structure Grows (heap new : Heap) : Prop where
  size_le : heap.size ≤ new.size
  object : ∀ (id : Nat) (o : HeapObject), new[id]? = some o →
    (∃ a, o = .array a) ∨ heap[id]? = some o

/-- A heap has grown from itself. -/
theorem Grows.refl (heap : Heap) : heap.Grows heap where
  size_le := Nat.le_refl _
  object _ _ h := .inr h

/-- Growth goes on. -/
theorem Grows.trans (h : heap.Grows new) (h' : new.Grows newer) : heap.Grows newer where
  size_le := Nat.le_trans h.size_le h'.size_le
  object id o ho := by
    rcases h'.object id o ho with harray | hold
    · exact .inl harray
    · exact h.object id o hold

/-- Replacing an array loses no object and makes none but an array. -/
theorem grows_replace (heap : Heap) (id : Nat) (a : PrimitiveArray) :
    heap.Grows (heap.replace id a) where
  size_le := Nat.le_of_eq (size_replace ..).symm
  object id' o ho := by
    rw [getElem?_replace] at ho
    split at ho
    · split at ho
      · exact .inl ⟨a, (Option.some.inj ho).symm⟩
      · cases ho
    · exact .inr ho

/-- So does adding one. -/
theorem grows_push (heap : Heap) (a : PrimitiveArray) : heap.Grows (heap.push (.array a)) where
  size_le := by
    rw [Array.size_push]
    exact Nat.le_succ _
  object id o ho := by
    rw [Array.getElem?_push] at ho
    split at ho
    · exact .inl ⟨a, (Option.some.inj ho).symm⟩
    · exact .inr ho

end Heap

namespace Execution

variable {α β : Type} {e : Execution α} {k : α → Execution β} {f g : Frame}

/-- The frame that is left, with another heap. -/
@[simp] theorem left_withHeap (heap : Heap) (r : EStateM.Result Trap Frame α) :
    left (withHeap heap r) = { left r with heap := heap } := by
  cases r <;> rfl

/-- An effect comes to the same in two heaps of one size that agree on the objects on the stack, and
the heaps that it leaves have one size and agree wherever the first two did. -/
def Tracks (e : Execution α) : Prop :=
  ∀ (f : Frame) (heap : Heap), heap.size = f.heap.size → f.StackAgrees heap →
    ∃ heap' : Heap, e { f with heap := heap } = withHeap heap' (e f) ∧
      heap'.size = (left (e f)).heap.size ∧
      ∀ id : Nat, heap[id]? = f.heap[id]? → heap'[id]? = (left (e f)).heap[id]?

/-- An effect that overlooks the heap leaves it alone. -/
theorem Overlooks.heap_left (he : Overlooks e) (f : Frame) : (left (e f)).heap = f.heap := by
  have h : e f = withHeap f.heap (e f) := he f f.heap fun _ _ => rfl
  rw [h, left_withHeap]

/-- An effect that leaves the heap alone leaves the two heaps as they were. -/
theorem Overlooks.tracks (he : Overlooks e) : Tracks e := by
  intro f heap hsize hstack
  rw [he.heap_left f]
  exact ⟨heap, he f heap hstack, hsize, fun _ h => h⟩

/-- What comes after a quiet effect finds the two heaps as they were. -/
theorem Quiet.tracks_bind (he : Quiet e) (hk : ∀ a, Tracks (k a)) : Tracks (e >>= k) := by
  intro f heap hsize hstack
  have hheap := he.overlooks.heap_left f
  have hsame := he.overlooks f heap hstack
  cases hef : e f with
  | error t g =>
    rw [hef] at hheap hsame
    change g.heap = f.heap at hheap
    rw [bind_of_error hef, bind_of_error hsame, ← hheap]
    refine ⟨heap, rfl, ?_, fun _ h => h⟩
    rw [hsize, ← hheap]
    rfl
  | ok a g =>
    rw [hef] at hheap hsame
    change g.heap = f.heap at hheap
    rw [bind_of_ok hef, bind_of_ok hsame, ← hheap]
    refine hk a g heap ?_ (he.stackAgrees hef hstack)
    rw [hsize, ← hheap]

/-- A result that has been computed already is quiet. -/
theorem quiet_ofExcept (x : Except Trap α) : Quiet (ofExcept x) := by
  cases x with
  | ok a => exact quiet_pure a
  | error t => exact quiet_throw t

/-- A push overlooks the heap, whatever the slot. -/
theorem overlooks_push (s : Slot) : Overlooks (push s) := fun _ _ _ => rfl

/-- Storing a local overlooks the heap. -/
theorem overlooks_storeLocal (index : Nat) (s : Slot) : Overlooks (storeLocal index s) := by
  intro f heap _
  unfold storeLocal
  dsimp only
  split <;> rfl

/-- A branch to a subroutine overlooks the heap. -/
theorem overlooks_subroutine (origin : Nat) (target : Int) :
    Overlooks (branch origin target .subroutine) := by
  intro f heap _
  exact jump_heap origin target
    { f with stack := .ofReference (.returnAddress f.pc) :: f.stack } heap

/-- So does completing a frame. -/
theorem overlooks_complete (kind : Option Kind) : Overlooks (complete kind) := by
  cases kind with
  | none => exact fun _ _ _ => rfl
  | some kind => exact (quiet_popOfKind kind).overlooks_bind fun _ => fun _ _ _ => rfl

/-- An array takes the same place in both heaps. -/
theorem tracks_replace (id : Nat) (a : PrimitiveArray) :
    Tracks (modify fun f => { f with heap := f.heap.replace id a }) := by
  intro f heap hsize _
  refine ⟨heap.replace id a, rfl, ?_, fun id' h => ?_⟩
  · show (heap.replace id a).size = (f.heap.replace id a).size
    rw [Heap.size_replace, Heap.size_replace, hsize]
  · show (heap.replace id a)[id']? = (f.heap.replace id a)[id']?
    rw [Heap.getElem?_replace, Heap.getElem?_replace, hsize, h]

/-- A new object has the same position in both heaps. -/
theorem tracks_allocate (o : HeapObject) :
    Tracks (allocate o >>= fun r => push (.ofReference r)) := by
  intro f heap hsize _
  refine ⟨heap.push o, ?_, ?_, fun id h => ?_⟩
  · show EStateM.Result.ok () { f with
      stack := .ofReference (.object heap.size) :: f.stack, heap := heap.push o } = _
    rw [hsize]
    rfl
  · show (heap.push o).size = (f.heap.push o).size
    rw [Array.size_push, Array.size_push, hsize]
  · show (heap.push o)[id]? = (f.heap.push o)[id]?
    rw [Array.getElem?_push, Array.getElem?_push, hsize, h]

/-- A store into an array puts the same array into both heaps. -/
theorem tracks_arrayStore (op : Opcode) : Tracks (arrayStore op) :=
  quiet_pop.tracks_bind fun _ => quiet_popInt.tracks_bind fun _ =>
    (quiet_popArray op).tracks_bind fun found => (quiet_ofExcept _).tracks_bind fun stored =>
      tracks_replace found.1 stored

/-- A new array comes after the objects of both heaps. -/
theorem tracks_newArray (element : ElementType) : Tracks (newArray element) := by
  refine quiet_popInt.tracks_bind fun n => ?_
  split
  · exact (quiet_throw _).overlooks.tracks
  · exact tracks_allocate _

/-- **No operation sees an object but through the stack.** -/
theorem tracks_execute (origin : Nat) (operation : Operation) :
    Tracks (execute origin operation) := by
  cases hquiet : operation.isQuiet with
  | true => exact (quiet_execute origin hquiet).overlooks.tracks
  | false =>
    cases operation with
    | push s => exact (overlooks_push s).tracks
    | load kind index =>
      refine Overlooks.tracks ((quiet_loadLocal index).overlooks_bind fun s => ?_)
      exact (quiet_ofExcept _).overlooks_bind fun _ => overlooks_push s
    | store kind index =>
      exact ((quiet_popOfKind kind).overlooks_bind fun s => overlooks_storeLocal index s).tracks
    | increment index delta =>
      refine Overlooks.tracks ((quiet_loadLocal index).overlooks_bind fun s => ?_)
      exact (quiet_ofExcept _).overlooks_bind fun v => overlooks_storeLocal index _
    | arrayStore op => exact tracks_arrayStore op
    | newArray element => exact tracks_newArray element
    | branch b target =>
      cases b with
      | subroutine => exact (overlooks_subroutine origin target).tracks
      | _ => cases hquiet
    | complete kind => exact (overlooks_complete kind).tracks
    | _ => cases hquiet

end Execution

namespace Operation.Makes

variable {operation : Operation} {f g : Frame}

/-- The heap grows, and by arrays only. -/
theorem grows (h : operation.Makes f g) : f.heap.Grows g.heap := by
  cases h with
  | storesElement => exact Heap.grows_replace ..
  | allocates => exact Heap.grows_push ..
  | _ => exact Heap.Grows.refl _

/-- An operation writes no object that is not on the stack. -/
theorem getElem?_heap {id : Nat} (h : operation.Makes f g) (hlt : id < f.heap.size)
    (hstack : .ofReference (.object id) ∉ f.stack) : g.heap[id]? = f.heap[id]? := by
  cases h with
  | @storesElement op value index i id' a stored rest _ htaken _ _ _ =>
    have hne : id' ≠ id := by
      rintro rfl
      refine hstack ?_
      rw [htaken]
      simp
    show (f.heap.replace id' stored)[id]? = f.heap[id]?
    rw [Heap.getElem?_replace, if_neg hne]
  | allocates =>
    show (f.heap.push _)[id]? = f.heap[id]?
    rw [Array.getElem?_push, if_neg (Nat.ne_of_lt hlt)]
  | _ => rfl

end Operation.Makes

namespace Frame

open Execution (Tracks)

variable {f g : Frame} {P : Nat → Prop}

/-- The frame refers to the object at a position. -/
def Refers (f : Frame) (id : Nat) : Prop := f.Holds (.ofReference (.object id))

/-- All that the frame refers to exists. -/
def PointsInside (f : Frame) : Prop := ∀ id, f.Refers id → id < f.heap.size

/-- A step lets the heap grow. -/
theorem grows_next (f : Frame) : f.heap.Grows f.next.heap := by
  rcases next_cases f with hnext | ⟨operation, pc, -, -, hmakes⟩
  · rw [hnext]
    exact Heap.Grows.refl _
  · exact hmakes.grows

/-- So do many. -/
theorem grows_after (f : Frame) (n : Nat) : f.heap.Grows (f.after n).heap := by
  refine after_induction (motive := fun g => f.heap.Grows g.heap) (Heap.Grows.refl _) ?_ n
  intro g hgrows
  exact hgrows.trans (grows_next g)

/-- **A frame cannot guess a reference.**  After a step it refers to what it referred to before, and
else only to an object that the step has made. -/
theorem refers_next {id : Nat} (h : f.next.Refers id) :
    f.Refers id ∨ id = f.heap.size ∧ f.heap.size < f.next.heap.size := by
  rcases holds_next h with hold | (hnumber | hnull) | ⟨hobject, hgrown⟩ | ⟨target, pc, -, hcall⟩
  · exact .inl hold
  · cases hnumber
  · cases hnull
  · cases hobject
    exact .inr ⟨rfl, hgrown⟩
  · cases hcall

/-- After a step, references point to objects still. -/
theorem PointsInside.next (h : f.PointsInside) : f.next.PointsInside := by
  intro id hid
  rcases refers_next hid with hold | ⟨rfl, hlt⟩
  · exact Nat.lt_of_lt_of_le (h id hold) (grows_next f).size_le
  · exact hlt

/-- After many steps they do. -/
theorem PointsInside.after (h : f.PointsInside) (n : Nat) : (f.after n).PointsInside :=
  after_induction h (fun _ => PointsInside.next) n

/-- A step keeps an object that the frame does not refer to. -/
theorem kept_next {id : Nat} (hlt : id < f.heap.size) (h : ¬f.Refers id) :
    ¬f.next.Refers id ∧ f.next.heap[id]? = f.heap[id]? := by
  constructor
  · intro hid
    rcases refers_next hid with hold | ⟨rfl, -⟩
    · exact h hold
    · exact Nat.lt_irrefl _ hlt
  · rcases next_cases f with hnext | ⟨operation, pc, -, -, hmakes⟩
    · rw [hnext]
    · exact hmakes.getElem?_heap hlt fun hmem => h (.stack hmem)

/-- **The objects that a frame does not refer to stay as they are**, and it never refers to them. -/
theorem kept_after {id : Nat} (hlt : id < f.heap.size) (h : ¬f.Refers id) (n : Nat) :
    ¬(f.after n).Refers id ∧ (f.after n).heap[id]? = f.heap[id]? := by
  induction n with
  | zero => exact ⟨h, rfl⟩
  | succ n ih =>
    have hlt' : id < (f.after n).heap.size := Nat.lt_of_lt_of_le hlt (grows_after f n).size_le
    obtain ⟨hnext, hsame⟩ := kept_next hlt' ih.1
    exact ⟨hnext, hsame.trans ih.2⟩

/-- A step sees no object but through the stack. -/
theorem tracks_step : Tracks step := by
  intro f heap hsize hstack
  rcases running_or_returned f with hrunning | ⟨value, hreturned⟩
  · cases hdecode : Operation.decode f.code f.pc with
    | error t =>
      have htrap (heap : Heap) : step { f with heap := heap } = .error t { f with heap := heap } := by
        simp only [step, hrunning, hdecode]
      rw [htrap heap, htrap f.heap]
      exact ⟨heap, rfl, hsize, fun _ h => h⟩
    | ok result =>
      obtain ⟨operation, pc⟩ := result
      rw [step_of_decode (f := f) hrunning hdecode,
        step_of_decode (f := { f with heap := heap }) hrunning hdecode]
      exact Execution.tracks_execute f.pc operation { f with pc := pc, steps := f.steps + 1 } heap
        hsize hstack
  · rw [step_of_returned hreturned, step_of_returned (f := { f with heap := heap }) hreturned]
    exact ⟨heap, rfl, hsize, fun _ h => h⟩

/-- The frame `g` is `f` with another heap of the same size.  The two heaps agree on the positions
with `P`, and these are at least the ones that `f` refers to and all that are free. -/
structure Twin (P : Nat → Prop) (f g : Frame) : Prop where
  eq : g = { f with heap := g.heap }
  size : g.heap.size = f.heap.size
  agrees : ∀ id, P id → g.heap[id]? = f.heap[id]?
  referred : ∀ id, f.Refers id → P id
  free : ∀ id, f.heap.size ≤ id → P id

/-- Twins step alike. -/
theorem Twin.step (h : Twin P f g) :
    ∃ heap : Heap, step g = Execution.withHeap heap (step f) ∧
      heap.size = f.next.heap.size ∧ ∀ id, P id → heap[id]? = f.next.heap[id]? := by
  obtain ⟨heap, hstep, hsize, hsame⟩ := tracks_step f g.heap h.size fun id hid =>
    h.agrees id (h.referred id (.stack hid))
  rw [← h.eq] at hstep
  exact ⟨heap, hstep, hsize, fun id hid => hsame id (h.agrees id hid)⟩

/-- Twins trap together. -/
theorem Twin.trap? (h : Twin P f g) : g.trap? = f.trap? := by
  obtain ⟨heap, hstep, -⟩ := h.step
  rw [Frame.trap?, Frame.trap?, hstep]
  cases Frame.step f <;> rfl

/-- After a step, twins are twins still. -/
theorem Twin.next (h : Twin P f g) : Twin P f.next g.next := by
  obtain ⟨heap, hstep, hsize, hsame⟩ := h.step
  have hnext : g.next = { f.next with heap := heap } := by
    rw [Frame.next, hstep, Execution.left_withHeap]
    rfl
  rw [hnext]
  refine ⟨rfl, hsize, hsame, fun id hid => ?_, fun id hid => ?_⟩
  · rcases refers_next hid with hold | ⟨rfl, -⟩
    · exact h.referred id hold
    · exact h.free _ (Nat.le_refl _)
  · exact h.free id (Nat.le_trans (grows_next f).size_le hid)

/-- **Twins stay twins.** -/
theorem Twin.after (h : Twin P f g) (n : Nat) : Twin P (f.after n) (g.after n) := by
  induction n with
  | zero => exact h
  | succ n ih => exact ih.next

/-- The opcode `0xBC` makes an array at the first free position. -/
theorem step_newArray {u : Unit} (hop : f.code[f.pc]? = some 0xBC) (h : Frame.step f = .ok u g) :
    ∃ rest a, g.stack = .ofReference (.object f.heap.size) :: rest ∧
      g.heap = f.heap.push (.array a) := by
  rcases step_cases f with ⟨t, hstep, -⟩ | ⟨operation, pc, hdecode, hstep⟩
  · rw [hstep] at h
    cases h
  · obtain ⟨op, hopcode, hallows⟩ := Operation.allows_decode hdecode
    have hne : f.code[f.pc]? ≠ some 0xC4 := by
      rw [hop]
      decide
    rw [Code.opcodeAt?, if_neg hne, hop] at hopcode
    cases hopcode
    obtain ⟨element, rfl⟩ : ∃ element, operation = .newArray element := hallows
    rw [hstep] at h
    obtain ⟨length, n, rest, -, -, -, rfl⟩ := Execution.newArray_eq_ok h
    exact ⟨rest, _, rfl, rfl⟩

/-- What the frame refers to is an array, or a string that was there at first. -/
theorem denotes_of_refers {id n : Nat} (hinside : (f.after n).PointsInside)
    (h : (f.after n).Refers id) :
    (∃ a, (f.after n).heap[id]? = some (.array a)) ∨
      ∃ s, (f.after n).heap[id]? = some (.string s) ∧ f.heap[id]? = some (.string s) := by
  obtain ⟨o, ho⟩ : ∃ o, (f.after n).heap[id]? = some o :=
    ⟨_, Array.getElem?_eq_getElem (hinside id h)⟩
  cases o with
  | array a => exact .inl ⟨a, ho⟩
  | string s =>
    rcases (grows_after f n).object id _ ho with ⟨a, harray⟩ | hold
    · cases harray
    · exact .inr ⟨s, ho, hold⟩

/-- No frame on the way to another has referred to a position that is free at its end. -/
theorem free_of_le {id m n : Nat} (hinside : f.PointsInside) (hid : (f.after n).heap.size ≤ id)
    (hm : m ≤ n) : (f.after m).heap[id]? = none ∧ ¬(f.after m).Refers id := by
  have hgrows : (f.after m).heap.Grows (f.after n).heap := by
    obtain ⟨k, rfl⟩ := Nat.exists_eq_add_of_le hm
    rw [after_add]
    exact grows_after _ k
  have hle : (f.after m).heap.size ≤ id := Nat.le_trans hgrows.size_le hid
  refine ⟨Array.getElem?_eq_none hle, fun hrefers => ?_⟩
  exact Nat.not_lt.2 hle (hinside.after m id hrefers)

/-- **Objects that a frame does not refer to are isolated from it.**  Let all that a frame refers to
exist.  However many steps it makes, traps or not, it never refers to an object that was there and
that it did not refer to, and leaves it as it was.  What it refers to is an array, unless it is a
string that was there at first, and a new array is one that it has never referred to.  And in a heap
that differs only in objects that it does not refer to, it traps alike, comes to the same frame, and
makes the same of all other objects. -/
theorem unreferred_objects_are_isolated (f : Frame) (hinside : f.PointsInside) (n : Nat) :
    (∀ id, id < f.heap.size → ¬f.Refers id →
      ¬(f.after n).Refers id ∧ (f.after n).heap[id]? = f.heap[id]?) ∧
    (∀ id, (f.after n).Refers id →
      (∃ a, (f.after n).heap[id]? = some (.array a)) ∨
        ∃ s, (f.after n).heap[id]? = some (.string s) ∧ f.heap[id]? = some (.string s)) ∧
    (∀ g, (f.after n).code[(f.after n).pc]? = some 0xBC → step (f.after n) = .ok () g →
      ∃ id rest a, g.stack = .ofReference (.object id) :: rest ∧ g.heap[id]? = some (.array a) ∧
        ∀ m ≤ n, (f.after m).heap[id]? = none ∧ ¬(f.after m).Refers id) ∧
    (∀ heap : Heap, heap.size = f.heap.size → (∀ id, f.Refers id → heap[id]? = f.heap[id]?) →
      let g := { f with heap := heap }
      (g.after n).trap? = (f.after n).trap? ∧
        g.after n = { f.after n with heap := (g.after n).heap } ∧
        ∀ id : Nat, heap[id]? = f.heap[id]? → (g.after n).heap[id]? = (f.after n).heap[id]?) := by
  refine ⟨?_, ?_, ?_, ?_⟩
  · intro id hlt hunreferred
    exact kept_after hlt hunreferred n
  · intro id hrefers
    exact denotes_of_refers (hinside.after n) hrefers
  · intro g hop hstep
    obtain ⟨rest, a, hstack, hheap⟩ := step_newArray hop hstep
    refine ⟨_, rest, a, hstack, ?_, fun m hm => free_of_le hinside (Nat.le_refl _) hm⟩
    rw [hheap, Array.getElem?_push_size]
  · intro heap hsize hagrees g
    have htwin : Twin (fun id => heap[id]? = f.heap[id]?) f g := by
      refine ⟨rfl, hsize, fun id hid => hid, hagrees, fun id hid => ?_⟩
      rw [Array.getElem?_eq_none hid, Array.getElem?_eq_none (hsize ▸ hid)]
    have hafter := htwin.after n
    exact ⟨hafter.trap?, hafter.eq, hafter.agrees⟩

/-- The code is `aload_0; iconst_0; iconst_5; iastore; iconst_2; newarray int`.  The frame refers to
the first of two objects, writes it, and makes a third; the second could be anything. -/
theorem second_object_is_isolated :
    let code : Code := #[0x2A, 0x03, 0x08, 0x4F, 0x05, 0xBC, 0x0A]
    let heap : Heap := #[.array (.new .int 1), .array (.new .int 2)]
    let other : Heap := #[.array (.new .int 1), .string "other"]
    let f : Frame := { new code 1 heap with locals := #[.ofReference (.object 0)] }
    let g : Frame := { f with heap := other }
    f.PointsInside ∧ ¬f.Refers 1 ∧ (f.after 5).heap[1]? = heap[1]? ∧
      (∃ id rest a, (f.after 6).stack = .ofReference (.object id) :: rest ∧
        (f.after 6).heap[id]? = some (.array a) ∧
        ∀ m ≤ 5, (f.after m).heap[id]? = none ∧ ¬(f.after m).Refers id) ∧
      (g.after 5).trap? = (f.after 5).trap? ∧
      g.after 5 = { f.after 5 with heap := (g.after 5).heap } ∧
      (g.after 5).heap[0]? = (f.after 5).heap[0]? := by
  intro code heap other f g
  have hrefers : ∀ id, f.Refers id → id = 0 := by
    intro id hid
    cases hid with
    | stack hmem => cases hmem
    | locals hmem =>
      cases Array.mem_singleton.1 hmem
      rfl
    | value hvalue => cases hvalue
  have hinside : f.PointsInside := by
    intro id hid
    rw [hrefers id hid]
    decide
  have hunreferred : ¬f.Refers 1 := fun h => absurd (hrefers 1 h) (by decide)
  have hagrees : ∀ id, f.Refers id → other[id]? = f.heap[id]? := by
    intro id hid
    rw [hrefers id hid]
    rfl
  have hop : (f.after 5).code[(f.after 5).pc]? = some 0xBC := by decide +kernel
  have hstep : step (f.after 5) = .ok () (f.after 6) := trap?_eq_none_iff.1 (by decide +kernel)
  obtain ⟨hkept, -, hnew, htwin⟩ := unreferred_objects_are_isolated f hinside 5
  obtain ⟨htrap, heq, hsame⟩ := htwin other rfl hagrees
  exact ⟨hinside, hunreferred, (hkept 1 (by decide) hunreferred).2, hnew _ hop hstep, htrap, heq,
    hsame 0 rfl⟩

end Frame

end MethodMachine
