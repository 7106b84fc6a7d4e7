/-
# The shuffles move words

The instruction set speaks of a stack of words, on which a wide value takes two.  A stack of slots
is laid out as words by `OperandStack.words`, and each shuffle is one of three rearrangements of
words, tops on the left:

| shuffle | words | needs | cuts |
| --- | --- | ---: | --- |
| `pop`, `pop2` | drop `c` | `c` | `c` |
| `dup`, `dup_x1`, …, `dup2_x2` | copy `c` below `c + x` | `c + x` | `c`, `c + x` |
| `swap` | exchange the first two | 2 | 1, 2 |

Slots can follow the words as long as no cut goes through a wide slot (`Splits`).  `Rearranges` says
what becomes of them then, `Rearranges.words` that it is what becomes of their words, and every
shuffle does it or fails with a trap that says why it cannot (`refines_shuffle`).

The exception is in the traps.  A shuffle asks for all the slots of its narrow form before it looks
at any of them.  So a stack of exactly the words that are needed, whose last slot is wide and would
be cut, underflows although the words are there (`Shuffle.overlooks`).
-/

import MethodMachine.Frame.Execution

namespace MethodMachine

/-- A word of the stack: a narrow slot, or a half of a wide one. -/
inductive Word where
  | whole (s : Slot)
  | upper (s : Slot)
  | lower (s : Slot)
deriving DecidableEq

/-- The words of a slot, the top first. -/
def Slot.words (s : Slot) : List Word := if s.isWide then [.upper s, .lower s] else [.whole s]

/-- A rearrangement of the top of a stack of words. -/
inductive Rearrangement where
  | drop (count : Nat)
  /-- the first `count` words, copied below the next `skip` -/
  | copy (count skip : Nat)
  | exchange
deriving DecidableEq

namespace Rearrangement

/-- The number of words that a rearrangement looks at. -/
@[simp] def needs : Rearrangement → Nat
  | drop count => count
  | copy count skip => count + skip
  | exchange => 2

/-- The depths at which a rearrangement cuts the stack. -/
@[simp] def cuts : Rearrangement → List Nat
  | drop count => [count]
  | copy count skip => [count, count + skip]
  | exchange => [1, 2]

/-- What a rearrangement does to a stack of words, the top first. -/
def onWords {α : Type} : Rearrangement → List α → List α
  | drop count, ws => ws.drop count
  | copy count skip, ws => ws.take (count + skip) ++ ws.take count ++ ws.drop (count + skip)
  | exchange, ws => (ws.drop 1).take 1 ++ ws.take 1 ++ ws.drop 2

end Rearrangement

/-- The rearrangement of words that a shuffle stands for. -/
@[simp] def Shuffle.rearrangement : Shuffle → Rearrangement
  | pop => .drop 1
  | pop2 => .drop 2
  | dup => .copy 1 0
  | dupX1 => .copy 1 1
  | dupX2 => .copy 1 2
  | dup2 => .copy 2 0
  | dup2X1 => .copy 2 1
  | dup2X2 => .copy 2 2
  | swap => .exchange

/-- The last cut is below all the words that are needed. -/
theorem Shuffle.needs_mem_cuts (s : Shuffle) : s.rearrangement.needs ∈ s.rearrangement.cuts := by
  cases s <;> decide

/-- The stacks on which a shuffle underflows although it has the words: its last cut but one goes
through the last slot. -/
def Shuffle.overlooks : Shuffle → OperandStack → Bool
  | dupX1, [a] => a.isWide
  | dup2X1, [a, b] => !a.isWide && b.isWide
  | swap, [a] => a.isWide
  | _, _ => false

namespace OperandStack

variable {stack top middle rest result : OperandStack} {s : Slot} {depth skip : Nat}
  {r : Rearrangement}

/-- The stack as words, the top first. -/
def words (stack : OperandStack) : List Word := stack.flatMap Slot.words

/-- An empty stack has no words. -/
@[simp] theorem words_nil : words [] = [] := rfl

/-- The words of the top come first. -/
@[simp] theorem words_cons : words (s :: rest) = s.words ++ words rest := by
  simp [words]

/-- Words come in the order of their slots. -/
@[simp] theorem words_append : words (top ++ rest) = words top ++ words rest := by
  simp [words]

/-- A wide slot is two words and every other is one. -/
@[simp] theorem length_words_slot : s.words.length = if s.isWide then 2 else 1 := by
  unfold Slot.words
  split <;> rfl

/-- No slot is without words. -/
theorem length_words_slot_pos (s : Slot) : 0 < s.words.length := by
  unfold Slot.words
  split <;> simp

/-- A cut below the first `depth` words falls between slots. -/
def Splits (stack : OperandStack) (depth : Nat) : Prop :=
  ∃ top rest, stack = top ++ rest ∧ (words top).length = depth

/-- A cut is not below the bottom. -/
theorem Splits.le_length (h : Splits stack depth) : depth ≤ (words stack).length := by
  obtain ⟨top, rest, rfl, rfl⟩ := h
  simp

/-- Every stack can be cut at the top. -/
@[simp] theorem splits_zero : Splits stack 0 := ⟨[], stack, rfl, rfl⟩

/-- An empty stack cannot be cut further down. -/
@[simp] theorem not_splits_nil : ¬Splits [] (depth + 1) := by
  intro h
  simpa using h.le_length

/-- Below a first cut, a second cut falls between slots of the stack exactly when it falls between
the slots that are left. -/
theorem splits_add_iff :
    Splits (top ++ rest) ((words top).length + skip) ↔ Splits rest skip := by
  constructor
  · rintro ⟨top', rest', happend, hlength⟩
    rcases List.append_eq_append_iff.1 happend with ⟨middle, rfl, rfl⟩ | ⟨middle, rfl, rfl⟩
    · rw [words_append, List.length_append] at hlength
      exact ⟨middle, rest', rfl, by omega⟩
    · -- the second cut is not below the first, so nothing lies between them
      rw [words_append, List.length_append] at hlength
      obtain rfl : skip = 0 := by omega
      exact splits_zero
  · rintro ⟨middle, rest', rfl, rfl⟩
    exact ⟨top ++ middle, rest', by simp, by simp⟩

/-- Past a narrow slot, a cut is one word nearer. -/
@[simp] theorem splits_cons_of_narrow (h : s.isWide = false) :
    Splits (s :: rest) (depth + 1) ↔ Splits rest depth := by
  have hcut := @splits_add_iff [s] rest depth
  simpa [h, Nat.add_comm] using hcut

/-- Past a wide slot, a cut is two words nearer. -/
@[simp] theorem splits_cons_of_wide (h : s.isWide = true) :
    Splits (s :: rest) (depth + 2) ↔ Splits rest depth := by
  have hcut := @splits_add_iff [s] rest depth
  simpa [h, Nat.add_comm] using hcut

/-- A wide slot is not cut. -/
@[simp] theorem not_splits_one_of_wide (h : s.isWide = true) : ¬Splits (s :: rest) 1 := by
  rintro ⟨top, rest', happend, hlength⟩
  cases top with
  | nil => simp at hlength
  | cons s' top =>
    obtain ⟨rfl, -⟩ := List.cons.inj happend
    simp [h] at hlength
    omega

/-- What a rearrangement does to a stack of slots that it does not cut. -/
inductive Rearranges : Rearrangement → OperandStack → OperandStack → Prop where
  | drop {count : Nat} (top rest : OperandStack) :
    (words top).length = count → Rearranges (.drop count) (top ++ rest) rest
  | copy {count skip : Nat} (top middle rest : OperandStack) :
    (words top).length = count → (words middle).length = skip →
      Rearranges (.copy count skip) (top ++ (middle ++ rest)) (top ++ (middle ++ (top ++ rest)))
  | exchange (first second rest : OperandStack) :
    (words first).length = 1 → (words second).length = 1 →
      Rearranges .exchange (first ++ (second ++ rest)) (second ++ (first ++ rest))

/-- **The words follow.**  What happens to the slots is what the rearrangement does to the
words. -/
theorem Rearranges.words (h : Rearranges r stack result) :
    words result = r.onWords (words stack) := by
  cases h with
  | drop top rest hcount =>
    subst hcount
    simp [Rearrangement.onWords]
  | copy top middle rest hcount hskip =>
    subst hcount hskip
    simp [Rearrangement.onWords, List.take_append, List.drop_append, List.take_of_length_le]
  | exchange first second rest hfirst hsecond =>
    simp [Rearrangement.onWords, List.drop_append, hfirst, hsecond]

/-- A rearrangement of whole slots cuts only between slots. -/
theorem Rearranges.splits (h : Rearranges r stack result) : ∀ d ∈ r.cuts, Splits stack d := by
  cases h with
  | drop top _ hcount =>
    simp only [Rearrangement.cuts, List.mem_singleton, forall_eq]
    exact ⟨top, _, rfl, hcount⟩
  | copy top middle rest hcount hskip =>
    subst hcount
    simp only [Rearrangement.cuts, List.forall_mem_cons, List.not_mem_nil, false_implies,
      forall_const, and_true]
    exact ⟨⟨top, _, rfl, rfl⟩, splits_add_iff.2 ⟨middle, rest, rfl, hskip⟩⟩
  | exchange first second rest hfirst hsecond =>
    simp only [Rearrangement.cuts, List.forall_mem_cons, List.not_mem_nil, false_implies,
      forall_const, and_true]
    refine ⟨⟨first, _, rfl, hfirst⟩, ?_⟩
    have hcut : Splits (first ++ (second ++ rest)) ((OperandStack.words first).length + 1) :=
      splits_add_iff.2 ⟨second, rest, rfl, hsecond⟩
    rwa [hfirst] at hcut

/-- A rearrangement brings in no slot. -/
theorem Rearranges.mem (h : Rearranges r stack result) (hs : s ∈ result) : s ∈ stack := by
  cases h with
  | drop top rest _ => exact List.mem_append_right _ hs
  | copy top middle rest _ _ =>
    simp only [List.mem_append] at hs ⊢
    rcases hs with htop | hmiddle | htop | hrest
    · exact .inl htop
    · exact .inr (.inl hmiddle)
    · exact .inl htop
    · exact .inr (.inr hrest)
  | exchange first second rest _ _ =>
    simp only [List.mem_append] at hs ⊢
    rcases hs with hsecond | hfirst | hrest
    · exact .inr (.inl hsecond)
    · exact .inl hfirst
    · exact .inr (.inr hrest)

/-- What becomes of a stack is what the words of the shuffle ask for, and a trap says why there is
no such stack. -/
def Refines (shuffle : Shuffle) (stack : OperandStack) : Except Trap OperandStack → Prop
  | .ok result => Rearranges shuffle.rearrangement stack result
  | .error t => ¬(∀ d ∈ shuffle.rearrangement.cuts, Splits stack d) ∧
      t = if (words stack).length < shuffle.rearrangement.needs ∨ shuffle.overlooks stack = true
        then .stackUnderflow else .wideOperand shuffle.opcode

variable {shuffle : Shuffle} {a b : Slot} {x : Except Trap OperandStack}

/-- A stack that is rearranged as the words ask for. -/
theorem refines_of_rearranges (hx : x = .ok result)
    (h : Rearranges shuffle.rearrangement stack result) : Refines shuffle stack x := by
  rw [hx]
  exact h

/-- An underflow for want of words. -/
theorem refines_of_lt (hx : x = .error .stackUnderflow)
    (h : (words stack).length < shuffle.rearrangement.needs) : Refines shuffle stack x := by
  rw [hx]
  refine ⟨fun hcuts => ?_, (if_pos (.inl h)).symm⟩
  have hle := (hcuts _ shuffle.needs_mem_cuts).le_length
  omega

/-- An underflow for want of slots, though there are words enough. -/
theorem refines_of_overlooks (hx : x = .error .stackUnderflow)
    (h : shuffle.overlooks stack = true)
    (hcuts : ¬∀ d ∈ shuffle.rearrangement.cuts, Splits stack d) : Refines shuffle stack x := by
  rw [hx]
  exact ⟨hcuts, (if_pos (.inr h)).symm⟩

/-- A wide slot that would be cut. -/
theorem refines_of_cut (hx : x = .error (.wideOperand shuffle.opcode))
    (hneeds : shuffle.rearrangement.needs ≤ (words stack).length)
    (hoverlooks : shuffle.overlooks stack = false)
    (hcuts : ¬∀ d ∈ shuffle.rearrangement.cuts, Splits stack d) : Refines shuffle stack x := by
  rw [hx]
  refine ⟨hcuts, (if_neg ?_).symm⟩
  rw [hoverlooks]
  exact not_or.2 ⟨Nat.not_lt.2 hneeds, Bool.false_ne_true⟩

/-- A shuffle that looks at two slots at once underflows on a single one, also on a wide one. -/
theorem refines_singleton (hx : x = .error .stackUnderflow)
    (hneeds : shuffle.rearrangement.needs = 2)
    (hcuts : shuffle.rearrangement.cuts = [1, 2]) (hoverlooks : shuffle.overlooks [a] = a.isWide) :
    Refines shuffle [a] x := by
  cases ha : a.isWide with
  | true =>
    refine refines_of_overlooks hx (hoverlooks.trans ha) ?_
    rw [hcuts]
    simp [ha]
  | false =>
    refine refines_of_lt hx ?_
    rw [hneeds]
    simp [ha]

/-- Two slots, one of them wide, are more than two words, and are not cut after each of the first
two. -/
theorem refines_wide_pair (hx : x = .error (.wideOperand shuffle.opcode))
    (hneeds : shuffle.rearrangement.needs = 2)
    (hcuts : shuffle.rearrangement.cuts = [1, 2])
    (hoverlooks : shuffle.overlooks (a :: b :: rest) = false)
    (h : ¬(a.isWide = false ∧ b.isWide = false)) : Refines shuffle (a :: b :: rest) x := by
  refine refines_of_cut hx ?_ hoverlooks ?_
  · have ha := length_words_slot_pos a
    have hb := length_words_slot_pos b
    rw [hneeds, words_cons, words_cons, List.length_append, List.length_append]
    omega
  · rw [hcuts]
    cases ha : a.isWide with
    | true => simp [ha]
    | false =>
      have hb : b.isWide = true := by simpa [ha] using h
      simp [ha, hb]

/-- `pop` drops one word. -/
theorem refines_popNarrow : Refines .pop stack (stack.popNarrow.map Prod.snd) := by
  cases stack with
  | nil => exact refines_of_lt rfl (by decide)
  | cons a rest =>
    cases ha : a.isWide with
    | true =>
      have hpop : popNarrow (a :: rest) = .error (.wideOperand Shuffle.pop.opcode) := by
        simp [popNarrow, ha]
      exact refines_of_cut (congrArg _ hpop) (by simp [ha]; omega) rfl (by simp [ha])
    | false =>
      have hpop : popNarrow (a :: rest) = .ok (a, rest) := by simp [popNarrow, ha]
      exact refines_of_rearranges (congrArg _ hpop) (.drop [a] rest (by simp [ha]))

/-- `pop2` drops two words, in one slot or in two. -/
theorem refines_pop2 : Refines .pop2 stack stack.pop2 := by
  cases stack with
  | nil => exact refines_of_lt rfl (by decide)
  | cons a rest =>
    cases ha : a.isWide with
    | true => exact refines_of_rearranges (by simp [pop2, ha]) (.drop [a] rest (by simp [ha]))
    | false =>
      cases rest with
      | nil => exact refines_of_lt (by simp [pop2, ha]) (by simp [ha])
      | cons b rest =>
        cases hb : b.isWide with
        | true =>
          exact refines_of_cut (by simp [pop2, ha, hb]) (by simp [ha, hb]; omega) rfl
            (by simp [ha, hb])
        | false =>
          exact refines_of_rearranges (by simp [pop2, ha, hb])
            (.drop [a, b] rest (by simp [ha, hb]))

/-- `dup` copies one word. -/
theorem refines_dup : Refines .dup stack stack.dup := by
  cases stack with
  | nil => exact refines_of_lt rfl (by decide)
  | cons a rest =>
    cases ha : a.isWide with
    | true => exact refines_of_cut (by simp [dup, ha]) (by simp [ha]; omega) rfl (by simp [ha])
    | false =>
      exact refines_of_rearranges (by simp [dup, ha]) (.copy [a] [] rest (by simp [ha]) rfl)

/-- `dup_x1` copies one word below the next. -/
theorem refines_dupX1 : Refines .dupX1 stack stack.dupX1 := by
  rcases stack with _ | ⟨a, _ | ⟨b, rest⟩⟩
  · exact refines_of_lt rfl (by decide)
  · exact refines_singleton rfl rfl rfl rfl
  · by_cases hnarrow : a.isWide = false ∧ b.isWide = false
    · obtain ⟨ha, hb⟩ := hnarrow
      exact refines_of_rearranges (by simp [dupX1, ha, hb])
        (.copy [a] [b] rest (by simp [ha]) (by simp [hb]))
    · exact refines_wide_pair (by simp [dupX1, hnarrow]) rfl rfl rfl hnarrow

/-- `swap` exchanges two words. -/
theorem refines_swap : Refines .swap stack stack.swap := by
  rcases stack with _ | ⟨a, _ | ⟨b, rest⟩⟩
  · exact refines_of_lt rfl (by decide)
  · exact refines_singleton rfl rfl rfl rfl
  · by_cases hnarrow : a.isWide = false ∧ b.isWide = false
    · obtain ⟨ha, hb⟩ := hnarrow
      exact refines_of_rearranges (by simp [swap, ha, hb])
        (.exchange [a] [b] rest (by simp [ha]) (by simp [hb]))
    · exact refines_wide_pair (by simp [swap, hnarrow]) rfl rfl rfl hnarrow

/-- The form of `dup_x2` with three narrow slots. -/
theorem refines_dupX2_of_narrow (ha : a.isWide = false) (hb : b.isWide = false) :
    Refines .dupX2 (a :: b :: rest) (dupX2 (a :: b :: rest)) := by
  cases rest with
  | nil => exact refines_of_lt (by simp [dupX2, ha, hb]) (by simp [ha, hb])
  | cons c rest =>
    cases hc : c.isWide with
    | true =>
      exact refines_of_cut (by simp [dupX2, ha, hb, hc]) (by simp [ha, hb, hc]; omega) rfl
        (by simp [ha, hb, hc])
    | false =>
      exact refines_of_rearranges (by simp [dupX2, ha, hb, hc])
        (.copy [a] [b, c] rest (by simp [ha]) (by simp [hb, hc]))

/-- `dup_x2` copies one word below the next two, in one slot or in two. -/
theorem refines_dupX2 : Refines .dupX2 stack stack.dupX2 := by
  rcases stack with _ | ⟨a, _ | ⟨b, rest⟩⟩
  · exact refines_of_lt rfl (by decide)
  · exact refines_of_lt rfl (by simp; split <;> omega)
  · cases ha : a.isWide with
    | true =>
      have hb := length_words_slot_pos b
      exact refines_of_cut (by simp [dupX2, ha]) (by simp [ha] at hb ⊢; omega) rfl (by simp [ha])
    | false =>
      cases hb : b.isWide with
      | true =>
        exact refines_of_rearranges (by simp [dupX2, ha, hb])
          (.copy [a] [b] rest (by simp [ha]) (by simp [hb]))
      | false => exact refines_dupX2_of_narrow ha hb

/-- `dup2` copies two words, in one slot or in two. -/
theorem refines_dup2 : Refines .dup2 stack stack.dup2 := by
  cases stack with
  | nil => exact refines_of_lt rfl (by decide)
  | cons a rest =>
    cases ha : a.isWide with
    | true =>
      exact refines_of_rearranges (by simp [dup2, ha]) (.copy [a] [] rest (by simp [ha]) rfl)
    | false =>
      cases rest with
      | nil => exact refines_of_lt (by simp [dup2, ha]) (by simp [ha])
      | cons b rest =>
        cases hb : b.isWide with
        | true =>
          exact refines_of_cut (by simp [dup2, ha, hb]) (by simp [ha, hb]; omega) rfl
            (by simp [ha, hb])
        | false =>
          exact refines_of_rearranges (by simp [dup2, ha, hb])
            (.copy [a, b] [] rest (by simp [ha, hb]) rfl)

/-- The form of `dup2_x1` with a wide slot on top. -/
theorem refines_dup2X1_of_wide (ha : a.isWide = true) :
    Refines .dup2X1 (a :: rest) (dup2X1 (a :: rest)) := by
  cases rest with
  | nil => exact refines_of_lt (by simp [dup2X1]) (by simp [ha])
  | cons b rest =>
    cases hb : b.isWide with
    | true =>
      have hoverlooks : Shuffle.dup2X1.overlooks (a :: b :: rest) = false := by
        cases rest with
        | nil => simp [Shuffle.overlooks, ha]
        | cons c rest => rfl
      exact refines_of_cut (by simp [dup2X1, ha, hb]) (by simp [ha, hb]; omega) hoverlooks
        (by simp [ha, hb])
    | false =>
      exact refines_of_rearranges (by simp [dup2X1, ha, hb])
        (.copy [a] [b] rest (by simp [ha]) (by simp [hb]))

/-- The form of `dup2_x1` with three narrow slots. -/
theorem refines_dup2X1_of_narrow (ha : a.isWide = false) :
    Refines .dup2X1 (a :: rest) (dup2X1 (a :: rest)) := by
  rcases rest with _ | ⟨b, _ | ⟨c, rest⟩⟩
  · exact refines_of_lt (by simp [dup2X1]) (by simp [ha])
  · have hx : dup2X1 [a, b] = .error .stackUnderflow := by simp [dup2X1, ha]
    cases hb : b.isWide with
    | true => exact refines_of_overlooks hx (by simp [Shuffle.overlooks, ha, hb]) (by simp [ha, hb])
    | false => exact refines_of_lt hx (by simp [ha, hb])
  · cases hb : b.isWide with
    | true =>
      have hc := length_words_slot_pos c
      exact refines_of_cut (by simp [dup2X1, ha, hb]) (by simp [ha, hb] at hc ⊢; omega) rfl
        (by simp [ha, hb])
    | false =>
      cases hc : c.isWide with
      | true =>
        exact refines_of_cut (by simp [dup2X1, ha, hb, hc]) (by simp [ha, hb, hc]; omega) rfl
          (by simp [ha, hb, hc])
      | false =>
        exact refines_of_rearranges (by simp [dup2X1, ha, hb, hc])
          (.copy [a, b] [c] rest (by simp [ha, hb]) (by simp [hc]))

/-- `dup2_x1` copies two words, in one slot or in two, below the next. -/
theorem refines_dup2X1 : Refines .dup2X1 stack stack.dup2X1 := by
  cases stack with
  | nil => exact refines_of_lt rfl (by decide)
  | cons a rest =>
    cases ha : a.isWide with
    | true => exact refines_dup2X1_of_wide ha
    | false => exact refines_dup2X1_of_narrow ha

/-- The forms of `dup2_x2` with a wide slot on top. -/
theorem refines_dup2X2_of_wide (ha : a.isWide = true) :
    Refines .dup2X2 (a :: rest) (dup2X2 (a :: rest)) := by
  cases rest with
  | nil => exact refines_of_lt (by simp [dup2X2]) (by simp [ha])
  | cons b rest =>
    cases hb : b.isWide with
    | true =>
      exact refines_of_rearranges (by simp [dup2X2, ha, hb])
        (.copy [a] [b] rest (by simp [ha]) (by simp [hb]))
    | false =>
      cases rest with
      | nil => exact refines_of_lt (by simp [dup2X2, ha, hb]) (by simp [ha, hb])
      | cons c rest =>
        cases hc : c.isWide with
        | true =>
          exact refines_of_cut (by simp [dup2X2, ha, hb, hc]) (by simp [ha, hb, hc]; omega) rfl
            (by simp [ha, hb, hc])
        | false =>
          exact refines_of_rearranges (by simp [dup2X2, ha, hb, hc])
            (.copy [a] [b, c] rest (by simp [ha]) (by simp [hb, hc]))

/-- The forms of `dup2_x2` with two narrow slots on top. -/
theorem refines_dup2X2_of_narrow (ha : a.isWide = false) (hb : b.isWide = false) :
    Refines .dup2X2 (a :: b :: rest) (dup2X2 (a :: b :: rest)) := by
  cases rest with
  | nil => exact refines_of_lt (by simp [dup2X2, ha]) (by simp [ha, hb])
  | cons c rest =>
    cases hc : c.isWide with
    | true =>
      exact refines_of_rearranges (by simp [dup2X2, ha, hb, hc])
        (.copy [a, b] [c] rest (by simp [ha, hb]) (by simp [hc]))
    | false =>
      cases rest with
      | nil => exact refines_of_lt (by simp [dup2X2, ha, hb, hc]) (by simp [ha, hb, hc])
      | cons d rest =>
        cases hd : d.isWide with
        | true =>
          exact refines_of_cut (by simp [dup2X2, ha, hb, hc, hd])
            (by simp [ha, hb, hc, hd]; omega) rfl (by simp [ha, hb, hc, hd])
        | false =>
          exact refines_of_rearranges (by simp [dup2X2, ha, hb, hc, hd])
            (.copy [a, b] [c, d] rest (by simp [ha, hb]) (by simp [hc, hd]))

/-- `dup2_x2` copies two words below the next two, both in one slot or in two. -/
theorem refines_dup2X2 : Refines .dup2X2 stack stack.dup2X2 := by
  cases stack with
  | nil => exact refines_of_lt rfl (by decide)
  | cons a rest =>
    cases ha : a.isWide with
    | true => exact refines_dup2X2_of_wide ha
    | false =>
      rcases rest with _ | ⟨b, _ | ⟨c, rest⟩⟩
      · exact refines_of_lt (by simp [dup2X2]) (by simp [ha])
      · exact refines_of_lt (by simp [dup2X2, ha]) (by simp [ha]; split <;> omega)
      · cases hb : b.isWide with
        | true =>
          have hc := length_words_slot_pos c
          exact refines_of_cut (by simp [dup2X2, ha, hb]) (by simp [ha, hb] at hc ⊢; omega) rfl
            (by simp [ha, hb])
        | false => exact refines_dup2X2_of_narrow ha hb

/-- Every shuffle does to the slots what its words ask for. -/
theorem refines_shuffle (shuffle : Shuffle) (stack : OperandStack) :
    Refines shuffle stack (stack.shuffle shuffle) := by
  cases shuffle with
  | pop => exact refines_popNarrow
  | pop2 => exact refines_pop2
  | dup => exact refines_dup
  | dupX1 => exact refines_dupX1
  | dupX2 => exact refines_dupX2
  | dup2 => exact refines_dup2
  | dup2X1 => exact refines_dup2X1
  | dup2X2 => exact refines_dup2X2
  | swap => exact refines_swap

/-- A shuffle brings in no slot. -/
theorem mem_of_mem_shuffle {shuffle : Shuffle} (h : stack.shuffle shuffle = .ok result)
    (hs : s ∈ result) : s ∈ stack := by
  have hrefines := refines_shuffle shuffle stack
  rw [h] at hrefines
  exact Rearranges.mem hrefines hs

end OperandStack

namespace Execution

/-- To carry out a shuffle is to shuffle the stack of the frame. -/
theorem execute_shuffle (origin : Nat) (shuffle : Shuffle) (f : Frame) :
    execute origin (.shuffle shuffle) f =
      match f.stack.shuffle shuffle with
      | .ok stack => .ok () { f with stack := stack }
      | .error t => .error t f := by
  simp only [execute, onStack]
  cases f.stack.shuffle shuffle <;> rfl

end Execution

namespace OperandStack

/-- **The shuffles do to slots what the instruction set does to words.**  A shuffle succeeds exactly
when the stack has the words it needs and none of its cuts goes through a wide slot; then the words
of the result are the rearranged words.  Otherwise the frame stays as it was, and the trap is an
underflow if words are missing.  If none is, the trap is a wide operand, unless the shuffle
overlooks the last of them. -/
theorem shuffle_refines_words (shuffle : Shuffle) (stack : OperandStack) :
    ((∃ result, stack.shuffle shuffle = .ok result) ↔
      shuffle.rearrangement.needs ≤ (words stack).length ∧
        ∀ d ∈ shuffle.rearrangement.cuts, Splits stack d) ∧
    (∀ result, stack.shuffle shuffle = .ok result →
      words result = shuffle.rearrangement.onWords (words stack)) ∧
    (∀ t, stack.shuffle shuffle = .error t →
      ((words stack).length < shuffle.rearrangement.needs → t = .stackUnderflow) ∧
      (shuffle.rearrangement.needs ≤ (words stack).length →
        (t = .wideOperand shuffle.opcode ↔ shuffle.overlooks stack = false) ∧
        (t = .stackUnderflow ↔ shuffle.overlooks stack = true))) ∧
    (∀ origin f, f.stack = stack → Execution.execute origin (.shuffle shuffle) f =
      match stack.shuffle shuffle with
      | .ok result => .ok () { f with stack := result }
      | .error t => .error t f) := by
  have hrefines := refines_shuffle shuffle stack
  refine ⟨⟨?_, ?_⟩, ?_, ?_, ?_⟩
  · rintro ⟨result, hok⟩
    rw [hok] at hrefines
    have hcuts := Rearranges.splits hrefines
    exact ⟨(hcuts _ shuffle.needs_mem_cuts).le_length, hcuts⟩
  · rintro ⟨-, hcuts⟩
    cases hresult : stack.shuffle shuffle with
    | ok result => exact ⟨result, rfl⟩
    | error t =>
      rw [hresult] at hrefines
      exact absurd hcuts hrefines.1
  · intro result hok
    rw [hok] at hrefines
    exact Rearranges.words hrefines
  · intro t herror
    rw [herror] at hrefines
    obtain ⟨-, rfl⟩ := hrefines
    refine ⟨fun hlt => if_pos (.inl hlt), fun hle => ?_⟩
    cases hoverlooks : shuffle.overlooks stack with
    | true =>
      rw [if_pos (.inr rfl)]
      exact ⟨⟨nofun, nofun⟩, ⟨fun _ => rfl, fun _ => rfl⟩⟩
    | false =>
      rw [if_neg (not_or.2 ⟨Nat.not_lt.2 hle, Bool.false_ne_true⟩)]
      exact ⟨⟨fun _ => rfl, fun _ => rfl⟩, ⟨nofun, nofun⟩⟩
  · rintro origin f rfl
    exact Execution.execute_shuffle origin shuffle f

/-- A lone wide slot has the two words that an exchange needs, and still underflows. -/
theorem swap_of_lone_wide_underflows :
    Shuffle.swap.rearrangement.needs ≤ (words [.long 1]).length ∧
      OperandStack.shuffle [.long 1] .swap = .error .stackUnderflow ∧
      OperandStack.shuffle [.long 1] .swap ≠ .error (.wideOperand Shuffle.swap.opcode) :=
  ⟨by decide, rfl, nofun⟩

end OperandStack

end MethodMachine
