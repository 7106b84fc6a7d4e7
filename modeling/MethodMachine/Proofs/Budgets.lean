/-
# Budgets compose

A host that must not leave a frame alone for long lets it run in turns.  Each turn is a limited run
with a budget of its own, and the host goes on to the next turn as long as it hears that the last
one was interrupted (`Frame.answersInTurns`).

A limited run counts from the step count at which it begins, so each turn has its whole budget, and
it looks at the budget before every step, so a turn without a budget does nothing.  The turns then
make the steps of one run with all budgets together.  Let the step from `f.after k` be the first
that ends a run:

| | turns | one run |
| --- | --- | --- |
| the sum is at most `k` | each is interrupted at its budget | interrupted at the sum |
| the sum is more than `k` | the turn that reaches `k` concludes | concludes with the same step |

The step that ends the run may be the last one that a budget allows: the turn then concludes and is
not interrupted.
-/

import MethodMachine.Proofs.Calls

namespace MethodMachine

/-- Whether the answer is that a run was interrupted. -/
def Answer.isInterrupted : Answer → Bool
  | outcome (.interrupted _) => true
  | _ => false

namespace Frame

/-- The number of steps that budgets allow together. -/
def totalBudget : List Nat → Nat
  | [] => 0
  | budget :: budgets => budget + totalBudget budgets

/-- The answers to limited runs, one for each budget, up to the first that is not interrupted, and
the frame that they leave. -/
def answersInTurns (fuel : Nat) (f : Frame) : List Nat → Option (List Answer × Frame)
  | [] => some ([], f)
  | budget :: budgets =>
    match f.answer fuel (.runLimited (some budget) .never) with
    | none => none
    | some (answer, g) =>
      if answer.isInterrupted then
        match g.answersInTurns fuel budgets with
        | none => none
        | some (answers, h) => some (answer :: answers, h)
      else some ([answer], g)

variable {f : Frame} {k n fuel : Nat} {budgets : List Nat}

/-- Between the start and the first step that ends a run, the same step is the first. -/
theorem EndsAt.of_after {m : Nat} (h : f.EndsAt (m + k)) : (f.after m).EndsAt k := by
  constructor
  · rw [← after_add]
    exact h.1
  · intro i hi
    rw [← after_add]
    exact h.2 (m + i) (Nat.add_lt_add_left hi m)

/-- Within a number of steps there is a first that ends a run, or none ends it. -/
theorem endsAt_or_not_ends (f : Frame) (n : Nat) :
    (∃ k < n, f.EndsAt k) ∨ ∀ i < n, (f.after i).ends = false := by
  by_cases h : ∃ k < n, f.EndsAt k
  · exact .inl h
  · refine .inr (not_ends_of_lt fun k hk => ?_)
    exact Nat.le_of_not_lt fun hlt => h ⟨k, hlt, hk⟩

/-- What a limited run answers after the step that ends it. -/
def lastAnswer (f : Frame) : Answer := (Answer.ofResult .outcome .faulted f.conclusion).1

theorem ofResult_conclusion (f : Frame) :
    Answer.ofResult .outcome .faulted f.conclusion = (f.lastAnswer, f.next) := by
  rw [lastAnswer]
  rcases conclusion_cases f with ⟨value, hvalue⟩ | ⟨fault, hfault⟩
  · rw [hvalue]
    rfl
  · rw [hfault]
    rfl

/-- A run that has met the step that ends it is not interrupted. -/
theorem isInterrupted_lastAnswer (f : Frame) : f.lastAnswer.isInterrupted = false := by
  rw [lastAnswer]
  rcases conclusion_cases f with ⟨value, hvalue⟩ | ⟨fault, hfault⟩
  · rw [hvalue]
    rfl
  · rw [hfault]
    rfl

/-- A run whose budget allows the step that ends it answers with that step, whatever is left of the
budget. -/
theorem answer_of_endsAt (hfuel : k < fuel) (hk : f.EndsAt k) (hlt : k < n) :
    f.answer fuel (.runLimited (some n) .never) =
      some ((f.after k).lastAnswer, f.after (k + 1)) := by
  have hrun : runLimited (some n) .never fuel f = some (f.after k).conclusion :=
    runLimited_of_endsAt hfuel hk (fun m hm => Option.some.inj hm ▸ hlt) fun _ _ => rfl
  rw [answer, hrun, Option.map_some, ofResult_conclusion]
  rfl

/-- A run that meets no step that ends it answers that it was interrupted at its budget. -/
theorem answer_of_not_ends (hfuel : n < fuel) (h : ∀ i < n, (f.after i).ends = false) :
    f.answer fuel (.runLimited (some n) .never) =
      some (.outcome (.interrupted n), f.after n) := by
  have hrun : runLimited (some n) .never fuel f = some (.ok (.interrupted n) (f.after n)) :=
    runLimited_of_not_ends hfuel h fun _ _ => rfl
  rw [answer, hrun]
  rfl

/-- Turns in which no step ends a run are all interrupted, each at its budget. -/
theorem answersInTurns_of_not_ends (hfuel : ∀ budget ∈ budgets, budget < fuel)
    (h : ∀ i < totalBudget budgets, (f.after i).ends = false) :
    f.answersInTurns fuel budgets =
      some (budgets.map fun budget => .outcome (.interrupted budget),
        f.after (totalBudget budgets)) := by
  induction budgets generalizing f with
  | nil => rfl
  | cons budget budgets ih =>
    obtain ⟨hbudget, hbudgets⟩ := List.forall_mem_cons.1 hfuel
    have hfirst := answer_of_not_ends hbudget fun i hi =>
      h i (Nat.lt_of_lt_of_le hi (Nat.le_add_right _ _))
    have hrest : ∀ i < totalBudget budgets, ((f.after budget).after i).ends = false := by
      intro i hi
      rw [← after_add]
      exact h (budget + i) (Nat.add_lt_add_left hi budget)
    simp only [answersInTurns, hfirst, Answer.isInterrupted, if_true, ih hbudgets hrest]
    rw [totalBudget, after_add, List.map_cons]

/-- Turns that together allow the step that ends a run are interrupted, each at its budget, up to
the one that makes this step and answers with it. -/
theorem answersInTurns_of_endsAt (hfuel : ∀ budget ∈ budgets, budget < fuel) (hk : f.EndsAt k)
    (hlt : k < totalBudget budgets) :
    ∃ count < budgets.length, f.answersInTurns fuel budgets =
      some ((budgets.take count).map (fun budget => .outcome (.interrupted budget)) ++
        [(f.after k).lastAnswer], f.after (k + 1)) := by
  induction budgets generalizing f k with
  | nil => cases hlt
  | cons budget budgets ih =>
    obtain ⟨hbudget, hbudgets⟩ := List.forall_mem_cons.1 hfuel
    by_cases hturn : k < budget
    · refine ⟨0, Nat.zero_lt_succ _, ?_⟩
      have hfirst := answer_of_endsAt (Nat.lt_trans hturn hbudget) hk hturn
      simp [answersInTurns, hfirst, isInterrupted_lastAnswer]
    · -- the first turn ends before that step, and the next begins as much nearer to it
      obtain ⟨later, rfl⟩ := Nat.exists_eq_add_of_le (Nat.le_of_not_lt hturn)
      have hfirst := answer_of_not_ends hbudget fun i hi =>
        hk.2 i (Nat.lt_of_lt_of_le hi (Nat.le_add_right _ _))
      obtain ⟨count, hcount, hrest⟩ := ih hbudgets hk.of_after (Nat.lt_of_add_lt_add_left hlt)
      refine ⟨count + 1, Nat.succ_lt_succ hcount, ?_⟩
      rw [← after_add, ← after_add, ← Nat.add_assoc] at hrest
      simp only [answersInTurns, hfirst, Answer.isInterrupted, if_true, hrest]
      rfl

/-- **Budgets compose.**  Turns with some budgets leave the frame that one run with all of them
together leaves.  Either all turns are interrupted, each at its own budget, and so is the one run,
at the sum; or some turn, after others that are interrupted at their budgets, gives the answer of
the one run, a value or a fault. -/
theorem budgets_compose (f : Frame) (budgets : List Nat) (fuel fuel' : Nat)
    (hfuel : ∀ budget ∈ budgets, budget < fuel) (hfuel' : totalBudget budgets < fuel') :
    ∃ answers g, f.answersInTurns fuel budgets = some (answers, g) ∧
      (answers = budgets.map (fun budget => .outcome (.interrupted budget)) ∧
        f.answer fuel' (.runLimited (some (totalBudget budgets)) .never) =
          some (.outcome (.interrupted (totalBudget budgets)), g) ∨
      ∃ count last, count < budgets.length ∧ last.isInterrupted = false ∧
        answers =
          (budgets.take count).map (fun budget => .outcome (.interrupted budget)) ++ [last] ∧
        f.answer fuel' (.runLimited (some (totalBudget budgets)) .never) = some (last, g)) := by
  rcases endsAt_or_not_ends f (totalBudget budgets) with ⟨k, hlt, hk⟩ | hnone
  · obtain ⟨count, hcount, hturns⟩ := answersInTurns_of_endsAt hfuel hk hlt
    have hwhole := answer_of_endsAt (Nat.lt_trans hlt hfuel') hk hlt
    exact ⟨_, _, hturns, .inr ⟨count, _, hcount, isInterrupted_lastAnswer _, rfl, hwhole⟩⟩
  · have hturns := answersInTurns_of_not_ends hfuel hnone
    have hwhole := answer_of_not_ends hfuel' hnone
    exact ⟨_, _, hturns, .inl ⟨rfl, hwhole⟩⟩

/-- The code is `iload_0; ireturn`.  The return is the last step that the third of four turns
allows, and the second turn allows none. -/
theorem return_at_end_of_budget :
    let f := { new #[0x1A, 0xAC] 1 #[] with locals := #[.int 7] }
    let g := { f with pc := 2, status := .returned (some (.int 7)), steps := 2 }
    (∀ budget ∈ [1, 0, 1, 3], budget < 4) ∧ totalBudget [1, 0, 1, 3] < 6 ∧
      f.answersInTurns 4 [1, 0, 1, 3] = some ([.outcome (.interrupted 1),
        .outcome (.interrupted 0), .outcome (.returned (some (.int 7)))], g) ∧
      ∃ answers h, f.answersInTurns 4 [1, 0, 1, 3] = some (answers, h) ∧
        ∃ last, f.answer 6 (.runLimited (some 5) .never) = some (last, h) := by
  refine ⟨by decide, by decide, rfl, ?_⟩
  obtain ⟨answers, h, hturns, ⟨-, hwhole⟩ | ⟨-, last, -, -, -, hwhole⟩⟩ :=
    budgets_compose _ [1, 0, 1, 3] 4 6 (by decide) (by decide)
  · exact ⟨answers, h, hturns, _, hwhole⟩
  · exact ⟨answers, h, hturns, last, hwhole⟩

end Frame

end MethodMachine
