/-
# Runs are iterated steps

`Frame.after f n` is the frame after `n` steps from `f`, where a step that traps counts like any
other.  A step *ends* a run if it traps or completes the frame, and `EndsAt f k` says that the step
from `f.after k` is the first that does.  Before it, both loops only go on to the next frame:

| run | from `f`, up to the first step that ends it, at `k` |
| --- | --- |
| `run` | takes `k + 1` steps and gives their conclusion |
| `runLimited none` | the same, with a fault for a trap |
| `runLimited (some n)`, `k < n` | the same as without a limit |
| `runLimited (some n)`, `n ≤ k` or no such `k` | takes `n` steps and is interrupted |
| `runLimited`, a stop requested after `n` steps, `n ≤ k` or no such `k` | the same |

The limited loop counts by the step counter of the frame, which a step that does not trap raises by
one (`steps_of_step`), so the count is the number of steps.  There are no other results: a run that
has one was interrupted or has met the step that ends it (`run_cases`, `runLimitedFrom_cases`).
-/

import MethodMachine.Proofs.Effects

namespace MethodMachine

namespace Frame

open Execution (left)

variable {f g : Frame} {t : Trap} {u : Unit} {k fuel start : Nat} {limit : Option Nat}
  {stop : StopSignal}

/-- The frame after one step, trap or not. -/
def next (f : Frame) : Frame := left (step f)

/-- The frame after some steps, traps or not. -/
def after (f : Frame) : Nat → Frame
  | 0 => f
  | n + 1 => (f.after n).next

/-- Steps in two goes are steps in one. -/
theorem after_add (f : Frame) (m n : Nat) : f.after (m + n) = (f.after m).after n := by
  induction n with
  | zero => rfl
  | succ n ih => rw [Nat.add_succ, after, after, ih]

/-- What each step keeps, any number of steps keeps. -/
theorem after_induction {motive : Frame → Prop} (h : motive f)
    (hnext : ∀ f, motive f → motive f.next) (n : Nat) : motive (f.after n) := by
  induction n with
  | zero => exact h
  | succ n ih => exact hnext _ ih

/-- The trap that a step raises, if it raises one. -/
def trap? (f : Frame) : Option Trap :=
  match step f with
  | .ok _ _ => none
  | .error t _ => some t

/-- A step that does not trap leaves the next frame. -/
theorem trap?_eq_none_iff : f.trap? = none ↔ step f = .ok () f.next := by
  unfold trap? next
  cases step f <;> simp [left]

/-- What a step does: it fails before anything has changed, or it carries out the operation that it
has decoded. -/
theorem step_cases (f : Frame) :
    (∃ t, step f = .error t f ∧
      (t = .alreadyReturned ∨ Operation.decode f.code f.pc = .error t)) ∨
    ∃ operation pc, Operation.decode f.code f.pc = .ok (operation, pc) ∧
      step f = Execution.execute f.pc operation { f with pc := pc, steps := f.steps + 1 } := by
  cases hstatus : f.status with
  | returned value =>
    refine .inl ⟨.alreadyReturned, ?_, .inl rfl⟩
    simp only [step, hstatus]
  | running =>
    cases hdecode : Operation.decode f.code f.pc with
    | error t =>
      refine .inl ⟨t, ?_, .inr rfl⟩
      simp only [step, hstatus, hdecode]
    | ok result =>
      obtain ⟨operation, pc⟩ := result
      refine .inr ⟨operation, pc, rfl, ?_⟩
      simp only [step, hstatus, hdecode]

/-- A step does not change the code. -/
@[simp] theorem code_next (f : Frame) : f.next.code = f.code := by
  unfold next
  rcases step_cases f with ⟨t, hstep, -⟩ | ⟨operation, pc, -, hstep⟩
  · rw [hstep]
    rfl
  · rw [hstep]
    exact (Execution.follows_execute _ _ _).change.code

/-- Neither do many. -/
@[simp] theorem code_after (f : Frame) (n : Nat) : (f.after n).code = f.code := by
  induction n with
  | zero => rfl
  | succ n ih => rw [after, code_next, ih]

/-- A step that does not trap counts one. -/
theorem steps_of_step (h : step f = .ok u g) : g.steps = f.steps + 1 := by
  rcases step_cases f with ⟨t, hstep, -⟩ | ⟨operation, pc, -, hstep⟩
  · rw [hstep] at h
    cases h
  · have hchange := (Execution.follows_execute f.pc operation
      { f with pc := pc, steps := f.steps + 1 }).change.steps
    rw [← hstep, h] at hchange
    exact hchange

/-- Whether a step ends a run: it traps, or the frame has returned after it. -/
def ends (f : Frame) : Bool :=
  match step f with
  | .ok _ g => g.isReturned
  | .error _ _ => true

/-- The step from `f.after k` is the first that ends a run. -/
def EndsAt (f : Frame) (k : Nat) : Prop :=
  (f.after k).ends = true ∧ ∀ i < k, (f.after i).ends = false

/-- After a step that does not end a run the frame runs on. -/
theorem step_of_not_ends (h : f.ends = false) :
    ∃ u, step f = .ok u f.next ∧ f.next.status = .running := by
  unfold ends at h
  unfold next
  split at h
  · rename_i u g hstep
    refine ⟨u, by rw [hstep]; rfl, ?_⟩
    rw [hstep]
    simpa [left, isReturned] using h
  · cases h

/-- As long as no step ends the run, each of them is counted. -/
theorem steps_after (h : ∀ i < k, (f.after i).ends = false) :
    (f.after k).steps = f.steps + k := by
  induction k with
  | zero => rfl
  | succ k ih =>
    obtain ⟨u, hstep, -⟩ := step_of_not_ends (h k (Nat.lt_succ_self k))
    have hbefore := ih fun i hi => h i (Nat.lt_succ_of_lt hi)
    rw [after, steps_of_step hstep, hbefore]
    omega

/-- What a limited run gives for the step that ends it: a fault for a trap, the value of a frame
that returned with nothing left on its stack, and a fault if something is left. -/
def conclusion (f : Frame) : EStateM.Result Fault Frame Outcome :=
  match step f with
  | .error t _ => .error ⟨t, f.pc, f.code[f.pc]?⟩ f.next
  | .ok _ _ =>
    if f.next.stack = [] then .ok (.returned f.next.value?) f.next
    else .error ⟨.stackNotEmpty f.next.stack.length, f.pc, f.code[f.pc]?⟩ f.next

/-- One turn of the loop: nothing interrupts, and the step does not end the run. -/
theorem runLimitedFrom_of_not_ends (hgo : interrupts limit stop (f.steps - start) = false)
    (h : f.ends = false) :
    runLimitedFrom start limit stop (fuel + 1) f =
      runLimitedFrom start limit stop fuel f.next := by
  obtain ⟨u, hstep, hstatus⟩ := step_of_not_ends h
  simp only [runLimitedFrom, hgo, hstep, hstatus, Bool.false_eq_true, if_false]

/-- The last turn of the loop: nothing interrupts, and the step ends the run. -/
theorem runLimitedFrom_of_ends (hgo : interrupts limit stop (f.steps - start) = false)
    (h : f.ends = true) :
    runLimitedFrom start limit stop (fuel + 1) f = some f.conclusion := by
  have hcode : f.next.code = f.code := code_next f
  unfold ends at h
  unfold conclusion
  unfold next at hcode ⊢
  cases hstep : step f with
  | error t g =>
    rw [hstep] at hcode
    change g.code = f.code at hcode
    simp only [runLimitedFrom, hgo, hstep, Bool.false_eq_true, if_false, fault, left, hcode]
  | ok u g =>
    rw [hstep] at h hcode
    change g.code = f.code at hcode
    cases hstatus : g.status with
    | running => simp [isReturned, hstatus] at h
    | returned value =>
      by_cases hstack : g.stack = []
      · simp [runLimitedFrom, hgo, hstep, hstatus, finish, hstack, left, value?]
      · simp [runLimitedFrom, hgo, hstep, hstatus, finish, hstack, left, fault, hcode]

/-- The turn in which a limited run is interrupted. -/
theorem runLimitedFrom_of_interrupts (h : interrupts limit stop (f.steps - start) = true) :
    runLimitedFrom start limit stop (fuel + 1) f =
      some (.ok (.interrupted (f.steps - start)) f) := by
  simp only [runLimitedFrom, h, if_true]

/-- The first `k` turns of a limited run, if none of them ends it. -/
theorem runLimitedFrom_after
    (h : ∀ i < k, (f.after i).ends = false ∧
      interrupts limit stop ((f.after i).steps - start) = false) :
    runLimitedFrom start limit stop (fuel + k) f =
      runLimitedFrom start limit stop fuel (f.after k) := by
  induction k generalizing fuel with
  | zero => rfl
  | succ k ih =>
    obtain ⟨hends, hgo⟩ := h k (Nat.lt_succ_self k)
    have hbefore := @ih (fuel + 1) fun i hi => h i (Nat.lt_succ_of_lt hi)
    rw [show fuel + (k + 1) = fuel + 1 + k by omega, hbefore,
      runLimitedFrom_of_not_ends hgo hends]
    rfl

/-- The first `k` turns of a run, if none of them ends it. -/
theorem run_after (h : ∀ i < k, (f.after i).ends = false) :
    run (fuel + k) f = run fuel (f.after k) := by
  induction k generalizing fuel with
  | zero => rfl
  | succ k ih =>
    obtain ⟨u, hstep, hstatus⟩ := step_of_not_ends (h k (Nat.lt_succ_self k))
    have hbefore := @ih (fuel + 1) fun i hi => h i (Nat.lt_succ_of_lt hi)
    rw [show fuel + (k + 1) = fuel + 1 + k by omega, hbefore]
    simp only [run, hstep, hstatus]
    rfl

/-- A run concludes as a limited run does: with the same value, or the same trap without its
place. -/
theorem run_of_ends (h : f.ends = true) :
    (∃ value, run (fuel + 1) f = some (.ok value f.next) ∧
      f.conclusion = .ok (.returned value) f.next) ∨
    ∃ t, run (fuel + 1) f = some (.error t f.next) ∧
      f.conclusion = .error ⟨t, f.pc, f.code[f.pc]?⟩ f.next := by
  unfold ends at h
  unfold conclusion next
  cases hstep : step f with
  | error t g => exact .inr ⟨t, by simp only [run, hstep, left], rfl⟩
  | ok u g =>
    rw [hstep] at h
    cases hstatus : g.status with
    | running => simp [isReturned, hstatus] at h
    | returned value =>
      by_cases hstack : g.stack = []
      · refine .inl ⟨value, ?_, ?_⟩
        · simp [run, hstep, hstatus, finish, hstack, left]
        · simp [left, hstack, value?, hstatus]
      · refine .inr ⟨.stackNotEmpty g.stack.length, ?_, ?_⟩
        · simp [run, hstep, hstatus, finish, hstack, left]
        · simp [left, hstack]

/-- No step before the first that ends a run ends it. -/
theorem not_ends_of_lt {n : Nat} (h : ∀ k, f.EndsAt k → n ≤ k) (i : Nat) (hi : i < n) :
    (f.after i).ends = false := by
  induction i using Nat.strongRecOn with
  | ind i ih =>
    rw [← Bool.not_eq_true]
    intro hends
    have hfirst : f.EndsAt i := ⟨hends, fun j hj => ih j hj (Nat.lt_trans hj hi)⟩
    exact absurd (h i hfirst) (Nat.not_le.2 hi)

/-- As long as no step ends a run, the steps that it counts are those that were made. -/
theorem steps_after_sub (h : ∀ i < k, (f.after i).ends = false) :
    (f.after k).steps - f.steps = k := by
  rw [steps_after h, Nat.add_sub_cancel_left]

/-- A limited run goes on below its limit and until a stop is requested. -/
theorem interrupts_eq_false {i : Nat} (hlimit : ∀ n, limit = some n → i < n)
    (hstop : stop i = false) : interrupts limit stop i = false := by
  rw [interrupts, hstop, Bool.false_or]
  cases limit with
  | none => rfl
  | some n => exact decide_eq_false (Nat.not_le.2 (hlimit n rfl))

/-- A limited run that meets no step that ends it is interrupted when its limit is reached or a stop
is requested. -/
theorem runLimited_of_interrupts {n : Nat} (hfuel : n < fuel)
    (h : ∀ i < n, (f.after i).ends = false) (hgo : ∀ i < n, interrupts limit stop i = false)
    (hend : interrupts limit stop n = true) :
    runLimited limit stop fuel f = some (.ok (.interrupted n) (f.after n)) := by
  obtain ⟨fuel, rfl⟩ : ∃ m, fuel = m + 1 + n := ⟨fuel - n - 1, by omega⟩
  have hturns : ∀ i < n, interrupts limit stop ((f.after i).steps - f.steps) = false := by
    intro i hi
    rw [steps_after_sub fun j hj => h j (Nat.lt_trans hj hi)]
    exact hgo i hi
  have hlast : (f.after n).steps - f.steps = n := steps_after_sub h
  rw [runLimited, runLimitedFrom_after fun i hi => ⟨h i hi, hturns i hi⟩,
    runLimitedFrom_of_interrupts (hlast.symm ▸ hend), hlast]

/-- A limited run in which no step up to the limit ends it is interrupted there. -/
theorem runLimited_of_not_ends {n : Nat} (hfuel : n < fuel)
    (h : ∀ i < n, (f.after i).ends = false) (hstop : ∀ i < n, stop i = false) :
    runLimited (some n) stop fuel f = some (.ok (.interrupted n) (f.after n)) := by
  have hgo : ∀ i < n, interrupts (some n) stop i = false := fun i hi =>
    interrupts_eq_false (fun m hm => Option.some.inj hm ▸ hi) (hstop i hi)
  refine runLimited_of_interrupts hfuel h hgo ?_
  rw [interrupts, reaches, decide_eq_true (Nat.le_refl n), Bool.or_true]

/-- A limited run in which no step ends it before a stop is requested is interrupted there. -/
theorem runLimited_of_stop {n : Nat} (hfuel : n < fuel) (h : ∀ i < n, (f.after i).ends = false)
    (hlimit : ∀ m, limit = some m → n ≤ m) (hbefore : ∀ i < n, stop i = false)
    (hstop : stop n = true) :
    runLimited limit stop fuel f = some (.ok (.interrupted n) (f.after n)) := by
  refine runLimited_of_interrupts hfuel h (fun i hi => ?_) ?_
  · exact interrupts_eq_false (fun m hm => Nat.lt_of_lt_of_le hi (hlimit m hm)) (hbefore i hi)
  · rw [interrupts, hstop, Bool.true_or]

/-- A limited run that meets the step that ends it before its limit concludes with it. -/
theorem runLimited_of_endsAt (hfuel : k < fuel) (hk : f.EndsAt k)
    (hlimit : ∀ n, limit = some n → k < n) (hstop : ∀ i ≤ k, stop i = false) :
    runLimited limit stop fuel f = some (f.after k).conclusion := by
  obtain ⟨fuel, rfl⟩ : ∃ m, fuel = m + 1 + k := ⟨fuel - k - 1, by omega⟩
  have hgo : ∀ i ≤ k, interrupts limit stop ((f.after i).steps - f.steps) = false := by
    intro i hi
    rw [steps_after_sub fun j hj => hk.2 j (Nat.lt_of_lt_of_le hj hi)]
    exact interrupts_eq_false (fun n hn => Nat.lt_of_le_of_lt hi (hlimit n hn)) (hstop i hi)
  rw [runLimited, runLimitedFrom_after fun i hi => ⟨hk.2 i hi, hgo i (Nat.le_of_lt hi)⟩]
  exact runLimitedFrom_of_ends (hgo k (Nat.le_refl k)) hk.1

/-- The first of some steps comes first. -/
theorem after_succ (f : Frame) (n : Nat) : f.after (n + 1) = f.next.after n := by
  rw [Nat.add_comm, after_add]
  rfl

/-- The step that ends a run may be the first. -/
theorem endsAt_zero (h : f.ends = true) : f.EndsAt 0 :=
  ⟨h, fun i hi => absurd hi (Nat.not_lt_zero i)⟩

/-- If it is not, it comes one step later than from the next frame. -/
theorem EndsAt.of_next (hends : f.ends = false) (h : f.next.EndsAt k) : f.EndsAt (k + 1) := by
  constructor
  · rw [after_succ]
    exact h.1
  · intro i hi
    cases i with
    | zero => exact hends
    | succ i =>
      rw [after_succ]
      exact h.2 i (Nat.lt_of_succ_lt_succ hi)

/-- A run that has a result took all steps up to and with the first that ends it. -/
theorem run_cases {r : EStateM.Result Trap Frame (Option Slot)} (h : run fuel f = some r) :
    ∃ k, f.EndsAt k ∧
      ((∃ value, r = .ok value (f.after (k + 1)) ∧
        (f.after k).conclusion = .ok (.returned value) (f.after (k + 1))) ∨
      ∃ t, r = .error t (f.after (k + 1)) ∧ (f.after k).conclusion =
        .error ⟨t, (f.after k).pc, (f.after k).code[(f.after k).pc]?⟩ (f.after (k + 1))) := by
  induction fuel generalizing f with
  | zero => cases h
  | succ fuel ih =>
    cases hends : f.ends with
    | true =>
      refine ⟨0, endsAt_zero hends, ?_⟩
      rcases @run_of_ends f fuel hends with
        ⟨value, hrun, hconclusion⟩ | ⟨t, hrun, hconclusion⟩
      · rw [hrun] at h
        cases h
        exact .inl ⟨value, rfl, hconclusion⟩
      · rw [hrun] at h
        cases h
        exact .inr ⟨t, rfl, hconclusion⟩
    | false =>
      obtain ⟨u, hstep, hstatus⟩ := step_of_not_ends hends
      simp only [run, hstep, hstatus] at h
      obtain ⟨k, hk, hresult⟩ := ih h
      rw [← after_succ, ← after_succ] at hresult
      exact ⟨k + 1, hk.of_next hends, hresult⟩

/-- A limited run that has a result was interrupted after some steps, or took all steps up to and
with the first that ends it. -/
theorem runLimitedFrom_cases {r : EStateM.Result Fault Frame Outcome}
    (h : runLimitedFrom start limit stop fuel f = some r) :
    (∃ n count, r = .ok (.interrupted count) (f.after n)) ∨
    ∃ k, f.EndsAt k ∧ r = (f.after k).conclusion := by
  induction fuel generalizing f with
  | zero => cases h
  | succ fuel ih =>
    cases hend : interrupts limit stop (f.steps - start) with
    | true =>
      rw [runLimitedFrom_of_interrupts hend] at h
      cases h
      exact .inl ⟨0, _, rfl⟩
    | false =>
      cases hends : f.ends with
      | true =>
        rw [runLimitedFrom_of_ends hend hends] at h
        cases h
        exact .inr ⟨0, endsAt_zero hends, rfl⟩
      | false =>
        rw [runLimitedFrom_of_not_ends hend hends] at h
        rcases ih h with ⟨n, count, rfl⟩ | ⟨k, hk, rfl⟩
        · exact .inl ⟨n + 1, count, by rw [after_succ]⟩
        · exact .inr ⟨k + 1, hk.of_next hends, by rw [after_succ]⟩

/-- The step that ends a run leaves the next frame, whatever the conclusion is. -/
theorem conclusion_cases (f : Frame) :
    (∃ value, f.conclusion = .ok (.returned value) f.next) ∨
    ∃ fault, f.conclusion = .error fault f.next := by
  unfold conclusion
  cases step f with
  | error t g => exact .inr ⟨_, rfl⟩
  | ok u g =>
    dsimp only
    split
    · exact .inl ⟨_, rfl⟩
    · exact .inr ⟨_, rfl⟩

/-- **Runs are iterated steps.**  A limited run that meets no step that ends it within its limit
takes exactly as many steps as it may, and is interrupted.  Otherwise, and without a limit, it takes
all steps up to and with the first that ends it, and gives its conclusion; an unlimited run ends in
the same frame with the same value or the same trap.  All this is so unless a stop is requested
while the run goes on.  Then the run has taken exactly the steps up to there, and is interrupted; it
does nothing if the stop was requested before. -/
theorem runs_are_iterated_steps (f : Frame) :
    (∀ n stop fuel, n < fuel → (∀ k, f.EndsAt k → n ≤ k) → (∀ i < n, stop i = false) →
      runLimited (some n) stop fuel f = some (.ok (.interrupted n) (f.after n))) ∧
    (∀ k limit stop fuel, k < fuel → f.EndsAt k → (∀ n, limit = some n → k < n) →
      (∀ i ≤ k, stop i = false) →
      runLimited limit stop fuel f = some (f.after k).conclusion) ∧
    (∀ k stop fuel, k < fuel → f.EndsAt k → (∀ i ≤ k, stop i = false) →
      (∃ value, run fuel f = some (.ok value (f.after (k + 1))) ∧
        runLimited none stop fuel f = some (.ok (.returned value) (f.after (k + 1)))) ∨
      ∃ t, run fuel f = some (.error t (f.after (k + 1))) ∧
        runLimited none stop fuel f =
          some (.error ⟨t, (f.after k).pc, f.code[(f.after k).pc]?⟩ (f.after (k + 1)))) ∧
    (∀ n limit stop fuel, n < fuel → (∀ k, f.EndsAt k → n ≤ k) → (∀ m, limit = some m → n ≤ m) →
      (∀ i < n, stop i = false) → stop n = true →
      runLimited limit stop fuel f = some (.ok (.interrupted n) (f.after n))) ∧
    (∀ limit stop fuel, 0 < fuel → stop 0 = true →
      runLimited limit stop fuel f = some (.ok (.interrupted 0) f)) := by
  refine ⟨?_, ?_, ?_, ?_, ?_⟩
  · intro n stop fuel hfuel hfirst hstop
    exact runLimited_of_not_ends hfuel (not_ends_of_lt hfirst) hstop
  · intro k limit stop fuel hfuel hk hlimit hstop
    exact runLimited_of_endsAt hfuel hk hlimit hstop
  · intro k stop fuel hfuel hk hstop
    have hlimited : runLimited none stop fuel f = some (f.after k).conclusion :=
      runLimited_of_endsAt hfuel hk nofun hstop
    rw [hlimited]
    obtain ⟨fuel, rfl⟩ : ∃ m, fuel = m + 1 + k := ⟨fuel - k - 1, by omega⟩
    rw [run_after hk.2, ← code_after f k]
    rcases @run_of_ends (f.after k) fuel hk.1 with
      ⟨value, hrun, hconclusion⟩ | ⟨t, hrun, hconclusion⟩
    · exact .inl ⟨value, hrun, congrArg some hconclusion⟩
    · exact .inr ⟨t, hrun, congrArg some hconclusion⟩
  · intro n limit stop fuel hfuel hfirst hlimit hbefore hstop
    exact runLimited_of_stop hfuel (not_ends_of_lt hfirst) hlimit hbefore hstop
  · intro limit stop fuel hfuel hstop
    exact runLimited_of_stop hfuel (fun i hi => absurd hi (Nat.not_lt_zero i))
      (fun m _ => Nat.zero_le m) (fun i hi => absurd hi (Nat.not_lt_zero i)) hstop

end Frame

end MethodMachine
