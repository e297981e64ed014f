import RobotScript.Proofs.Completion

/-!
# What a success report means

A run that says that no action is left, and a run to the end that returns, speak
of success.  Where the last word has been said by a step, the word is good: all
actions written in the program have been performed.

A run with a budget of zero makes no step.  It asks the look-ahead alone, and
this looks at what is ahead of the cursor.  A refused action is behind the
cursor although it has not been performed.  So if the last action of a program
has been refused, the look-ahead finds nothing left, and a run with a budget of
zero reports a success that has not been.  This is the only exception, and
`success_reports` says exactly when it occurs.

## Main results

* `Reachable.ahead_of_halted` — what is ahead of a refused execution.
* `runFrom_ok` — a run that does not fail says what the look-ahead says.
* `carried_out_of_finished` — at the end all actions have been performed.
* `success_reports` — what the reports of success mean, after any history.
* `run_zero_behind_refusal` — a success report that is not true.
-/

namespace RobotScript

namespace Execution

variable {σ ε : Type} {p : Program} {robot : Robot σ ε}

/-! ## Behind a refusal -/

/-- **Ahead of a refused execution** is the course behind the refused action,
which is the one at the number of actions performed. -/
theorem Reachable.ahead_of_halted {x : Execution} (hx : Reachable p x)
    (hhalted : x.halted = true) :
    (∃ a, p.course.get? x.steps = some a) ∧
      ∀ i, x.course.get? i = p.course.get? (x.steps + 1 + i) := by
  induction hx with
  | start => cases hhalted
  | @step σ ε x x' s s' robot hx h ih =>
      have hstepped := stepped robot x s
      generalize Execution.step robot (x, s) = r at h hstepped
      cases hstepped with
      | halted hbefore =>
          cases h
          exact ih hbefore
      | finished hrunning _ =>
          cases h
          simp [hrunning] at hhalted
      | performed hrunning _ _ =>
          cases h
          simp [hrunning] at hhalted
      | @refused a frames _ _ hrunning hwalk _ =>
          cases h
          refine ⟨⟨a, hx.get?_of_walk hrunning hwalk⟩, fun i => ?_⟩
          -- The cursor has moved past the action before the robot refused it.
          have hnext : x.course.get? (i + 1) =
              (courseAhead false frames).get? i := (walk_eq_some hwalk).2 i
          show (courseAhead false frames).get? i =
            p.course.get? (x.steps + 1 + i)
          rw [← hnext, hx.ahead hrunning (i + 1)]
          congr 1
          omega

/-- The look-ahead finds nothing left behind a refusal exactly if it was the
last action that was refused. -/
theorem Reachable.isFinished_iff_of_halted {x : Execution}
    (hx : Reachable p x) (hhalted : x.halted = true) :
    x.isFinished = true ↔ p.course.length? = some (x.steps + 1) := by
  obtain ⟨⟨a, ha⟩, hahead⟩ := hx.ahead_of_halted hhalted
  have hnext : x.course.get? 0 = p.course.get? (x.steps + 1) := hahead 0
  rw [isFinished_iff_course hx.settled, ← Course.get?_zero_eq_none_iff, hnext,
    Course.get?_eq_none_iff]
  constructor
  · rintro ⟨l, hl, hle⟩
    -- The refused action itself belongs to the course.
    have hlt : x.steps < l := by
      apply Nat.lt_of_not_le
      intro hge
      rw [Course.get?_eq_none_iff.2 ⟨l, hl, hge⟩] at ha
      cases ha
    rw [hl, show l = x.steps + 1 by omega]
  · intro hl
    exact ⟨x.steps + 1, hl, Nat.le_refl _⟩

/-! ## Reports -/

/-- A run that does not fail has not been refused, and says what the look-ahead
says where it stops. -/
theorem runFrom_ok {taken budget : Nat} {state after : Execution × σ}
    {summary : RunSummary} (hrunning : state.1.halted = false)
    (h : runFrom robot taken budget state = .ok summary after) :
    after.1.halted = false ∧ after.1.isFinished = summary.finished := by
  induction budget generalizing taken state with
  | zero =>
      cases h
      exact ⟨hrunning, rfl⟩
  | succ budget ih =>
      obtain ⟨x, s⟩ := state
      have hstepped := stepped robot x s
      simp only [runFrom] at h
      generalize step robot (x, s) = r at h hstepped
      cases hstepped with
      | halted _ => cases h
      | finished _ _ =>
          cases h
          exact ⟨hrunning, rfl⟩
      | @performed a frames s' _ _ _ =>
          have hrest : runFrom robot (taken + 1) budget
              ({ x with frames, steps := x.steps + 1 }, s') =
                .ok summary after := h
          refine ih ?_ hrest
          exact hrunning
      | refused _ _ _ => cases h

/-- A run to the end that returns has not been refused, and a step finds no
action left. -/
theorem runToEnd_ok {limit n : Nat} {state after : Execution × σ}
    (h : runToEnd robot limit state = .ok (some n) after) :
    after.1.halted = false ∧ step robot after = .ok .finished after := by
  have hgo : runToEnd.go robot state.1.steps limit state =
      .ok (some n) after := h
  rcases concludes_or_exhausts robot state.1.steps limit state with
    ⟨k, r, hk, hr⟩ | ⟨last, hlast, _⟩
  · rw [hr.go_eq state.1.steps hk] at hgo
    cases r with
    | ok _ last =>
        cases hgo
        exact hr.step_after
    | error e last => cases hgo
  · rw [hlast] at hgo
    cases hgo

/-- The calls that a robot receives from an execution of `p` that is driven in
these ways. -/
def callsReceived (p : Program) (robot : Robot σ ε) (s : σ)
    (drivers : List Driver) : List Call :=
  (driven robot.watched drivers (start p, s, [])).2.2

theorem driven_concat (robot : Robot σ ε) (drivers : List Driver)
    (driver : Driver) (state : Execution × σ) :
    driven robot (drivers ++ [driver]) state =
      driver.leaves robot (driven robot drivers state) := by
  simp only [driven, List.foldl_append, List.foldl_cons, List.foldl_nil]

/-- **At the end** of a program that has not been refused all its actions have
been performed, and the robot has received the calls for them. -/
theorem carried_out_of_finished {drivers : List Driver} {x : Execution}
    {s₀ s : σ} (h : driven robot drivers (start p, s₀) = (x, s))
    (hrunning : x.halted = false) (hfinished : x.isFinished = true) :
    x.steps = p.actionCount ∧
      callsReceived p robot s₀ drivers = rounds p.actions := by
  have hwatched : driven robot.watched drivers (start p, s₀, []) =
      (x, s, callsReceived p robot s₀ drivers) := by
    have hseen : seen Prod.fst
        (driven robot.watched drivers (start p, s₀, [])) = (x, s) :=
      (robot.watched_shows.driven drivers (start p, s₀, [])).trans h
    unfold callsReceived
    generalize driven robot.watched drivers (start p, s₀, []) = watched
      at hseen ⊢
    cases hseen
    rfl
  obtain ⟨done, last, hcalls⟩ := conducted_driven hwatched
  have hlength :=
    (hcalls.reachable.isFinished_iff_length? hrunning).1 hfinished
  obtain ⟨hends, hcount⟩ := Program.length?_course_eq_some_iff.1 hlength
  refine ⟨hcount, ?_⟩
  rw [hcalls.shape, hcalls.ending.eq_nil hrunning, List.append_nil,
    hcalls.done_eq_actions hends hcount]

/-- **What success reports mean.**  Let an execution of a program be driven in
any ways, one after the other, some of them perhaps behind a refusal.

* If a run to the end returns then, as many actions have been performed as are
  written in the program, and the robot has received the calls for these, from
  left to right, and no others.
* So it is if a run says that no action is left, provided that nothing has been
  refused or that the run has a budget.
* Behind a refusal a run with a budget of zero says that no action is left
  exactly if the program ends and all its actions but one, the refused one, have
  been performed. -/
theorem success_reports (p : Program) (robot : Robot σ ε) (s₀ : σ)
    (drivers : List Driver) {x : Execution} {s : σ}
    (h : driven robot drivers (start p, s₀) = (x, s)) :
    (∀ limit n after, runToEnd robot limit (x, s) = .ok (some n) after →
      after.1.steps = p.actionCount ∧
        callsReceived p robot s₀ (drivers ++ [.runToEnd limit]) =
          rounds p.actions) ∧
    (∀ budget n after, run robot budget (x, s) = .ok ⟨n, true⟩ after →
      x.halted = false ∨ 0 < budget →
      after.1.steps = p.actionCount ∧
        callsReceived p robot s₀ (drivers ++ [.run budget]) =
          rounds p.actions) ∧
    (x.halted = true →
      (run robot 0 (x, s) = .ok ⟨0, true⟩ (x, s) ↔
        (∀ b : Block, b.looped ∈ p.statements → b.actionCount = 0) ∧
          x.steps + 1 = p.actionCount)) := by
  have hx : Reachable p x := Reachable.start.driven h
  refine ⟨?_, ?_, ?_⟩
  · rintro limit n ⟨x', s'⟩ hreport
    have hdriven : driven robot (drivers ++ [.runToEnd limit]) (start p, s₀) =
        (x', s') := by
      rw [driven_concat, h]
      exact congrArg stateAfter hreport
    obtain ⟨hrunning, hstep⟩ := runToEnd_ok hreport
    have hx' : Reachable p x' := Reachable.start.driven hdriven
    have hfinished : x'.isFinished = true :=
      (hx'.isFinished_iff_step hrunning robot s').2 ⟨_, hstep⟩
    exact carried_out_of_finished hdriven hrunning hfinished
  · rintro budget n ⟨x', s'⟩ hreport hgoing
    have hdriven : driven robot (drivers ++ [.run budget]) (start p, s₀) =
        (x', s') := by
      rw [driven_concat, h]
      exact congrArg stateAfter hreport
    -- With a budget, a run behind a refusal would have failed.
    have hbefore : x.halted = false := by
      rcases hgoing with hbefore | hbudget
      · exact hbefore
      · obtain ⟨budget, rfl⟩ : ∃ b, budget = b + 1 := ⟨budget - 1, by omega⟩
        apply eq_false_of_ne_true
        intro hhalted
        rw [run_of_halted robot s hhalted] at hreport
        cases hreport
    obtain ⟨hrunning, hfinished⟩ := runFrom_ok hbefore hreport
    exact carried_out_of_finished hdriven hrunning hfinished
  · intro hhalted
    have hlook : run robot 0 (x, s) = .ok ⟨0, true⟩ (x, s) ↔
        x.isFinished = true := by
      show EStateM.Result.ok (⟨0, x.isFinished⟩ : RunSummary) (x, s) =
        .ok ⟨0, true⟩ (x, s) ↔ _
      simp
    rw [hlook, hx.isFinished_iff_of_halted hhalted,
      Program.length?_course_eq_some_iff]
    rfl

/-- A run to the end that is cut off before the last action, and one behind it
that returns. -/
theorem success_reports_in_slices :
    let p : Program :=
      ⟨[.action .move, .loop .nop [], .action .wait, .action .turnLeft]⟩
    let x : Execution :=
      { frames := [⟨p.statements, 3, false, 0, true⟩], steps := 2 }
    let s : Recorder := ⟨#[.move, .wait], none⟩
    driven Recorder.robot [.step, .runToEnd 1] (start p, {}) = (x, s) ∧
      callsReceived p Recorder.robot {} [.step, .runToEnd 1, .run 1] =
        rounds [.move, .wait, .turnLeft] ∧
      callsReceived p Recorder.robot {} [.step, .runToEnd 1, .runToEnd 9] =
        rounds [.move, .wait, .turnLeft] := by
  intro p x s
  have hdriven :
      driven Recorder.robot [.step, .runToEnd 1] (start p, {}) = (x, s) := by
    cbv
  obtain ⟨htoEnd, hrun, -⟩ :=
    success_reports p Recorder.robot {} _ hdriven
  let s' : Recorder := ⟨#[.move, .wait, .turnLeft], none⟩
  let x₁ : Execution :=
    { frames := [⟨p.statements, 4, false, 0, true⟩], steps := 3 }
  let x₂ : Execution := { frames := [], steps := 3 }
  have hstep : step Recorder.robot (x, s) =
      .ok (.performed .turnLeft) (x₁, s') := by cbv
  have hone : run Recorder.robot 1 (x, s) = .ok ⟨1, true⟩ (x₁, s') := by
    have hlook : x₁.isFinished = true := by decide
    simp only [run, runFrom, hstep, hlook]
  have hend : runToEnd Recorder.robot 9 (x, s) = .ok (some 1) (x₂, s') := by
    cbv
  exact ⟨hdriven, (hrun 1 1 _ hone (.inl rfl)).2, (htoEnd 9 1 _ hend).2⟩

/-- **A success report that is not true.**  With fuel for one move, the second
and last one is refused.  A run with a budget of zero then says that no action
is left, though only one of two has been performed. -/
theorem run_zero_behind_refusal :
    let p : Program := ⟨[.action .move, .action .move]⟩
    let x : Execution :=
      { frames := [⟨p.statements, 2, false, 0, true⟩]
        steps := 1
        halted := true }
    let s : Recorder := ⟨#[.move], some ⟨1, 0, 1⟩⟩
    driven Recorder.robot [.run 10]
        (start p, { fuel := some (.full 1) }) = (x, s) ∧
      run Recorder.robot 0 (x, s) = .ok ⟨0, true⟩ (x, s) ∧
      x.steps ≠ p.actionCount := by
  intro p x s
  have hdriven : driven Recorder.robot [.run 10]
      (start p, { fuel := some (.full 1) }) = (x, s) := by cbv
  exact ⟨hdriven, rfl, by decide⟩

end Execution

end RobotScript
