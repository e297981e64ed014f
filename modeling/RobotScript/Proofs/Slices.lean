import RobotScript.Proofs.Watching

/-!
# Runs in slices

A scheduler gives a program a budget, lets it run and comes back later with
another one.  It makes no difference how the budget is cut up.  A run that is
continued does what a single run with the sum of the budgets does, in its
result, in the execution and in the robot.

There are three ways in which a run can end, and the cut may fall on any of
them.  A run whose budget is used up asks the look-ahead whether an action is
left; if the cut falls there, the look-ahead is asked twice and what the first
answer was does not matter.  A run that has found no action left stays at the
end, so continuing it finds none again.  A run that has been refused stays
where it is, so what is done afterwards is in vain.

Nothing is assumed about the execution.  It need not be reachable, and it may
have been refused before.

## Main results

* `runFrom_add` — a run and its continuation.
* `run_add` — what two runs report, and what a single one does.
* `stateAfter_run_add` — the state that they leave, also behind a refusal.
* `run_in_slices` — budgets can be cut up in any way.
-/

namespace RobotScript

namespace Execution

variable {σ ε : Type} {robot : Robot σ ε}

/-! ## Two runs -/

/-- What is left to run behind the last action is found to be nothing. -/
theorem runFrom_of_finished {state after : Execution × σ}
    (h : step robot state = .ok .finished after) (taken budget : Nat) :
    runFrom robot taken budget after = .ok ⟨taken, true⟩ after := by
  obtain ⟨x, s⟩ := state
  cases budget with
  | zero =>
      have hstepped := stepped robot x s
      rw [h] at hstepped
      cases hstepped with
      | finished _ _ => rfl
  | succ budget =>
      have hagain := (driven_of_finished h).2.1
      simp only [runFrom, hagain]

/-- **A run and its continuation.**  The continuation goes on counting where
the run has stopped. -/
theorem runFrom_add (taken n m : Nat) (state : Execution × σ) :
    runFrom robot taken (n + m) state =
      match runFrom robot taken n state with
      | .ok first state => runFrom robot first.steps m state
      | .error e state => .error e state := by
  induction n generalizing taken state with
  | zero =>
      rw [Nat.zero_add]
      rfl
  | succ n ih =>
      rw [Nat.succ_add]
      simp only [runFrom]
      cases hr : step robot state with
      | ok r next =>
          cases r with
          | performed a => exact ih (taken + 1) next
          | finished => exact (runFrom_of_finished hr taken m).symm
      | error e next => rfl

/-- What has been counted before a run is added to what it counts itself. -/
theorem runFrom_eq (taken budget : Nat) (state : Execution × σ) :
    runFrom robot taken budget state =
      match run robot budget state with
      | .ok summary state =>
        .ok ⟨taken + summary.steps, summary.finished⟩ state
      | .error e state => .error e state := by
  suffices h : ∀ counted, runFrom robot (taken + counted) budget state =
      match runFrom robot counted budget state with
      | .ok summary state =>
        .ok ⟨taken + summary.steps, summary.finished⟩ state
      | .error e state => .error e state by
    exact h 0
  intro counted
  induction budget generalizing counted state with
  | zero => rfl
  | succ budget ih =>
      simp only [runFrom]
      cases step robot state with
      | ok r next =>
          cases r with
          | performed a => exact ih next (counted + 1)
          | finished => rfl
      | error e next => rfl

/-- **Two runs and one.**  A single run with both budgets performs the actions
of both runs and says what the second one says.  If one of them fails, it fails
in the same way. -/
theorem run_add (n m : Nat) (state : Execution × σ) :
    run robot (n + m) state =
      match run robot n state with
      | .ok first state =>
        match run robot m state with
        | .ok second state =>
          .ok ⟨first.steps + second.steps, second.finished⟩ state
        | .error e state => .error e state
      | .error e state => .error e state := by
  rw [run, runFrom_add]
  show (match run robot n state with
    | .ok first state => runFrom robot first.steps m state
    | .error e state => .error e state) = _
  cases run robot n state with
  | ok first next => exact runFrom_eq first.steps m next
  | error e next => rfl

/-! ## The state behind a refusal -/

/-- A run that fails leaves an execution that has been stopped. -/
theorem halted_of_run_error {budget : Nat} {state after : Execution × σ}
    {e : RuntimeError ε} (h : run robot budget state = .error e after) :
    after.1.halted = true := by
  suffices hfrom : ∀ taken, runFrom robot taken budget state = .error e after →
      after.1.halted = true from hfrom 0 h
  intro taken hrun
  clear h
  induction budget generalizing taken state with
  | zero => cases hrun
  | succ budget ih =>
      obtain ⟨x, s⟩ := state
      have hstepped := stepped robot x s
      simp only [runFrom] at hrun
      generalize step robot (x, s) = r at hrun hstepped
      cases hstepped with
      | halted hhalted =>
          cases hrun
          exact hhalted
      | finished _ _ => cases hrun
      | performed _ _ _ => exact ih (taken + 1) hrun
      | refused _ _ _ =>
          cases hrun
          rfl

theorem stateAfter_run_of_halted {state : Execution × σ}
    (h : state.1.halted = true) (budget : Nat) :
    stateAfter (run robot budget state) = state :=
  driven_of_halted robot state.2 h [.run budget]

/-- **The state that two runs leave** is that of a single one, also if the
first of them has failed. -/
theorem stateAfter_run_add (n m : Nat) (state : Execution × σ) :
    stateAfter (run robot (n + m) state) =
      stateAfter (run robot m (stateAfter (run robot n state))) := by
  rw [run_add]
  cases hfirst : run robot n state with
  | ok first next =>
      dsimp only [stateAfter]
      cases run robot m next with
      | ok second last => rfl
      | error e last => rfl
  | error e next =>
      exact (stateAfter_run_of_halted (halted_of_run_error hfirst) m).symm

/-! ## Any number of slices -/

/-- The number of steps that a way of driving may make. -/
def Driver.budget : Driver → Nat
  | .step => 1
  | .run budget => budget
  | .runToEnd limit => limit

/-- The number of steps that several ways of driving may make together. -/
def Driver.total : List Driver → Nat
  | [] => 0
  | driver :: drivers => driver.budget + total drivers

/-- Every way of driving leaves what a run with its budget leaves. -/
theorem Driver.leaves_eq_run (driver : Driver) (state : Execution × σ) :
    driver.leaves robot state =
      stateAfter (Execution.run robot driver.budget state) := by
  cases driver with
  | step =>
      simp only [Driver.leaves, Driver.budget, Execution.run, runFrom]
      cases Execution.step robot state with
      | ok r next =>
          cases r with
          | performed a => rfl
          | finished => rfl
      | error e next => rfl
  | run budget => rfl
  | runToEnd limit => exact stateAfter_runToEnd_go robot state.1.steps 0 limit state

/-- Driving in several ways leaves what a single run leaves. -/
theorem driven_eq_run (drivers : List Driver) (state : Execution × σ) :
    driven robot drivers state =
      stateAfter (run robot (Driver.total drivers) state) := by
  induction drivers generalizing state with
  | nil => rfl
  | cons driver drivers ih =>
      show driven robot drivers (driver.leaves robot state) = _
      rw [ih, driver.leaves_eq_run, Driver.total, stateAfter_run_add]

/-- **Runs can be cut up.**  For every robot, every execution, whether it is
reachable or not, and every state of the robot:

* a run that is followed by a second one if it has not failed comes to what a
  single run with the sum of the budgets comes to.  The numbers of actions add
  up, it is the second run that tells whether an action is left, a failure of
  either is the failure of the single run, and the state left is the same;
* any number of steps and runs, one after the other, leave the execution and
  the robot as a single run with the sum of their budgets does, and the robot
  receives the same calls. -/
theorem run_in_slices (robot : Robot σ ε) :
    (∀ (n m : Nat) (state : Execution × σ),
      run robot (n + m) state =
        match run robot n state with
        | .ok first state =>
          match run robot m state with
          | .ok second state =>
            .ok ⟨first.steps + second.steps, second.finished⟩ state
          | .error e state => .error e state
        | .error e state => .error e state) ∧
    ∀ (drivers : List Driver) (x : Execution) (s : σ) (calls : List Call),
      driven robot drivers (x, s) =
          stateAfter (run robot (Driver.total drivers) (x, s)) ∧
        driven robot.watched drivers (x, s, calls) =
          stateAfter
            (run robot.watched (Driver.total drivers) (x, s, calls)) :=
  ⟨run_add, fun drivers x s calls =>
    ⟨driven_eq_run drivers (x, s), driven_eq_run drivers (x, s, calls)⟩⟩

-- The second move empties the tank, so the cut falls on a refusal, and more is
-- tried behind it.
example :
    let p : Program := ⟨[.loop (.action .move) [.loop .nop []]]⟩
    let state : Execution × Recorder :=
      (start p, { fuel := some (.full 2) })
    driven Recorder.robot [.run 0, .step, .run 2, .step, .run 0] state =
      stateAfter (run Recorder.robot 4 state) := by cbv

end Execution

end RobotScript
