import RobotScript.Proofs.CourseWalk

/-!
# Driving an execution

An execution is driven by single steps, by runs with a budget and by runs to
the end, in any order.  All of them are made of steps.  So what holds at first
and survives every step survives every way of driving, and this induction is
done once, in `driven_preserves`.

What a step can do is likewise said once: `Stepped` lists its four outcomes,
each with the state it leaves, and `stepped` says that there is no other.

A run to the end need not end.  It is cut off after a number of steps, and what
is proved holds whatever that number is, so it holds at every moment of a run
that never ends.

## Main results

* `stepped` — the four outcomes of a step.
* `driven_preserves` — what every step preserves survives driving.
* `driven_of_halted`, `driven_of_finished` — refused and finished executions
  stay as they are.
* `Reachable.driven` — driving leads to executions that steps lead to.
* `Reachable.ahead`, `Reachable.get?_steps` — a reachable execution that has
  not been refused has ahead of it the course of the program behind the
  actions performed.
-/

namespace RobotScript

/-- The state that an operation leaves, whether it has failed or not. -/
def stateAfter {ε τ α : Type} : EStateM.Result ε τ α → τ
  | .ok _ state => state
  | .error _ state => state

namespace Execution

variable {σ ε : Type}

/-! ## What a step can do -/

/-- The outcomes of a step of `x` with a robot in state `s`. -/
inductive Stepped (robot : Robot σ ε) (x : Execution) (s : σ) :
    EStateM.Result (RuntimeError ε) (Execution × σ) Step → Prop
  /-- An earlier refusal has stopped the execution. -/
  | halted (hhalted : x.halted = true) :
      Stepped robot x s (.error (.halted x.steps) (x, s))
  /-- No action is left. -/
  | finished (hrunning : x.halted = false) (hwalk : walk x.frames = none) :
      Stepped robot x s (.ok .finished ({ x with frames := [] }, s))
  /-- The robot performs the next action. -/
  | performed {a : Action} {frames : List Frame} {s' : σ}
      (hrunning : x.halted = false) (hwalk : walk x.frames = some (a, frames))
      (hrobot : robot.attempt a s = .ok () s') :
      Stepped robot x s
        (.ok (.performed a) ({ x with frames, steps := x.steps + 1 }, s'))
  /-- The robot refuses the next action. -/
  | refused {a : Action} {frames : List Frame} {reason : ε} {s' : σ}
      (hrunning : x.halted = false) (hwalk : walk x.frames = some (a, frames))
      (hrobot : robot.attempt a s = .error reason s') :
      Stepped robot x s
        (.error (.refused a x.steps reason)
          ({ x with frames, halted := true }, s'))

/-- Every step has one of these outcomes. -/
theorem stepped (robot : Robot σ ε) (x : Execution) (s : σ) :
    Stepped robot x s (step robot (x, s)) := by
  simp only [step]
  split
  · next hhalted => exact .halted hhalted
  · next hrunning =>
    have hrunning : x.halted = false := by simpa using hrunning
    split
    · next hwalk => exact .finished hrunning hwalk
    · next a frames hwalk =>
      split
      · next hrobot => exact .performed hrunning hwalk hrobot
      · next hrobot => exact .refused hrunning hwalk hrobot

theorem step_of_halted (robot : Robot σ ε) {x : Execution} (s : σ)
    (h : x.halted = true) :
    step robot (x, s) = .error (.halted x.steps) (x, s) := by
  simp [step, h]

/-- A refused execution fails on every run that is to make a step. -/
theorem run_of_halted (robot : Robot σ ε) {x : Execution} (s : σ)
    (h : x.halted = true) (budget : Nat) :
    run robot (budget + 1) (x, s) = .error (.halted x.steps) (x, s) := by
  simp only [run, runFrom, step_of_halted robot s h]

theorem runToEnd_of_halted (robot : Robot σ ε) {x : Execution} (s : σ)
    (h : x.halted = true) (limit : Nat) :
    runToEnd robot (limit + 1) (x, s) = .error (.halted x.steps) (x, s) := by
  simp only [runToEnd, runToEnd.go, step_of_halted robot s h]

/-! ## Ways of driving -/

/-- A way of driving an execution. -/
inductive Driver where
  | step
  | run (budget : Nat)
  | runToEnd (limit : Nat)
  deriving DecidableEq, Repr

/-- The state that driving an execution leaves. -/
def Driver.leaves (robot : Robot σ ε) :
    Driver → Execution × σ → Execution × σ
  | .step, state => stateAfter (Execution.step robot state)
  | .run budget, state => stateAfter (Execution.run robot budget state)
  | .runToEnd limit, state => stateAfter (Execution.runToEnd robot limit state)

/-- The state after driving an execution in several ways, one after the other.
A failure does not keep anybody from driving on. -/
def driven (robot : Robot σ ε) (drivers : List Driver)
    (state : Execution × σ) : Execution × σ :=
  drivers.foldl (fun state driver => driver.leaves robot state) state

section Preserves

variable {robot : Robot σ ε} {I : Execution × σ → Prop}

theorem runFrom_preserves
    (hstep : ∀ state, I state → I (stateAfter (step robot state)))
    (taken budget : Nat) {state : Execution × σ} (hstate : I state) :
    I (stateAfter (runFrom robot taken budget state)) := by
  induction budget generalizing taken state with
  | zero => exact hstate
  | succ budget ih =>
      have hnext := hstep state hstate
      simp only [runFrom]
      split
      · next hr =>
        rw [hr] at hnext
        exact ih (taken + 1) hnext
      · next hr =>
        rw [hr] at hnext
        exact hnext
      · next hr =>
        rw [hr] at hnext
        exact hnext

/-- A run to the end and a run with a budget differ in what they report only:
they leave the same state if they may make equally many steps. -/
theorem stateAfter_runToEnd_go (robot : Robot σ ε) (before taken steps : Nat)
    (state : Execution × σ) :
    stateAfter (runToEnd.go robot before steps state) =
      stateAfter (runFrom robot taken steps state) := by
  induction steps generalizing taken state with
  | zero => rfl
  | succ steps ih =>
      simp only [runToEnd.go, runFrom]
      split
      · exact ih (taken + 1) _
      · rfl
      · rfl

/-- **Driving is stepping.**  What every step preserves survives driving. -/
theorem driven_preserves
    (hstep : ∀ state, I state → I (stateAfter (step robot state)))
    (drivers : List Driver) {state : Execution × σ} (hstate : I state) :
    I (driven robot drivers state) := by
  induction drivers generalizing state with
  | nil => exact hstate
  | cons driver drivers ih =>
      rw [driven, List.foldl_cons]
      apply ih
      cases driver with
      | step => exact hstep state hstate
      | run budget => exact runFrom_preserves hstep 0 budget hstate
      | runToEnd limit =>
          have hrun := runFrom_preserves hstep 0 limit hstate
          rw [← stateAfter_runToEnd_go robot state.1.steps] at hrun
          exact hrun

/-- A state that a step leaves as it is stays for good. -/
theorem driven_eq_self {state : Execution × σ}
    (h : stateAfter (step robot state) = state) (drivers : List Driver) :
    driven robot drivers state = state := by
  have hstep : ∀ state', state' = state →
      stateAfter (step robot state') = state := by
    rintro _ rfl
    exact h
  exact driven_preserves hstep drivers rfl

end Preserves

/-! ## Executions at rest -/

/-- An execution that has been refused stays as it is, and so does the robot. -/
theorem driven_of_halted (robot : Robot σ ε) {x : Execution} (s : σ)
    (h : x.halted = true) (drivers : List Driver) :
    driven robot drivers (x, s) = (x, s) := by
  apply driven_eq_self
  rw [step_of_halted robot s h]
  rfl

/-- A step that finds no action leaves the robot alone, and whatever is tried
afterwards changes nothing. -/
theorem driven_of_finished {robot : Robot σ ε} {x : Execution} {s : σ}
    {after : Execution × σ} (h : step robot (x, s) = .ok .finished after) :
    after.2 = s ∧ step robot after = .ok .finished after ∧
      ∀ drivers, driven robot drivers after = after := by
  have hstepped := stepped robot x s
  rw [h] at hstepped
  cases hstepped with
  | finished hrunning _ =>
      have hagain : step robot ({ x with frames := [] }, s) =
          .ok .finished ({ x with frames := [] }, s) :=
        step_of_none robot s hrunning (Course.get?_empty 0)
      refine ⟨rfl, hagain, ?_⟩
      apply driven_eq_self
      rw [hagain]
      rfl

/-! ## Reachable executions -/

/-- The executions that steps lead to from the beginning of a program.  The
robot need not be the same at every step. -/
inductive Reachable (p : Program) : Execution → Prop
  | start : Reachable p (start p)
  | step {σ ε : Type} {x x' : Execution} {s s' : σ} (robot : Robot σ ε)
      (hx : Reachable p x)
      (h : stateAfter (Execution.step robot (x, s)) = (x', s')) :
      Reachable p x'

/-- Driving leads from a reachable execution to a reachable one. -/
theorem Reachable.driven {p : Program} {x x' : Execution} {s s' : σ}
    {robot : Robot σ ε} {drivers : List Driver} (hx : Reachable p x)
    (h : driven robot drivers (x, s) = (x', s')) : Reachable p x' := by
  have hstep : ∀ state : Execution × σ, Reachable p state.1 →
      Reachable p (stateAfter (Execution.step robot state)).1 := by
    intro state hstate
    exact hstate.step robot rfl
  have hafter : Reachable p (Execution.driven robot drivers (x, s)).1 :=
    driven_preserves (I := fun state => Reachable p state.1) hstep drivers hx
  rw [h] at hafter
  exact hafter

/-- **The way ahead.**  An execution that has not been refused has ahead of it
the course of the program behind the actions performed. -/
theorem Reachable.ahead {p : Program} {x : Execution} (hx : Reachable p x)
    (hrunning : x.halted = false) (i : Nat) :
    x.course.get? i = p.course.get? (x.steps + i) := by
  induction hx generalizing i with
  | start =>
      rw [course_start]
      show p.course.get? i = p.course.get? (0 + i)
      rw [Nat.zero_add]
  | @step σ ε x x' s s' robot hx h ih =>
      have hstepped := stepped robot x s
      generalize Execution.step robot (x, s) = r at h hstepped
      cases hstepped with
      | halted hhalted =>
          cases h
          exact ih hrunning i
      | finished hrun hwalk =>
          cases h
          have hnone : x.course.get? i = none := walk_eq_none hwalk i
          rw [← ih hrun i, hnone]
          exact Course.get?_empty i
      | @performed a frames _ hrun hwalk hrobot =>
          cases h
          have hnext : x.course.get? (i + 1) =
              (courseAhead false frames).get? i := (walk_eq_some hwalk).2 i
          show (courseAhead false frames).get? i =
            p.course.get? (x.steps + 1 + i)
          rw [← hnext, ih hrun (i + 1)]
          congr 1
          omega
      | refused hrun hwalk hrobot =>
          cases h
          cases hrunning

/-- The next action is the one that the course has behind those performed. -/
theorem Reachable.get?_steps {p : Program} {x : Execution}
    (hx : Reachable p x) (hrunning : x.halted = false) :
    p.course.get? x.steps = (walk x.frames).map (·.1) := by
  have hahead : x.course.get? 0 = p.course.get? x.steps :=
    hx.ahead hrunning 0
  rw [← hahead]
  cases hwalk : walk x.frames with
  | none => exact walk_eq_none hwalk 0
  | some found => exact (walk_eq_some hwalk).1

theorem Reachable.get?_of_walk {p : Program} {x : Execution}
    (hx : Reachable p x) (hrunning : x.halted = false) {a : Action}
    {frames : List Frame} (hwalk : walk x.frames = some (a, frames)) :
    p.course.get? x.steps = some a := by
  rw [hx.get?_steps hrunning, hwalk]
  rfl

end Execution

end RobotScript
