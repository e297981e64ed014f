import RobotScript.Proofs.Driving

/-!
# Watching a robot

What a robot is asked cannot be read off its state, because a robot may leave
its state as it is.  `Robot.watched` is the same robot with a list in which
every call is written down with its outcome.  Driving an execution with the
watched robot shows which calls the robot receives, and from which operation.

Watching changes nothing: seen without the list, every way of driving gives the
same result and leaves the same state.  This is shown for any robot that looks
like another one through a function on its state, by following the calls from
an attempt over a step to a run.

## Main results

* `Robot.attempt_watched_ok`, `Robot.attempt_watched_error` — the calls of an
  attempt.
* `Robot.Shows.step`, `Robot.Shows.driven` — robots that look alike drive
  alike.
* `Execution.driven_watched` — watching changes nothing.
-/

namespace RobotScript

/-- What a robot can be asked. -/
inductive Request where
  | ready
  | perform (a : Action)
  deriving DecidableEq, Repr

/-- A call that a robot has received, and whether it did as it was asked. -/
structure Call where
  request : Request
  accepted : Bool
  deriving DecidableEq, Repr

/-- Whether the robot has performed an action on this call. -/
def Call.isPerformed (call : Call) : Bool :=
  call.accepted && call.request != .ready

variable {σ σ' ε : Type}

/-- An operation of a robot with its call written down. -/
def noting (request : Request) (operation : EStateM ε σ Unit) :
    EStateM ε (σ × List Call) Unit := fun (s, calls) =>
  match operation s with
  | .ok _ s => .ok () (s, calls ++ [⟨request, true⟩])
  | .error reason s => .error reason (s, calls ++ [⟨request, false⟩])

/-- The robot with every call written down, the last one at the end. -/
def Robot.watched (robot : Robot σ ε) : Robot (σ × List Call) ε where
  ready := noting .ready robot.ready
  moveForward := noting (.perform .move) robot.moveForward
  turnLeft := noting (.perform .turnLeft) robot.turnLeft
  turnRight := noting (.perform .turnRight) robot.turnRight
  takeFuel := noting (.perform .takeFuel) robot.takeFuel
  idleWait := noting (.perform .wait) robot.idleWait
  report := robot.report

theorem Robot.perform_watched (robot : Robot σ ε) (a : Action) :
    robot.watched.perform a = noting (.perform a) (robot.perform a) := by
  cases a <;> rfl

/-! ## Attempts -/

namespace Robot

/-- An attempt asks the robot to perform the action only if it is ready. -/
theorem attempt_eq (robot : Robot σ ε) (a : Action) (s : σ) :
    robot.attempt a s =
      match robot.ready s with
      | .ok _ s => robot.perform a s
      | .error reason s => .error reason s := by
  cases h : robot.ready s with
  | ok _ _ => simp only [attempt, bind, EStateM.bind, h]
  | error _ _ => simp only [attempt, bind, EStateM.bind, h]

/-- The calls of an attempt that succeeds. -/
theorem attempt_watched_ok {robot : Robot σ ε} {a : Action} {s s' : σ}
    {calls calls' : List Call}
    (h : robot.watched.attempt a (s, calls) = .ok () (s', calls')) :
    calls' = calls ++ [⟨.ready, true⟩, ⟨.perform a, true⟩] := by
  simp only [attempt_eq, perform_watched] at h
  simp only [watched, noting] at h
  cases hready : robot.ready s with
  | error reason t =>
      simp only [hready] at h
      cases h
  | ok _ t =>
      simp only [hready] at h
      cases hperform : robot.perform a t with
      | error reason t' =>
          simp only [hperform] at h
          cases h
      | ok _ t' =>
          simp only [hperform] at h
          cases h
          exact List.append_assoc calls _ _

/-- The calls of an attempt that fails: the robot is not ready, or it is and
does not perform the action. -/
theorem attempt_watched_error {robot : Robot σ ε} {a : Action} {s s' : σ}
    {calls calls' : List Call} {reason : ε}
    (h : robot.watched.attempt a (s, calls) = .error reason (s', calls')) :
    calls' = calls ++ [⟨.ready, false⟩] ∨
      calls' = calls ++ [⟨.ready, true⟩, ⟨.perform a, false⟩] := by
  simp only [attempt_eq, perform_watched] at h
  simp only [watched, noting] at h
  cases hready : robot.ready s with
  | error reason t =>
      simp only [hready] at h
      cases h
      exact .inl rfl
  | ok _ t =>
      simp only [hready] at h
      cases hperform : robot.perform a t with
      | error reason t' =>
          simp only [hperform] at h
          cases h
          exact .inr (List.append_assoc calls _ _)
      | ok _ t' =>
          simp only [hperform] at h
          cases h

end Robot

/-! ## Robots that look alike -/

/-- A result of which only `f` of the state is seen. -/
def viewed {ε τ τ' α : Type} (f : τ → τ') :
    EStateM.Result ε τ α → EStateM.Result ε τ' α
  | .ok a state => .ok a (f state)
  | .error e state => .error e (f state)

theorem stateAfter_viewed {ε τ τ' α : Type} (f : τ → τ')
    (r : EStateM.Result ε τ α) :
    stateAfter (viewed f r) = f (stateAfter r) := by
  cases r with
  | ok _ _ => rfl
  | error _ _ => rfl

/-- The state of a drive with `f` of the robot's part. -/
def seen (f : σ → σ') (state : Execution × σ) : Execution × σ' :=
  (state.1, f state.2)

/-- Whether a robot looks like another one if only `f` of its state is seen. -/
structure Robot.Shows (f : σ → σ') (robot : Robot σ ε) (robot' : Robot σ' ε) :
    Prop where
  ready : ∀ s, viewed f (robot.ready s) = robot'.ready (f s)
  perform : ∀ a s, viewed f (robot.perform a s) = robot'.perform a (f s)

namespace Robot.Shows

open Execution (runFrom runToEnd Driver)

variable {f : σ → σ'} {robot : Robot σ ε} {robot' : Robot σ' ε}

theorem attempt (h : robot.Shows f robot') (a : Action) (s : σ) :
    viewed f (robot.attempt a s) = robot'.attempt a (f s) := by
  rw [attempt_eq, attempt_eq, ← h.ready s]
  cases robot.ready s with
  | ok _ t => exact h.perform a t
  | error reason t => rfl

/-- Robots that look alike make the same step. -/
theorem step (h : robot.Shows f robot') (state : Execution × σ) :
    viewed (seen f) (Execution.step robot state) =
      Execution.step robot' (seen f state) := by
  obtain ⟨x, s⟩ := state
  show _ = Execution.step robot' (x, f s)
  simp only [Execution.step]
  split
  · rfl
  · split
    · rfl
    · next a frames hwalk =>
      rw [← h.attempt a s]
      cases robot.attempt a s with
      | ok _ t => rfl
      | error reason t => rfl

theorem runFrom (h : robot.Shows f robot') (taken budget : Nat)
    (state : Execution × σ) :
    viewed (seen f) (Execution.runFrom robot taken budget state) =
      Execution.runFrom robot' taken budget (seen f state) := by
  induction budget generalizing taken state with
  | zero => rfl
  | succ budget ih =>
      simp only [Execution.runFrom]
      rw [← h.step state]
      cases Execution.step robot state with
      | ok r next =>
          cases r with
          | performed a => exact ih (taken + 1) next
          | finished => rfl
      | error e next => rfl

theorem runToEnd_go (h : robot.Shows f robot') (before limit : Nat)
    (state : Execution × σ) :
    viewed (seen f) (runToEnd.go robot before limit state) =
      runToEnd.go robot' before limit (seen f state) := by
  induction limit generalizing state with
  | zero => rfl
  | succ limit ih =>
      simp only [runToEnd.go]
      rw [← h.step state]
      cases Execution.step robot state with
      | ok r next =>
          cases r with
          | performed a => exact ih next
          | finished => rfl
      | error e next => rfl

/-- Robots that look alike drive alike. -/
theorem driven (h : robot.Shows f robot') (drivers : List Driver)
    (state : Execution × σ) :
    seen f (Execution.driven robot drivers state) =
      Execution.driven robot' drivers (seen f state) := by
  have hrun : ∀ (budget : Nat) (state : Execution × σ),
      seen f (stateAfter (Execution.runFrom robot 0 budget state)) =
        stateAfter (Execution.runFrom robot' 0 budget (seen f state)) := by
    intro budget state
    rw [← h.runFrom 0 budget state, stateAfter_viewed]
  induction drivers generalizing state with
  | nil => rfl
  | cons driver drivers ih =>
      have hleaves : seen f (driver.leaves robot state) =
          driver.leaves robot' (seen f state) := by
        cases driver with
        | step =>
            show seen f (stateAfter (Execution.step robot state)) =
              stateAfter (Execution.step robot' (seen f state))
            rw [← h.step state, stateAfter_viewed]
        | run budget => exact hrun budget state
        | runToEnd limit =>
            -- A run to the end leaves what a run with this budget leaves.
            show seen f (stateAfter (runToEnd.go robot _ limit state)) =
              stateAfter (runToEnd.go robot' _ limit (seen f state))
            rw [Execution.stateAfter_runToEnd_go robot _ 0,
              Execution.stateAfter_runToEnd_go robot' _ 0]
            exact hrun limit state
      rw [Execution.driven, List.foldl_cons]
      show seen f (Execution.driven robot drivers _) =
        Execution.driven robot' drivers (driver.leaves robot' (seen f state))
      rw [ih, hleaves]

end Robot.Shows

/-! ## Watching changes nothing -/

theorem viewed_noting (request : Request) (operation : EStateM ε σ Unit)
    (state : σ × List Call) :
    viewed Prod.fst (noting request operation state) = operation state.1 := by
  obtain ⟨s, calls⟩ := state
  simp only [noting]
  cases operation s with
  | ok _ t => rfl
  | error reason t => rfl

/-- Without the list of calls a watched robot looks as before. -/
theorem Robot.watched_shows (robot : Robot σ ε) :
    robot.watched.Shows Prod.fst robot where
  ready := viewed_noting .ready robot.ready
  perform a state := by
    rw [robot.perform_watched]
    exact viewed_noting (.perform a) (robot.perform a) state

/-- **Watching changes nothing.**  The execution and the robot's own state are
what they are without it. -/
theorem Execution.driven_watched {robot : Robot σ ε} {drivers : List Driver}
    {x x' : Execution} {s s' : σ} {calls calls' : List Call}
    (h : driven robot.watched drivers (x, s, calls) = (x', s', calls')) :
    driven robot drivers (x, s) = (x', s') := by
  have hseen := robot.watched_shows.driven drivers (x, s, calls)
  rw [h] at hseen
  exact hseen.symm

end RobotScript
