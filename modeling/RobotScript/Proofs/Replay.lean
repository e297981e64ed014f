import RobotScript.Proofs.Fuel

/-!
# Replaying after a reset

A recorder that has been reset is as good as new.  Whatever has happened to it,
a program run on it does what it does on a recorder that has just been built
with a full tank of the same make.

What a reset makes of a recorder is settled when the recorder is built: it
empties the record and fills the tank, so all that it keeps is the size of the
tank and what a move burns, and nothing ever changes these.  The invariant is
therefore the reset recorder itself.  It is the same before and after an
attempt, so before and after a step, so before and after driving an execution,
whether the execution comes to its end, is refused on the way or is left in the
middle.

## Main results

* `Recorder.reset_after` — an action that was performed leaves no trace behind a
  reset.
* `Recorder.reset_step`, `Recorder.reset_driven` — neither does a step, nor
  driving an execution in any way.
* `Recorder.reset_lived` — neither does any history.
* `reset_replays` — a program runs on a recorder that has been reset as on a new
  one.
-/

namespace RobotScript

namespace Recorder

open Execution (Driver driven stepped start)

/-! ## What a reset forgets -/

/-- An action that was performed leaves no trace behind a reset. -/
theorem reset_after (r : Recorder) (a : Action) :
    (r.after a).reset = r.reset := by
  have hrefill : ∀ tank : FuelTank, (tank.after a).refill = tank.refill := by
    intro tank
    cases a with
    | move => rfl
    | takeFuel => rfl
    | turnLeft => rfl
    | turnRight => rfl
    | wait => rfl
  rw [reset, reset, fuel_after, Option.map_map]
  exact congrArg _ (Option.map_congr fun tank _ => hrefill tank)

theorem reset_reset (r : Recorder) : r.reset.reset = r.reset := by
  rw [reset, reset, Option.map_map]
  rfl

/-- A call by hand is refused and changes nothing, or is performed. -/
theorem reset_perform (a : Action) (r : Recorder) :
    (stateAfter (perform a r)).reset = r.reset := by
  rw [perform_eq]
  split
  · rfl
  · exact r.reset_after a

/-- **One step** of any execution. -/
theorem reset_step (x : Execution) (r : Recorder) :
    (stateAfter (Execution.step robot (x, r))).2.reset = r.reset := by
  have hstepped := stepped robot x r
  generalize Execution.step robot (x, r) = result at hstepped
  cases hstepped with
  | halted _ => rfl
  | finished _ _ => rfl
  | performed _ _ hrobot =>
      rw [eq_after_of_attempt hrobot]
      exact r.reset_after _
  | refused _ _ hrobot =>
      rw [eq_of_attempt_error hrobot]
      rfl

/-- **Driving** any execution in any way. -/
theorem reset_driven (drivers : List Driver) (x : Execution) (r : Recorder) :
    (driven robot drivers (x, r)).2.reset = r.reset := by
  let Kept (state : Execution × Recorder) : Prop := state.2.reset = r.reset
  have hstep : ∀ state, Kept state →
      Kept (stateAfter (Execution.step robot state)) := by
    rintro ⟨y, r'⟩ hstate
    exact (reset_step y r').trans hstate
  have hstart : Kept (x, r) := rfl
  exact Execution.driven_preserves hstep drivers hstart

/-! ## Histories -/

/-- What can happen to a recorder. -/
inductive Episode where
  /-- It is asked whether it is ready. -/
  | asked
  /-- It is used by hand. -/
  | used (use : Use)
  /-- An execution is driven with it.  The execution may be a fresh one of any
  program, or one that has come some way before, with this recorder or with
  another robot. -/
  | drove (x : Execution) (drivers : List Driver)

/-- The recorder after an episode.  A refusal is part of it. -/
def Episode.leaves : Episode → Recorder → Recorder
  | .asked, r => stateAfter (ready r)
  | .used use, r => stateAfter (use.apply r)
  | .drove x drivers, r => (driven robot drivers (x, r)).2

/-- The recorder after a history, that is after episodes one after the
other. -/
def lived (history : List Episode) (r : Recorder) : Recorder :=
  history.foldl (fun r episode => episode.leaves r) r

theorem reset_leaves (episode : Episode) (r : Recorder) :
    (episode.leaves r).reset = r.reset := by
  cases episode with
  | asked =>
      simp only [Episode.leaves, ready]
      split
      · rfl
      · rfl
  | used use =>
      cases use with
      | call a => exact reset_perform a r
      | reset => exact r.reset_reset
  | drove x drivers => exact reset_driven drivers x r

/-- **No history** leaves a trace behind a reset. -/
theorem reset_lived (history : List Episode) (r : Recorder) :
    (lived history r).reset = r.reset := by
  induction history generalizing r with
  | nil => rfl
  | cons episode history ih =>
      show (lived history (episode.leaves r)).reset = r.reset
      rw [ih, reset_leaves]

/-- **A recorder that has been reset is as good as new.**  Let it be built with
any tank, whose level may lie above its capacity or be zero, or without one, and
let anything happen to it: it is asked, called, refused and reset by hand, and
executions of any programs are driven with it, to their end or to a refusal or
not so far.  Then a program that is run on it after a reset has the result,
summary or error, that it has on a new recorder with the same tank filled to its
capacity, and leaves the same record and the same fuel. -/
theorem reset_replays (tank? : Option FuelTank) (history : List Episode)
    (p : Program) (budget : Nat) :
    let old : Recorder := (lived history { fuel := tank? }).reset
    let new : Recorder :=
      { fuel := tank?.map fun tank => { tank with level := tank.capacity } }
    old.calls = #[] ∧ old.fuel = new.fuel ∧
      Execution.run robot budget (start p, old) =
        Execution.run robot budget (start p, new) := by
  intro old new
  have hold : old = new := reset_lived history { fuel := tank? }
  rw [hold]
  exact ⟨rfl, rfl, rfl⟩

-- A tank that was built over-full has been emptied by a program that strands
-- the robot, and a move by hand has been refused on top.
example :
    let patrol : Program := ⟨[.loop (.action .move) [.action .turnLeft]]⟩
    let history : List Episode :=
      [.used (.call .wait), .drove (start patrol) [.run 9, .step],
        .used (.call .move), .asked]
    let tank : FuelTank := ⟨4, 9, 3⟩
    lived history { fuel := some tank } =
        ⟨#[.wait, .move, .turnLeft, .move, .turnLeft, .move],
          some ⟨4, 0, 3⟩⟩ ∧
      (lived history { fuel := some tank }).reset =
        { fuel := some ⟨4, 4, 3⟩ } := by cbv

end Recorder

end RobotScript
