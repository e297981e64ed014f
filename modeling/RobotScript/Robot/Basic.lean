import RobotScript.Journal.Message

/-!
# Robots

A robot is something that performs actions and may refuse to.  `σ` is its
state and `ε` the conditions it can give as a reason.  It has one operation for
each action, and `Robot.perform` is the table that tells which.  Before every
action it is asked whether it is ready; a robot that never objects beforehand
leaves that field out.

A refusal keeps the state it comes with: what the robot changed before it
refused stays changed.
-/

namespace RobotScript

/-- A device that scripts can drive. -/
structure Robot (σ ε : Type) where
  /-- Asks whether another action can be accepted. -/
  ready : EStateM ε σ Unit := pure ()
  /-- Moves one field ahead. -/
  moveForward : EStateM ε σ Unit
  turnLeft : EStateM ε σ Unit
  turnRight : EStateM ε σ Unit
  /-- Takes fuel where it stands. -/
  takeFuel : EStateM ε σ Unit
  /-- Does nothing for one step. -/
  idleWait : EStateM ε σ Unit
  /-- What the robot itself notes in the journal about an action it has
  performed. -/
  report : Action → List Message := fun _ => []

/-- The operation that an action stands for. -/
def Robot.perform {σ ε : Type} (robot : Robot σ ε) :
    Action → EStateM ε σ Unit
  | .move => robot.moveForward
  | .turnLeft => robot.turnLeft
  | .turnRight => robot.turnRight
  | .takeFuel => robot.takeFuel
  | .wait => robot.idleWait

/-- Asks the robot whether it is ready and, if so, performs the action. -/
def Robot.attempt {σ ε : Type} (robot : Robot σ ε) (a : Action) :
    EStateM ε σ Unit := do
  robot.ready
  robot.perform a

end RobotScript
