import RobotScript.Robot.Basic

/-!
# The recording robot

A robot that writes down every action it performs.  Without a fuel tank it
performs anything.  With one, every move burns fuel and taking fuel fills the
tank up; a robot whose tank is empty is stranded and not ready for any action,
so it has to take fuel before the last unit is burnt.

Fuel is counted in 32-bit words.  Burning stops at zero, so nothing wraps.
-/

namespace RobotScript

/-- A tank and how much a move takes out of it. -/
structure FuelTank where
  /-- The level of the full tank. -/
  capacity : UInt32
  level : UInt32
  /-- The fuel a move burns. -/
  perMove : UInt32
  deriving DecidableEq, Repr

namespace FuelTank

/-- A full tank of which every move burns one unit. -/
def full (capacity : UInt32) : FuelTank :=
  ⟨capacity, capacity, 1⟩

/-- The tank after a move.  A move that needs more than there is burns what
there is. -/
def burn (tank : FuelTank) : FuelTank :=
  { tank with
    level :=
      if tank.perMove ≤ tank.level then tank.level - tank.perMove else 0 }

/-- The tank filled up. -/
def refill (tank : FuelTank) : FuelTank :=
  { tank with level := tank.capacity }

/-- The level after a move is the difference, or zero where there is none. -/
theorem toNat_level_burn (tank : FuelTank) :
    tank.burn.level.toNat = tank.level.toNat - tank.perMove.toNat := by
  unfold burn
  split
  · next h => exact UInt32.toNat_sub_of_le _ _ h
  · next h =>
    rw [UInt32.le_iff_toNat_le] at h
    simp only [UInt32.toNat_zero]
    omega

end FuelTank

/-- Why a recorder refuses: the tank is empty after so many actions. -/
structure OutOfFuel where
  actions : Nat
  deriving DecidableEq, Repr

instance : ToString OutOfFuel where
  toString e := s!"out of fuel after {e.actions} actions"

/-- The record of a robot: the actions performed so far and its tank, if it
has one. -/
structure Recorder where
  calls : Array Action := #[]
  fuel : Option FuelTank := none
  deriving DecidableEq, Repr

namespace Recorder

/-- Empties the record and fills the tank. -/
def reset (r : Recorder) : Recorder :=
  ⟨#[], r.fuel.map FuelTank.refill⟩

/-- Whether the tank is empty.  A recorder without a tank is never dry. -/
def isDry (r : Recorder) : Bool :=
  r.fuel.any (·.level = 0)

/-- Refuses if the tank is empty. -/
def ready : EStateM OutOfFuel Recorder Unit := fun r =>
  if r.isDry then .error ⟨r.calls.size⟩ r else .ok () r

/-- Performs an action: a move burns fuel and needs some, taking fuel fills
the tank, and everything performed is written down. -/
def perform (a : Action) : EStateM OutOfFuel Recorder Unit := fun r =>
  match a with
  | .move =>
    if r.isDry then
      .error ⟨r.calls.size⟩ r
    else
      .ok () ⟨r.calls.push .move, r.fuel.map FuelTank.burn⟩
  | .takeFuel =>
    .ok () ⟨r.calls.push .takeFuel, r.fuel.map FuelTank.refill⟩
  | other => .ok () ⟨r.calls.push other, r.fuel⟩

/-- The recording robot. -/
def robot : Robot Recorder OutOfFuel where
  ready := ready
  moveForward := perform .move
  turnLeft := perform .turnLeft
  turnRight := perform .turnRight
  takeFuel := perform .takeFuel
  idleWait := perform .wait
  report a := [.recorded a]

/-- Each operation of the recording robot records its own action. -/
theorem robot_perform (a : Action) : robot.perform a = perform a := by
  cases a <;> rfl

end Recorder

end RobotScript
