import RobotScript.Execution.Basic

/-!
# Journals of running

The journal of a step tells what the walk to the action passed, then what the
robot itself has to say, then whether the action was performed or refused.  The
journal of a run is that of its steps in turn.
-/

namespace RobotScript

namespace Execution

variable {σ ε : Type} [ToString ε]

/-- The journal of one step. -/
def stepJournal (robot : Robot σ ε) : Execution × σ → List Message
  | (x, s) =>
    if x.halted then
      []
    else
      walkJournal x.frames ++
        match walk x.frames with
        | none => []
        | some (a, _) =>
          match robot.attempt a s with
          | .ok _ _ => robot.report a ++ [.performed (x.steps + 1) a]
          | .error reason _ => [.refused a x.steps (toString reason)]

/-- The journal of a run with a budget, behind earlier messages. -/
def runJournalFrom (robot : Robot σ ε) (noted : Array Message) :
    Nat → Execution × σ → Array Message
  | 0, _ => noted
  | budget + 1, state =>
    let noted := noted ++ stepJournal robot state
    match step robot state with
    | .ok (.performed _) state => runJournalFrom robot noted budget state
    | .ok .finished _ => noted
    | .error _ _ => noted

/-- The journal of a run with a budget; also of a run to the end, whose limit
is a budget. -/
def runJournal (robot : Robot σ ε) (budget : Nat) (state : Execution × σ) :
    List Message :=
  (runJournalFrom robot #[] budget state).toList

end Execution

end RobotScript
