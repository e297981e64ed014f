import RobotScript.Execution.Journal
import RobotScript.Proofs.Driving

/-!
# Journals of whole runs

The journal of a step is what its walk notes, and behind it messages about the
action.  The journal of driving an execution is made of the journals of the
steps.  So what holds of an execution and of what has been noted, and survives
every step with its journal, survives driving; this induction is done once, in
`driven_notes`.

A robot may have messages of its own in the journal.  It is supposed that it
does not write those of the walk, `Robot.Discreet`.

## Main results

* `exists_stepJournal` — what the walk notes comes first.
* `driven_notes` — what every step preserves, with what it notes, survives
  driving.
-/

namespace RobotScript

/-- Whether a message is one that a walk notes. -/
def Message.ofWalk : Message → Bool
  | .iterationBegun _ _ => true
  | .loopAbandoned _ => true
  | _ => false

/-- Whether a robot leaves the messages of the walk to the walk. -/
def Robot.Discreet {σ ε : Type} (robot : Robot σ ε) : Prop :=
  ∀ a, ∀ m ∈ robot.report a, m.ofWalk = false

theorem Recorder.discreet : Recorder.robot.Discreet := by
  intro a m hm
  rw [List.mem_singleton.1 hm]
  rfl

namespace Execution

variable {σ ε : Type} [ToString ε] {robot : Robot σ ε}

/-- What a step notes about its walk. -/
def walkNotes (x : Execution) : List Message :=
  if x.halted then [] else walkJournal x.frames

/-- A step notes its walk, and behind it messages of other kinds. -/
theorem exists_stepJournal (hrobot : robot.Discreet) (x : Execution) (s : σ) :
    ∃ own, stepJournal robot (x, s) = x.walkNotes ++ own ∧
      ∀ m ∈ own, m.ofWalk = false := by
  by_cases hhalted : x.halted = true
  · refine ⟨[], ?_, nofun⟩
    simp [stepJournal, walkNotes, hhalted]
  · simp only [stepJournal, walkNotes, if_neg hhalted]
    refine ⟨_, rfl, ?_⟩
    intro m hm
    split at hm
    · cases hm
    · next a _ _ =>
      split at hm
      · rcases List.mem_append.1 hm with hm | hm
        · exact hrobot a m hm
        · rw [List.mem_singleton.1 hm]
          rfl
      · rw [List.mem_singleton.1 hm]
        rfl

/-- What is noted while an execution is driven. -/
def Driver.journal (robot : Robot σ ε) :
    Driver → Execution × σ → List Message
  | .step, state => stepJournal robot state
  | .run budget, state => runJournal robot budget state
  | .runToEnd limit, state => runJournal robot limit state

/-- What is noted while an execution is driven in several ways, one after the
other. -/
def drivenJournal (robot : Robot σ ε) :
    List Driver → Execution × σ → List Message
  | [], _ => []
  | driver :: drivers, state =>
    driver.journal robot state ++
      drivenJournal robot drivers (driver.leaves robot state)

variable {I : Execution × σ → List Message → Prop}

theorem runJournalFrom_preserves
    (hstep : ∀ state noted, I state noted →
      I (stateAfter (step robot state)) (noted ++ stepJournal robot state))
    (taken budget : Nat) {state : Execution × σ} {noted : Array Message}
    (hstate : I state noted.toList) :
    I (stateAfter (runFrom robot taken budget state))
      (runJournalFrom robot noted budget state).toList := by
  induction budget generalizing taken state noted with
  | zero => exact hstate
  | succ budget ih =>
      have hnext := hstep state noted.toList hstate
      rw [← Array.toList_appendList] at hnext
      simp only [runFrom, runJournalFrom]
      cases hr : step robot state with
      | ok r next =>
          rw [hr] at hnext
          cases r with
          | performed a => exact ih (taken + 1) hnext
          | finished => exact hnext
      | error e next =>
          rw [hr] at hnext
          exact hnext

/-- **Driving is stepping**, also in the journal.  What every step preserves,
with what it notes, survives driving. -/
theorem driven_notes
    (hstep : ∀ state noted, I state noted →
      I (stateAfter (step robot state)) (noted ++ stepJournal robot state))
    (drivers : List Driver) {state : Execution × σ} {noted : List Message}
    (hstate : I state noted) :
    I (driven robot drivers state)
      (noted ++ drivenJournal robot drivers state) := by
  -- A run begins its journal anew, so what was noted before stands in front.
  have hrun : ∀ (budget : Nat) (state : Execution × σ) (noted : List Message),
      I state noted → I (stateAfter (run robot budget state))
        (noted ++ runJournal robot budget state) := by
    intro budget state noted hstate
    refine runJournalFrom_preserves
      (I := fun state later => I state (noted ++ later)) ?_ 0 budget ?_
    · intro state later h
      rw [← List.append_assoc]
      exact hstep state _ h
    · rw [Array.toList_empty, List.append_nil]
      exact hstate
  induction drivers generalizing state noted with
  | nil =>
      rw [drivenJournal, List.append_nil]
      exact hstate
  | cons driver drivers ih =>
      rw [drivenJournal, ← List.append_assoc]
      show I (driven robot drivers (driver.leaves robot state)) _
      apply ih
      cases driver with
      | step => exact hstep state noted hstate
      | run budget => exact hrun budget state noted hstate
      | runToEnd limit =>
          have hlimit := hrun limit state noted hstate
          rw [run, ← stateAfter_runToEnd_go robot state.1.steps] at hlimit
          exact hlimit

end Execution

end RobotScript
