import RobotScript.CommandLine.Outcome
import RobotScript.Proofs.RoundTrip
import RobotScript.Proofs.Watching

/-!
# What commands report

The command `run` steps the execution itself, so that it can print a line for
every action as soon as it is performed.  `runSource` does the same work in one
call and prints nothing.  They end alike: the lines that `tell` prints on the
way are those that can be made up from the record of the robot afterwards,
because a recording robot writes down exactly the actions it performs and the
number of a line is the number of actions in the record.

The command `parse` prints the canonical text and a line feed.  The line feed
is blank, so a file with this output is read as the same program and printed as
the same text.

## Main results

* `Recorder.attempt_eq` — what a recording robot does when asked for an action.
* `Command.tell_eq` — the outcome of a run from its result and its record.
* `execute_agrees` — what the commands print and how they end.
-/

namespace RobotScript

/-! ## The record -/

namespace Recorder

/-- The record and the tank after an action that was performed. -/
def after (r : Recorder) (a : Action) : Recorder where
  calls := r.calls.push a
  fuel :=
    match a with
    | .move => r.fuel.map FuelTank.burn
    | .takeFuel => r.fuel.map FuelTank.refill
    | .turnLeft => r.fuel
    | .turnRight => r.fuel
    | .wait => r.fuel

/-- **A recording robot** refuses if its tank is empty and changes nothing;
otherwise it performs the action and writes it down. -/
theorem attempt_eq (a : Action) (r : Recorder) :
    robot.attempt a r =
      if r.isDry then .error ⟨r.calls.size⟩ r else .ok () (r.after a) := by
  rw [Robot.attempt_eq]
  by_cases hdry : r.isDry = true
  · have hready : robot.ready r = .error ⟨r.calls.size⟩ r := if_pos hdry
    rw [hready, if_pos hdry]
  · have hready : robot.ready r = .ok () r := if_neg hdry
    rw [hready, if_neg hdry]
    show robot.perform a r = .ok () (r.after a)
    rw [robot_perform]
    cases a with
    | move => exact if_neg hdry
    | turnLeft => rfl
    | turnRight => rfl
    | takeFuel => rfl
    | wait => rfl

theorem eq_after_of_attempt {a : Action} {r r' : Recorder}
    (h : robot.attempt a r = .ok () r') : r' = r.after a := by
  rw [attempt_eq] at h
  split at h
  · cases h
  · cases h
    rfl

theorem eq_of_attempt_error {a : Action} {r r' : Recorder} {e : OutOfFuel}
    (h : robot.attempt a r = .error e r') : r' = r := by
  rw [attempt_eq] at h
  split at h
  · cases h
    rfl
  · cases h

end Recorder

/-! ## Running -/

/-- One line for each action of a record: its number, right-aligned to five
characters, two blanks and the keyword. -/
def listing (calls : List Action) : List String :=
  calls.mapIdx fun i a =>
    alignRight 5 (toString (i + 1)) ++ "  " ++ a.keyword ++ "\n"

theorem listing_concat (calls : List Action) (a : Action) :
    listing (calls ++ [a]) =
      listing calls ++ [Command.actionLine (calls.length + 1) a] :=
  List.mapIdx_concat

/-- How a command ends if running the program has this result: the actions of
the record are listed, and a refusal is reported behind them. -/
def Outcome.ofRun {α : Type} :
    EStateM.Result (RuntimeError OutOfFuel) (Execution × Recorder) α → Outcome
  | .ok _ (_, r) => ⟨0, String.join (listing r.calls.toList), ""⟩
  | .error e (_, r) =>
    ⟨3, String.join (listing r.calls.toList), e.message ++ "\n"⟩

/-- **Telling is running.**  If the lines printed so far are those of the
record, the command ends as a run of the library does. -/
theorem Command.tell_eq (taken budget : Nat) {x : Execution} {r : Recorder}
    {lines : Array String} (hsteps : x.steps = r.calls.size)
    (hlines : lines.toList = listing r.calls.toList) :
    tell lines budget (x, r) =
      .ofRun (Execution.runFrom Recorder.robot taken budget (x, r)) := by
  induction budget generalizing taken x r lines with
  | zero =>
      show Outcome.success _ = Outcome.success _
      rw [hlines]
  | succ budget ih =>
      have hstepped := Execution.stepped Recorder.robot x r
      simp only [tell, Execution.runFrom]
      generalize Execution.step Recorder.robot (x, r) = result at hstepped ⊢
      cases hstepped with
      | halted _ => simp only [Outcome.ofRun, hlines]
      | finished _ _ => simp only [Outcome.ofRun, Outcome.success, hlines]
      | @performed a frames r' _ _ hrobot =>
          obtain rfl := Recorder.eq_after_of_attempt hrobot
          -- The number of the new line is the new size of the record.
          apply ih (taken + 1)
          · show x.steps + 1 = (r.calls.push a).size
            rw [hsteps, Array.size_push]
          · show (lines.push (actionLine (x.steps + 1) a)).toList =
              listing (r.calls.push a).toList
            rw [Array.toList_push, Array.toList_push, listing_concat, hlines,
              hsteps, Array.length_toList]
      | refused _ _ hrobot =>
          obtain rfl := Recorder.eq_of_attempt_error hrobot
          simp only [Outcome.ofRun, hlines]

/-! ## Canonical text in files -/

/-- A file with a text in it is read as that text. -/
theorem readText_of_toUTF8 {files : FileSystem} {path text : String}
    (h : files path = .ok text.toUTF8) : readText files path = .ok text := by
  have htext : String.fromUTF8? text.toUTF8 = some text := by
    unfold String.fromUTF8?
    rw [String.toUTF8_eq_toByteArray, dif_pos text.isValidUTF8]
    rfl
  simp only [readText, h, htext]

/-- A line feed behind the canonical text makes no difference. -/
theorem parse_render_lineFeed {p : Program} {source : String}
    (h : Program.parse source = .ok p) :
    Program.parse (p.render ++ "\n") = .ok p := by
  have hfeed : Writes "\n" [] := Writes.blanks (by decide)
  have hwrites := p.writes_render.append hfeed
  rw [List.append_nil] at hwrites
  exact parse_eq_ok_iff.2 ⟨hwrites.tokensOf_split, (parse_eq_ok_iff.1 h).2⟩

/-! ## Commands -/

/-- Why a file cannot be loaded that cannot be read. -/
def LoadError.ofFault (path : String) (fault : ReadFault) : LoadError :=
  if fault = .notFound then .notFound path else .unreadable path fault

theorem load_of_fault {files : FileSystem} {file : String} {fault : ReadFault}
    (h : readText files file = .error fault) :
    Program.load files file = .error (.ofFault file fault) := by
  cases fault <;> simp only [Program.load, h] <;> rfl

namespace Command

variable {files : FileSystem} {file : String}

theorem execute_of_load_error {e : LoadError} {command : Command}
    {steps : Nat} {fuel : Option UInt32}
    (hcommand : command = .parse file ∨ command = .run file steps fuel)
    (h : Program.load files file = .error e) :
    execute files command = .ofLoadError e := by
  rcases hcommand with rfl | rfl
  · simp only [execute, h]
  · simp only [execute, h]

theorem load_of_parse {text : String} {p : Program}
    (htext : readText files file = .ok text)
    (hparse : Program.parse text = .ok p) :
    Program.load files file = .ok p := by
  simp only [Program.load, htext, hparse]

theorem execute_parse {text : String} {p : Program}
    (htext : readText files file = .ok text)
    (hparse : Program.parse text = .ok p) :
    execute files (.parse file) = ⟨0, p.render ++ "\n", ""⟩ := by
  simp only [execute, load_of_parse htext hparse]
  rfl

/-- The command `run` ends as a run of the library does. -/
theorem execute_run {text : String} {p : Program}
    (htext : readText files file = .ok text)
    (hparse : Program.parse text = .ok p) (steps : Nat)
    (fuel : Option UInt32) :
    execute files (.run file steps fuel) =
      .ofRun (Execution.run Recorder.robot steps
        (Execution.start p, recorder fuel)) := by
  simp only [execute, load_of_parse htext hparse]
  exact tell_eq 0 steps rfl rfl

/-- **The commands agree with the library.**  For every file system and every
file:

* if the file is missing or cannot be read, a command ends with code 2, and if
  its text is not a script, with code 1; either way it prints the error and
  nothing else;
* otherwise `run` lists the actions that `runSource` leaves in the record of a
  new recording robot; it ends with code 0 if that succeeds, and with code 3 and
  the error if the robot refuses an action;
* `parse` prints the canonical text with a line feed, and prints the same for
  every file that holds what it has printed. -/
theorem execute_agrees (files : FileSystem) (file : String) (steps : Nat)
    (fuel : Option UInt32) :
    (∀ fault, readText files file = .error fault →
      ∀ command, command = .parse file ∨ command = .run file steps fuel →
        execute files command =
          ⟨2, "", (LoadError.ofFault file fault).message ++ "\n"⟩) ∧
    ∀ text, readText files file = .ok text →
      (∀ e, Program.parse text = .error e →
        ∀ command, command = .parse file ∨ command = .run file steps fuel →
          execute files command =
            ⟨1, "", (LoadError.syntactic e).message ++ "\n"⟩) ∧
      ∀ p, Program.parse text = .ok p →
        (∀ summary r,
          runSource Recorder.robot text steps (recorder fuel) =
            .ok summary r →
          execute files (.run file steps fuel) =
            ⟨0, String.join (listing r.calls.toList), ""⟩) ∧
        (∀ e r,
          runSource Recorder.robot text steps (recorder fuel) = .error e r →
          (∃ reason, e = .runtime reason) ∧
            execute files (.run file steps fuel) =
              ⟨3, String.join (listing r.calls.toList), e.message ++ "\n"⟩) ∧
        execute files (.parse file) = ⟨0, p.render ++ "\n", ""⟩ ∧
        ∀ files' : FileSystem, ∀ file',
          files' file' = .ok (p.render ++ "\n").toUTF8 →
          execute files' (.parse file') = ⟨0, p.render ++ "\n", ""⟩ := by
  constructor
  · intro fault hfault command hcommand
    rw [execute_of_load_error hcommand (load_of_fault hfault)]
    unfold LoadError.ofFault
    split
    · rfl
    · rfl
  · intro text htext
    refine ⟨?_, ?_⟩
    · intro e he command hcommand
      have hload : Program.load files file = .error (.syntactic e) := by
        simp only [Program.load, htext, he]
      rw [execute_of_load_error hcommand hload]
      rfl
    · intro p hparse
      have hrun := execute_run htext hparse steps fuel
      refine ⟨?_, ?_, execute_parse htext hparse, ?_⟩
      · intro summary r hsource
        simp only [runSource, hparse] at hsource
        split at hsource
        · next hresult =>
          cases hsource
          rw [hrun, hresult]
          rfl
        · cases hsource
      · intro e r hsource
        simp only [runSource, hparse] at hsource
        split at hsource
        · cases hsource
        · next reason _ _ hresult =>
          cases hsource
          refine ⟨⟨reason, rfl⟩, ?_⟩
          rw [hrun, hresult]
          rfl
      · intro files' file' hfile
        exact execute_parse (readText_of_toUTF8 hfile)
          (parse_render_lineFeed hparse)

/-- A robot that is stranded in a loop: the actions performed before are listed
all the same. -/
theorem execute_agrees_stranded :
    let source := "loop \x7b wait; move; \x7d"
    execute (fun _ => .ok source.toUTF8) (.run "patrol" 10 (some 1)) =
      ⟨3, "    1  wait\n    2  move\n",
        "actuator refused `wait;` after 2 steps: " ++
          "out of fuel after 2 actions\n"⟩ := by
  intro source
  have htext : readText (fun _ => .ok source.toUTF8) "patrol" = .ok source :=
    readText_of_toUTF8 rfl
  let p : Program := ⟨[.loop (.action .wait) [.action .move]]⟩
  have hparse : Program.parse source = .ok p := parse_eq_ok_iff.2 (by decide)
  have hsource : runSource Recorder.robot source 10 (recorder (some 1)) =
      .error (.runtime (.refused .wait 2 ⟨2⟩))
        ⟨#[.wait, .move], some ⟨1, 0, 1⟩⟩ := by
    simp only [runSource, hparse]
    cbv
  have hstranded := (((execute_agrees (fun _ => .ok source.toUTF8) "patrol" 10
    (some 1)).2 source htext).2 p hparse).2.1 _ _ hsource
  rw [hstranded.2]
  decide

end Command

end RobotScript
