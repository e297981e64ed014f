import RobotScript.Action
import RobotScript.Program.Basic
import RobotScript.Program.Render
import RobotScript.Text.Blank
import RobotScript.Token.Basic
import RobotScript.Token.Lexeme
import RobotScript.Reading.Error
import RobotScript.Reading.Cursor
import RobotScript.Reading.Statement
import RobotScript.Reading.Program
import RobotScript.Journal.Message
import RobotScript.Reading.Journal
import RobotScript.Robot.Basic
import RobotScript.Robot.Recorder
import RobotScript.Execution.Frame
import RobotScript.Execution.Walk
import RobotScript.Execution.Basic
import RobotScript.Execution.Journal
import RobotScript.Files.Fault
import RobotScript.Files.Tree
import RobotScript.Script
import RobotScript.Text.Numeral
import RobotScript.CommandLine.Command
import RobotScript.CommandLine.Outcome
import RobotScript.Main
import RobotScript.Proofs.Course
import RobotScript.Proofs.CourseWalk
import RobotScript.Proofs.Grammar
import RobotScript.Proofs.Draft
import RobotScript.Proofs.Lexing
import RobotScript.Proofs.Acceptance
import RobotScript.Proofs.Descent
import RobotScript.Proofs.Diagnostics
import RobotScript.Proofs.RoundTrip
import RobotScript.Proofs.Driving
import RobotScript.Proofs.Watching
import RobotScript.Proofs.CallProtocol
import RobotScript.Proofs.Layout
import RobotScript.Proofs.LookAhead
import RobotScript.Proofs.Placement
import RobotScript.Proofs.Verdict
import RobotScript.Proofs.Concatenation
import RobotScript.Proofs.Stack
import RobotScript.Proofs.Passage
import RobotScript.Proofs.Paths
import RobotScript.Proofs.Reporting
import RobotScript.Proofs.PassEnds
import RobotScript.Proofs.IdleLoops
import RobotScript.Proofs.Counting
import RobotScript.Proofs.Rounds
import RobotScript.Proofs.RunJournals
import RobotScript.Proofs.Iterations
import RobotScript.Proofs.Slices
import RobotScript.Proofs.Completion
import RobotScript.Proofs.Fuel
import RobotScript.Proofs.Stranding
import RobotScript.Proofs.Productions
import RobotScript.Proofs.Outline
import RobotScript.Proofs.Relayout
import RobotScript.Proofs.Success
import RobotScript.Proofs.Replay
import RobotScript.Proofs.Addresses
import RobotScript.Proofs.Counting
import RobotScript.Proofs.Rounds
import RobotScript.Proofs.RunJournals
