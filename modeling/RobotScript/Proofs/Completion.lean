import RobotScript.Proofs.CallProtocol
import RobotScript.Proofs.IdleLoops
import RobotScript.Proofs.LookAhead

/-!
# Running to the end

`Program.execute` has a limit on the steps, because a program may never end.
`Program.Returns` is what it comes to if there is no limit.  The link between
the two, and to runs with a budget, is `Concludes`: so many actions are
performed, and the step after them finds none left or fails.  Every limit and
every budget that reaches this step gives the same answer.

Whether the end comes can be told from the program.  A run that succeeds has
used up the course, so the course ends, and this is so exactly if none of the
outermost statements is a loop with an action.  Then the course consists of the
actions written in the program.  A script cannot spell a loop without an
action, so for a program that has been read it is enough that there is no loop.

## Main results

* `Concludes.go_eq`, `Concludes.runFrom_eq` — limits and budgets that reach the
  last step.
* `concludes_or_exhausts` — a run to the end concludes or uses up its limit.
* `Program.returns_ok_iff`, `Program.returns_error_iff` — what the execution of
  a program returns is what it concludes with.
* `Program.exists_returns_of_ends` — a program that ends returns.
* `execute_returns` — when the execution of a program returns, and with what.
-/

namespace RobotScript

open Statement (Ends)

/-! ## Programs that end -/

namespace Program

variable {p : Program}

/-- The course of a program ends exactly if none of the outermost statements is
a loop with an action, and then it has the actions written in the program. -/
theorem length?_course_eq_some_iff {n : Nat} :
    p.course.length? = some n ↔ Ends p.statements ∧ n = p.actionCount := by
  rw [← Statement.cycle_courseList_eq_nil_iff]
  show (if p.course.cycle = [] then some p.course.lead.length else none) =
    some n ↔ p.course.cycle = [] ∧ n = p.actionCount
  by_cases hcycle : p.course.cycle = []
  · have hcourse : p.course = ⟨p.actions, []⟩ :=
      Statement.courseList_of_ends
        ((Statement.cycle_courseList_eq_nil_iff _).1 hcycle)
    have hlength : p.course.lead.length = p.actionCount := by
      rw [hcourse]
      exact Statement.length_actionsList p.statements
    rw [if_pos hcycle, hlength, Option.some_inj]
    exact ⟨fun h => ⟨hcycle, h.symm⟩, fun h => h.2.symm⟩
  · rw [if_neg hcycle]
    exact ⟨nofun, fun h => absurd h.1 hcycle⟩

/-- A program that has been read ends exactly if it has no loop. -/
theorem ends_iff_of_parse {source : String}
    (h : Program.parse source = .ok p) :
    Ends p.statements ↔ p.hasLoop = false := by
  rw [hasLoop, List.any_eq_false]
  constructor
  · intro hends s hs hloop
    cases s with
    | action a => cases hloop
    | nop => cases hloop
    | loop first rest =>
        obtain ⟨i, hi⟩ := List.getElem?_of_mem hs
        have hplace : p.statementAt? [i] = some (Block.looped ⟨first, rest⟩) := by
          rw [statementAt?, hi]
          rfl
        have hsome := one_le_actionCount_of_parse h hplace
        rw [hends ⟨first, rest⟩ hs] at hsome
        cases hsome
  · intro hnone b hb
    exact absurd rfl (hnone b.looped hb)

end Program

namespace Execution

variable {σ ε : Type} {robot : Robot σ ε}

/-! ## The last step -/

/-- `Concludes robot state k r` tells that `k` actions are performed from
`state` and that the step after them comes to `r`: it finds no action left, or
it fails. -/
inductive Concludes (robot : Robot σ ε) :
    Execution × σ → Nat →
      EStateM.Result (RuntimeError ε) (Execution × σ) Unit → Prop
  | finished {state after : Execution × σ}
      (h : step robot state = .ok .finished after) :
      Concludes robot state 0 (.ok () after)
  | failed {state after : Execution × σ} {e : RuntimeError ε}
      (h : step robot state = .error e after) :
      Concludes robot state 0 (.error e after)
  | performed {state next : Execution × σ} {a : Action} {k : Nat}
      {r : EStateM.Result (RuntimeError ε) (Execution × σ) Unit}
      (h : step robot state = .ok (.performed a) next)
      (hrest : Concludes robot next k r) :
      Concludes robot state (k + 1) r

/-- A result that gives what `f` reads off the state. -/
def reading {ε τ α β : Type} (f : τ → β) :
    EStateM.Result ε τ α → EStateM.Result ε τ β
  | .ok _ state => .ok (f state) state
  | .error e state => .error e state

theorem stateAfter_reading {ε τ α β : Type} (f : τ → β)
    (r : EStateM.Result ε τ α) : stateAfter (reading f r) = stateAfter r := by
  cases r with
  | ok _ _ => rfl
  | error _ _ => rfl

theorem stepped_of_eq {state : Execution × σ}
    {r : EStateM.Result (RuntimeError ε) (Execution × σ) Step}
    (h : step robot state = r) : Stepped robot state.1 state.2 r :=
  h ▸ stepped robot state.1 state.2

namespace Concludes

variable {state after : Execution × σ} {k : Nat}
  {r : EStateM.Result (RuntimeError ε) (Execution × σ) Unit}

/-- A limit that reaches the last step. -/
theorem go_eq (h : Concludes robot state k r) (before : Nat) {limit : Nat}
    (hlimit : k < limit) :
    runToEnd.go robot before limit state =
      reading (fun after => some (after.1.steps - before)) r := by
  obtain ⟨limit, rfl⟩ : ∃ l, limit = l + 1 := ⟨limit - 1, by omega⟩
  induction h generalizing limit with
  | finished h => simp only [runToEnd.go, h, reading]
  | failed h => simp only [runToEnd.go, h, reading]
  | performed h _ ih =>
      obtain ⟨limit, rfl⟩ : ∃ l, limit = l + 1 := ⟨limit - 1, by omega⟩
      simp only [runToEnd.go, h]
      exact ih limit (by omega)

/-- A budget that reaches the last step. -/
theorem runFrom_eq (h : Concludes robot state k r) (taken : Nat) {budget : Nat}
    (hbudget : k < budget) :
    runFrom robot taken budget state =
      reading (fun _ => ⟨taken + k, true⟩) r := by
  obtain ⟨budget, rfl⟩ : ∃ b, budget = b + 1 := ⟨budget - 1, by omega⟩
  induction h generalizing taken budget with
  | finished h => simp only [runFrom, h, reading, Nat.add_zero]
  | failed h => simp only [runFrom, h, reading]
  | @performed state next a k r h _ ih =>
      obtain ⟨budget, rfl⟩ : ∃ b, budget = b + 1 := ⟨budget - 1, by omega⟩
      have hrest := ih (taken + 1) budget (by omega)
      rw [Nat.add_right_comm] at hrest
      simp only [runFrom, h]
      exact hrest

theorem run_eq (h : Concludes robot state k r) {budget : Nat}
    (hbudget : k < budget) :
    run robot budget state = reading (fun _ => ⟨k, true⟩) r := by
  have hrun := h.runFrom_eq 0 hbudget
  rw [Nat.zero_add] at hrun
  exact hrun

theorem driven_eq (h : Concludes robot state k r) :
    driven robot [.runToEnd (k + 1)] state = stateAfter r := by
  show stateAfter (runToEnd.go robot state.1.steps (k + 1) state) = _
  rw [h.go_eq state.1.steps (Nat.lt_succ_self k), stateAfter_reading]

/-- The actions performed are counted by the execution. -/
theorem steps_eq (h : Concludes robot state k r) :
    (stateAfter r).1.steps = state.1.steps + k := by
  induction h with
  | @finished state after h =>
      cases stepped_of_eq h with
      | finished _ _ => rfl
  | @failed state after e h =>
      cases stepped_of_eq h with
      | halted _ => rfl
      | refused _ _ _ => rfl
  | @performed state next a k r h _ ih =>
      cases stepped_of_eq h with
      | performed _ _ _ =>
          rw [ih]
          show state.1.steps + 1 + k = state.1.steps + (k + 1)
          omega

/-- Behind a success nothing has been refused, and a step finds no action
left. -/
theorem step_after (h : Concludes robot state k (.ok () after)) :
    after.1.halted = false ∧ step robot after = .ok .finished after := by
  generalize hr : EStateM.Result.ok () after = r at h
  induction h with
  | finished h =>
      cases hr
      refine ⟨?_, (driven_of_finished h).2.1⟩
      cases stepped_of_eq h with
      | finished hrunning _ => exact hrunning
  | failed _ => cases hr
  | performed _ _ ih => exact ih hr

/-- A failure is a refusal, unless there has been one before. -/
theorem refused_of_error {e : RuntimeError ε}
    (h : Concludes robot state k (.error e after))
    (hrunning : state.1.halted = false) :
    ∃ a reason, e = .refused a (state.1.steps + k) reason := by
  generalize hr : EStateM.Result.error e after = r at h
  induction h with
  | finished _ => cases hr
  | @failed state after' e' h =>
      cases hr
      cases stepped_of_eq h with
      | halted hhalted => simp [hrunning] at hhalted
      | @refused a frames reason _ _ _ _ => exact ⟨a, reason, rfl⟩
  | @performed state next a k r h _ ih =>
      cases stepped_of_eq h with
      | performed _ _ _ =>
          have hrefused := ih hrunning hr
          rw [show state.1.steps + (k + 1) = state.1.steps + 1 + k by omega]
          exact hrefused

end Concludes

/-- A run to the end concludes before its limit or uses it up. -/
theorem concludes_or_exhausts (robot : Robot σ ε) (before limit : Nat)
    (state : Execution × σ) :
    (∃ k r, k < limit ∧ Concludes robot state k r) ∨
      ∃ after, runToEnd.go robot before limit state = .ok none after ∧
        after.1.steps = state.1.steps + limit := by
  induction limit generalizing state with
  | zero => exact .inr ⟨state, rfl, rfl⟩
  | succ limit ih =>
      have hstepped := stepped robot state.1 state.2
      generalize hr : step robot (state.1, state.2) = r at hstepped
      cases hstepped with
      | halted _ => exact .inl ⟨0, _, Nat.succ_pos limit, .failed hr⟩
      | finished _ _ => exact .inl ⟨0, _, Nat.succ_pos limit, .finished hr⟩
      | refused _ _ _ => exact .inl ⟨0, _, Nat.succ_pos limit, .failed hr⟩
      | performed _ _ _ =>
          rcases ih _ with ⟨k, r, hk, hrest⟩ | ⟨after, hgo, hsteps⟩
          · exact .inl ⟨k + 1, r, Nat.succ_lt_succ hk, .performed hr hrest⟩
          · refine .inr ⟨after, ?_, ?_⟩
            · rw [← hgo]
              simp only [runToEnd.go, show step robot state = _ from hr]
            · rw [hsteps]
              show state.1.steps + 1 + limit = state.1.steps + (limit + 1)
              omega

end Execution

/-! ## What the execution of a program returns -/

namespace Program

open Execution (Concludes runToEnd start concludes_or_exhausts)

variable {σ ε : Type} {p : Program} {robot : Robot σ ε} {s s' : σ}

/-- What the execution of a program returns if nothing limits its steps.  With
a limit it comes to the same, or to nothing if the limit is too low. -/
def Returns (p : Program) (robot : Robot σ ε) (s : σ) :
    EStateM.Result (RuntimeError ε) σ Nat → Prop
  | .ok n s' => ∃ limit, p.execute robot limit s = .ok (some n) s'
  | .error e s' => ∃ limit, p.execute robot limit s = .error e s'

/-- Executing a program is running it to the end, of which only the robot is
seen. -/
theorem execute_eq (p : Program) (robot : Robot σ ε) (limit : Nat) (s : σ) :
    p.execute robot limit s =
      viewed Prod.snd (runToEnd.go robot 0 limit (start p, s)) := by
  have hrun : runToEnd robot limit (start p, s) =
      runToEnd.go robot 0 limit (start p, s) := rfl
  rw [execute, hrun]
  cases runToEnd.go robot 0 limit (start p, s) with
  | ok n after => rfl
  | error e after => rfl

/-- Every limit that reaches the last step of an execution gives its
result. -/
theorem execute_of_concludes {k : Nat}
    {r : EStateM.Result (RuntimeError ε) (Execution × σ) Unit}
    (h : Concludes robot (start p, s) k r) {limit : Nat} (hlimit : k < limit) :
    p.execute robot limit s =
      viewed Prod.snd (Execution.reading (fun _ => some k) r) := by
  have hsteps : (stateAfter r).1.steps = 0 + k := h.steps_eq
  rw [execute_eq, h.go_eq 0 hlimit]
  cases r with
  | ok _ after =>
      show EStateM.Result.ok (some after.1.steps) after.2 = .ok (some k) after.2
      rw [show after.1.steps = 0 + k from hsteps, Nat.zero_add]
  | error e after => rfl

/-- An execution that does not use up its limit has concluded. -/
theorem concludes_of_execute {limit : Nat}
    {r : EStateM.Result (RuntimeError ε) σ (Option Nat)}
    (h : p.execute robot limit s = r) (hr : ∀ s', r ≠ .ok none s') :
    ∃ k c, Concludes robot (start p, s) k c ∧
      r = viewed Prod.snd (Execution.reading (fun _ => some k) c) := by
  rcases concludes_or_exhausts robot 0 limit (start p, s) with
    ⟨k, c, hk, hc⟩ | ⟨after, hgo, _⟩
  · exact ⟨k, c, hc, h ▸ execute_of_concludes hc hk⟩
  · rw [execute_eq, hgo] at h
    exact absurd h.symm (hr after.2)

theorem returns_ok_iff {n : Nat} :
    p.Returns robot s (.ok n s') ↔
      ∃ x, Concludes robot (start p, s) n (.ok () (x, s')) := by
  constructor
  · rintro ⟨limit, hlimit⟩
    obtain ⟨k, c, hc, hr⟩ := concludes_of_execute hlimit nofun
    cases c with
    | ok _ after =>
        cases hr
        exact ⟨after.1, hc⟩
    | error e after => cases hr
  · rintro ⟨x, h⟩
    exact ⟨n + 1, execute_of_concludes h (Nat.lt_succ_self n)⟩

theorem returns_error_iff {e : RuntimeError ε} :
    p.Returns robot s (.error e s') ↔
      ∃ k x, Concludes robot (start p, s) k (.error e (x, s')) := by
  constructor
  · rintro ⟨limit, hlimit⟩
    obtain ⟨k, c, hc, hr⟩ := concludes_of_execute hlimit nofun
    cases c with
    | ok _ after => cases hr
    | error e after =>
        cases hr
        exact ⟨k, after.1, hc⟩
  · rintro ⟨k, x, h⟩
    exact ⟨k + 1, execute_of_concludes h (Nat.lt_succ_self k)⟩

theorem exists_returns_of_concludes {k : Nat}
    {c : EStateM.Result (RuntimeError ε) (Execution × σ) Unit}
    (h : Concludes robot (start p, s) k c) : ∃ r, p.Returns robot s r := by
  cases c with
  | ok _ after => exact ⟨.ok k after.2, returns_ok_iff.2 ⟨after.1, h⟩⟩
  | error e after =>
      exact ⟨.error e after.2, returns_error_iff.2 ⟨k, after.1, h⟩⟩

/-- **A program that ends returns**, whatever the robot does. -/
theorem exists_returns_of_ends (h : Ends p.statements) (robot : Robot σ ε)
    (s : σ) : ∃ r, p.Returns robot s r := by
  rcases concludes_or_exhausts robot 0 (p.actionCount + 1) (start p, s) with
    ⟨k, c, _, hc⟩ | ⟨⟨x, t⟩, hgo, hsteps⟩
  · exact exists_returns_of_concludes hc
  · -- More actions would have been performed than the course has.
    have hdriven : Execution.driven robot [.runToEnd (p.actionCount + 1)]
        (start p, s) = (x, t) := congrArg stateAfter hgo
    have hx := Execution.Reachable.start.driven hdriven
    have hlength : p.course.length? = some p.actionCount :=
      length?_course_eq_some_iff.2 ⟨h, rfl⟩
    have hsteps : x.steps = 0 + (p.actionCount + 1) := hsteps
    have hcount := hx.countTo_steps
    simp only [Course.countTo, hlength] at hcount
    omega

/-- Watching a robot changes nothing about the execution. -/
theorem execute_watched (p : Program) (robot : Robot σ ε) (limit : Nat) (s : σ)
    (calls : List Call) :
    viewed Prod.fst (p.execute robot.watched limit (s, calls)) =
      p.execute robot limit s := by
  have hgo : viewed (seen Prod.fst)
      (runToEnd.go robot.watched 0 limit (start p, s, calls)) =
        runToEnd.go robot 0 limit (start p, s) :=
    robot.watched_shows.runToEnd_go 0 limit (start p, s, calls)
  rw [execute_eq, execute_eq, ← hgo]
  cases runToEnd.go robot.watched 0 limit (start p, s, calls) with
  | ok n after => rfl
  | error e after => rfl

theorem Returns.watched {n : Nat} (h : p.Returns robot s (.ok n s'))
    (calls : List Call) :
    ∃ calls', p.Returns robot.watched (s, calls) (.ok n (s', calls')) := by
  obtain ⟨limit, hlimit⟩ := h
  rw [← execute_watched p robot limit s calls] at hlimit
  cases hr : p.execute robot.watched limit (s, calls) with
  | ok found after =>
      rw [hr] at hlimit
      cases hlimit
      exact ⟨after.2, limit, hr⟩
  | error e after =>
      rw [hr] at hlimit
      cases hlimit

end Program

namespace Execution

variable {σ ε : Type} {p : Program} {robot : Robot σ ε}

/-- The actions performed up to the end of a program are those written in
it. -/
theorem Conducted.done_eq_actions {x : Execution} {calls last : List Call}
    {done : List Action} (h : Conducted p x calls done last)
    (hends : Ends p.statements) (hsteps : x.steps = p.actionCount) :
    done = p.actions := by
  have hcourse : p.course = ⟨p.actions, []⟩ :=
    Statement.courseList_of_ends hends
  have hlength : done.length = p.actions.length := by
    rw [h.counted, hsteps]
    exact (Statement.length_actionsList p.statements).symm
  apply List.ext_getElem hlength
  intro i hi hi'
  have hget := h.ordered i _ (List.getElem?_eq_getElem hi)
  rw [hcourse, Course.get?, if_pos hi', List.getElem?_eq_getElem hi',
    Option.some_inj] at hget
  exact hget.symm

/-- **A success.**  The program ends, its actions have been counted, and the
robot has received the calls for them. -/
theorem ends_of_returns_ok {n : Nat} {s s' : σ}
    (h : p.Returns robot s (.ok n s')) :
    Ends p.statements ∧ n = p.actionCount ∧
      p.Returns robot.watched (s, []) (.ok n (s', rounds p.actions)) := by
  obtain ⟨calls, hwatched⟩ := h.watched []
  obtain ⟨x, hx⟩ := Program.returns_ok_iff.1 hwatched
  have hsteps : x.steps = 0 + n := hx.steps_eq
  rw [Nat.zero_add] at hsteps
  obtain ⟨done, last, hcalls⟩ := conducted_driven hx.driven_eq
  obtain ⟨hrunning, hstep⟩ := hx.step_after
  have hreach := hcalls.reachable
  have hfinished : x.isFinished = true :=
    (hreach.isFinished_iff_step hrunning robot.watched (s', calls)).2
      ⟨_, hstep⟩
  have hlength := (hreach.isFinished_iff_length? hrunning).1 hfinished
  obtain ⟨hends, hcount⟩ := Program.length?_course_eq_some_iff.1 hlength
  have hshape : calls = rounds p.actions := by
    rw [hcalls.shape, hcalls.ending.eq_nil hrunning, List.append_nil,
      hcalls.done_eq_actions hends hcount]
  refine ⟨hends, hsteps ▸ hcount, ?_⟩
  rw [← hshape]
  exact hwatched

/-- With a robot that refuses nothing only a success is returned. -/
theorem ends_of_returns_willing {S : σ → Prop} (hrobot : robot.WillingOn S)
    {s : σ} (hs : S s) {r : EStateM.Result (RuntimeError ε) σ Nat}
    (h : p.Returns robot s r) : Ends p.statements := by
  cases r with
  | ok n s' => exact (ends_of_returns_ok h).1
  | error e s' =>
      obtain ⟨k, x, hx⟩ := Program.returns_error_iff.1 h
      obtain ⟨after, hrun⟩ :=
        Reachable.start.runFrom_willing hrobot (p := p) rfl 0 (k + 1) hs
      rw [hx.runFrom_eq 0 (Nat.lt_succ_self k)] at hrun
      cases hrun

theorem returns_iff_ends {S : σ → Prop} (hrobot : robot.WillingOn S) {s : σ}
    (hs : S s) : (∃ r, p.Returns robot s r) ↔ Ends p.statements := by
  constructor
  · rintro ⟨r, hr⟩
    exact ends_of_returns_willing hrobot hs hr
  · intro hends
    exact Program.exists_returns_of_ends hends robot s

/-- **When the execution of a program returns, and with what.**

* It returns a number only if none of the outermost statements is a loop with
  an action.  Then it is the number of actions written in the program, and the
  robot has been asked for these, from left to right, and for nothing else.
* With a robot that refuses nothing it returns exactly if none of the outermost
  statements is a loop with an action.
* In a program that has been read every loop has an action, so with such a
  robot it returns exactly if there is no loop.
* If it returns, then any limit and any budget larger than the number of
  actions performed gives the same number or the same error, and leaves the
  robot in the same state. -/
theorem execute_returns (p : Program) (robot : Robot σ ε) (s : σ) :
    (∀ n s', p.Returns robot s (.ok n s') →
      (∀ b : Block, b.looped ∈ p.statements → b.actionCount = 0) ∧
        n = p.actionCount ∧
        p.Returns robot.watched (s, []) (.ok n (s', rounds p.actions))) ∧
      (∀ S, robot.WillingOn S → S s →
        ((∃ r, p.Returns robot s r) ↔
          ∀ b : Block, b.looped ∈ p.statements → b.actionCount = 0)) ∧
      (∀ source, Program.parse source = .ok p →
        (∀ path b, p.statementAt? path = some (Block.looped b) →
          1 ≤ b.actionCount) ∧
        ∀ S, robot.WillingOn S → S s →
          ((∃ r, p.Returns robot s r) ↔ p.hasLoop = false)) ∧
      (∀ n s', p.Returns robot s (.ok n s') → ∀ budget, n < budget →
        p.execute robot budget s = .ok (some n) s' ∧
          ∃ x, x.steps = n ∧
            run robot budget (start p, s) = .ok ⟨n, true⟩ (x, s')) ∧
      ∀ e s', p.Returns robot s (.error e s') →
        ∃ a k reason, e = .refused a k reason ∧ ∀ budget, k < budget →
          p.execute robot budget s = .error e s' ∧
            ∃ x, x.steps = k ∧
              run robot budget (start p, s) = .error e (x, s') := by
  refine ⟨fun n s' => ends_of_returns_ok,
    fun S hrobot hs => returns_iff_ends hrobot hs, ?_, ?_, ?_⟩
  · intro source hsource
    refine ⟨fun path b => Program.one_le_actionCount_of_parse hsource, ?_⟩
    intro S hrobot hs
    rw [← Program.ends_iff_of_parse hsource]
    exact returns_iff_ends hrobot hs
  · intro n s' h budget hbudget
    obtain ⟨x, hx⟩ := Program.returns_ok_iff.1 h
    have hsteps : x.steps = 0 + n := hx.steps_eq
    rw [Nat.zero_add] at hsteps
    exact ⟨Program.execute_of_concludes hx hbudget, x, hsteps,
      hx.run_eq hbudget⟩
  · intro e s' h
    obtain ⟨k, x, hx⟩ := Program.returns_error_iff.1 h
    have hsteps : x.steps = 0 + k := hx.steps_eq
    obtain ⟨a, reason, he⟩ := hx.refused_of_error rfl
    rw [show (start p, s).1.steps + k = 0 + k from rfl, Nat.zero_add] at he
    rw [Nat.zero_add] at hsteps
    refine ⟨a, k, reason, he, ?_⟩
    intro budget hbudget
    exact ⟨Program.execute_of_concludes hx hbudget, x, hsteps,
      hx.run_eq hbudget⟩

/-- Two loops without an action do not keep a program from its end.  A patrol
ends only when the robot is stranded, here with fuel for one move. -/
theorem execute_returns_idle_and_patrol :
    let idle : Program :=
      ⟨[.action .move, .loop .nop [.loop .nop []], .action .wait]⟩
    let source := "loop \x7b wait; move; \x7d"
    let patrol : Program := ⟨[.loop (.action .wait) [.action .move]]⟩
    let done : Recorder := ⟨#[.move, .wait], none⟩
    let stranded : Recorder := ⟨#[.wait, .move], some ⟨1, 0, 1⟩⟩
    (idle.Returns Recorder.robot {} (.ok 2 done) ∧
        idle.Returns Recorder.robot.watched ({}, [])
          (.ok 2 (done, rounds [.move, .wait])) ∧
        idle.execute Recorder.robot 3 {} = .ok (some 2) done) ∧
      (Program.parse source = .ok patrol ∧
        ¬∃ r, patrol.Returns Recorder.robot {} r) ∧
      patrol.Returns Recorder.robot { fuel := some (.full 1) }
          (.error (.refused .wait 2 ⟨2⟩) stranded) ∧
        ∃ x, x.steps = 2 ∧
          run Recorder.robot 9 (start patrol, { fuel := some (.full 1) }) =
            .error (.refused .wait 2 ⟨2⟩) (x, stranded) := by
  intro idle source patrol done stranded
  have hidle : idle.Returns Recorder.robot {} (.ok 2 done) := ⟨8, by cbv⟩
  have hparse : Program.parse source = .ok patrol :=
    parse_eq_ok_iff.2 (by decide)
  have hstranded : patrol.Returns Recorder.robot { fuel := some (.full 1) }
      (.error (.refused .wait 2 ⟨2⟩) stranded) := ⟨3, by cbv⟩
  refine ⟨⟨hidle, ?_, ?_⟩, ⟨hparse, ?_⟩, hstranded, ?_⟩
  · exact ((execute_returns idle Recorder.robot {}).1 2 done hidle).2.2
  · obtain ⟨-, -, -, hlimits, -⟩ := execute_returns idle Recorder.robot {}
    exact (hlimits 2 done hidle 3 (by decide)).1
  · obtain ⟨-, -, hread, -, -⟩ := execute_returns patrol Recorder.robot {}
    rw [(hread source hparse).2 (·.fuel = none) Recorder.willingOn_no_tank rfl]
    decide
  · obtain ⟨-, -, -, -, hfails⟩ :=
      execute_returns patrol Recorder.robot { fuel := some (.full 1) }
    obtain ⟨a, k, reason, he, hbudgets⟩ := hfails _ stranded hstranded
    cases he
    exact (hbudgets 9 (by decide)).2

end Execution

end RobotScript
