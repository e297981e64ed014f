import RobotScript.Proofs.Watching

/-!
# Looking ahead

`Execution.isFinished` does not walk.  It counts the actions written in what is
left of every frame, and takes a loop with an action for one that goes on.  The
walk starts a loop over only if its present pass has reached an action.  For
some stacks of frames the two disagree: a loop at the end of a pass without an
action is left, although its statements may hold one.

An execution never rests in such a place.  A step ends at an action, and the
action marks all frames.  So between two steps every loop is marked,
`Frame.Settled`, and the look-ahead agrees with the course ahead.

## Main results

* `courseAhead_eq_empty_iff` — the look-ahead on settled frames.
* `Reachable.settled` — reachable executions rest on settled frames.
* `Reachable.isFinished_iff_length?`, `Reachable.isFinished_iff_step` — the
  look-ahead, the course of the program and the next step.
* `Reachable.runFrom_willing` — what a run with a robot that refuses nothing
  reports.
* `isFinished_agrees` — the look-ahead, the next step and the length of the
  course agree, and runs report accordingly.
-/

namespace RobotScript

open Statement (courseList)

/-! ## Courses at their end -/

namespace Course

theorem get?_zero_eq_none_iff {c : Course} :
    c.get? 0 = none ↔ c = .empty := by
  constructor
  · intro h
    obtain ⟨l, hl, hle⟩ := get?_eq_none_iff.1 h
    obtain ⟨lead, cycle⟩ := c
    simp only [length?] at hl
    split at hl
    · next hcycle =>
      cases hl
      have hlead : lead = [] := List.length_eq_zero_iff.1 (by omega)
      rw [hlead, hcycle]
      rfl
    · cases hl
  · rintro rfl
    exact get?_empty 0

theorem countTo_le_countTo (c : Course) {n m : Nat} (h : n ≤ m) :
    c.countTo n ≤ c.countTo m := by
  unfold countTo
  split
  · omega
  · exact h

/-- Behind the end of a course nothing is left to count. -/
theorem countTo_of_none {c : Course} {n : Nat} (h : c.get? n = none)
    (hn : c.countTo n = n) (m : Nat) : c.countTo (n + m) = n := by
  obtain ⟨l, hl, hle⟩ := get?_eq_none_iff.1 h
  simp only [countTo, hl] at hn ⊢
  omega

end Course

/-! ## Settled frames -/

/-- The statements of a list are looked through for an action exactly as their
course would tell. -/
theorem Statement.any_actionCount_iff (ss : List Statement) :
    ss.any (0 < ·.actionCount) = true ↔ courseList ss ≠ .empty := by
  rw [Ne, courseList_eq_empty_iff]
  induction ss with
  | nil => simp [actionCountList]
  | cons s rest ih =>
      rw [List.any_cons, Bool.or_eq_true, ih, decide_eq_true_eq,
        actionCountList]
      omega

namespace Frame

/-- Whether a loop has noted an action in its present pass. -/
def Settled (f : Frame) : Prop :=
  f.repeats = true → f.productive = true

theorem hasPendingAction_iff (f : Frame) :
    f.hasPendingAction = true ↔
      f.remainder ≠ .empty ∨
        f.repeats = true ∧ courseList f.statements ≠ .empty := by
  rw [hasPendingAction, Bool.or_eq_true, Bool.and_eq_true,
    Statement.any_actionCount_iff, Statement.any_actionCount_iff]
  rfl

/-- The further passes of a settled frame hold an action exactly if it starts
over and its statements hold one. -/
theorem Settled.repetition_eq_empty_iff {f : Frame} (h : f.Settled)
    (acted : Bool) :
    f.repetition acted = .empty ↔
      ¬(f.repeats = true ∧ courseList f.statements ≠ .empty) := by
  unfold repetition
  by_cases hrepeats : f.repeats = true
  · simp [hrepeats, h hrepeats]
  · simp [hrepeats]

end Frame

/-- **Looking ahead on settled frames.**  No action is ahead exactly if none
of the frames has one pending. -/
theorem courseAhead_eq_empty_iff {frames : List Frame}
    (h : ∀ f ∈ frames, f.Settled) (acted : Bool) :
    courseAhead acted frames = .empty ↔
      ∀ f ∈ frames, ¬f.hasPendingAction = true := by
  induction frames generalizing acted with
  | nil => simp [courseAhead]
  | cons f below ih =>
      have hf : f.Settled := h f List.mem_cons_self
      have hbelow : ∀ g ∈ below, g.Settled :=
        fun g hg => h g (List.mem_cons_of_mem f hg)
      rw [courseAhead, Course.andThen_eq_empty_iff,
        Course.andThen_eq_empty_iff, hf.repetition_eq_empty_iff, ih hbelow,
        List.forall_mem_cons, f.hasPendingAction_iff, not_or, and_assoc,
        Ne, Decidable.not_not]

/-- The frames at which a walk ends are all marked. -/
theorem walk_productive {frames after : List Frame} {a : Action}
    (h : walk frames = some (a, after)) :
    ∀ f ∈ after, f.productive = true := by
  fun_induction walk frames with
  | case1 frames b stack hreached =>
      cases h
      obtain ⟨f, f', below, _, _, rfl⟩ := advance_of_tick_reached hreached
      intro g hg
      obtain ⟨g', _, rfl⟩ := List.mem_map.1 hg
      rfl
  | case2 frames stack note hmoved ih => exact ih h
  | case3 => cases h

/-! ## Robots that refuse nothing -/

/-- Whether a robot in one of these states does whatever it is asked, and stays
among them. -/
def Robot.WillingOn {σ ε : Type} (robot : Robot σ ε) (S : σ → Prop) : Prop :=
  ∀ a s, S s → ∃ s', robot.attempt a s = .ok () s' ∧ S s'

/-- A recorder without a tank performs anything. -/
theorem Recorder.willingOn_no_tank :
    Recorder.robot.WillingOn (·.fuel = none) := by
  rintro a ⟨calls, fuel⟩ rfl
  refine ⟨⟨calls.push a, none⟩, ?_, rfl⟩
  cases a with
  | move => rfl
  | turnLeft => rfl
  | turnRight => rfl
  | takeFuel => rfl
  | wait => rfl

namespace Execution

variable {σ ε : Type}

theorem isFinished_iff_course {x : Execution}
    (h : ∀ f ∈ x.frames, f.Settled) :
    x.isFinished = true ↔ x.course = .empty := by
  rw [course, courseAhead_eq_empty_iff h, isFinished, Bool.not_eq_true',
    List.any_eq_false]

/-! ## Reachable executions -/

/-- **Reachable executions rest on settled frames.** -/
theorem Reachable.settled {p : Program} {x : Execution}
    (hx : Reachable p x) : ∀ f ∈ x.frames, f.Settled := by
  induction hx with
  | start =>
      intro f hf
      rw [List.mem_singleton.1 hf]
      intro hrepeats
      cases hrepeats
  | @step σ ε x x' s s' robot hx h ih =>
      have hstepped := stepped robot x s
      generalize Execution.step robot (x, s) = r at h hstepped
      cases hstepped with
      | halted _ =>
          cases h
          exact ih
      | finished _ _ =>
          cases h
          intro f hf
          cases hf
      | performed _ hwalk _ =>
          -- Wherever the walk came from, the action has marked every frame.
          cases h
          intro f hf _
          exact walk_productive hwalk f hf
      | refused _ hwalk _ =>
          cases h
          intro f hf _
          exact walk_productive hwalk f hf

/-- As many actions have been performed as the course has up to here. -/
theorem Reachable.countTo_steps {p : Program} {x : Execution}
    (hx : Reachable p x) : p.course.countTo x.steps = x.steps := by
  induction hx with
  | start => exact (follows_start p).counted.symm
  | @step σ ε x x' s s' robot hx h ih =>
      have hstepped := stepped robot x s
      generalize Execution.step robot (x, s) = r at h hstepped
      cases hstepped with
      | halted _ =>
          cases h
          exact ih
      | finished _ _ =>
          cases h
          exact ih
      | @performed a frames _ hrunning hwalk _ =>
          cases h
          have hget := hx.get?_of_walk hrunning hwalk
          exact (Course.countTo_of_some hget).2
      | refused _ _ _ =>
          cases h
          exact ih

/-- The look-ahead tells whether the course has an action at this place. -/
theorem Reachable.isFinished_iff {p : Program} {x : Execution}
    (hx : Reachable p x) (hrunning : x.halted = false) :
    x.isFinished = true ↔ p.course.get? x.steps = none := by
  have hahead : x.course.get? 0 = p.course.get? x.steps :=
    hx.ahead hrunning 0
  rw [isFinished_iff_course hx.settled, ← Course.get?_zero_eq_none_iff, hahead]

/-! ## Runs with a willing robot -/

/-- What a run reports if the robot refuses nothing, after `taken` actions of
the same run. -/
theorem Reachable.runFrom_willing {p : Program} {robot : Robot σ ε}
    {S : σ → Prop} (hrobot : robot.WillingOn S) {x : Execution}
    (hx : Reachable p x) (hrunning : x.halted = false) (taken budget : Nat)
    {s : σ} (hs : S s) :
    ∃ after, runFrom robot taken budget (x, s) =
      .ok ⟨taken + (p.course.countTo (x.steps + budget) - x.steps),
        (p.course.get? (x.steps + budget)).isNone⟩ after := by
  induction budget generalizing taken x s with
  | zero =>
      have hfinished : x.isFinished = (p.course.get? x.steps).isNone := by
        rw [Bool.eq_iff_iff, hx.isFinished_iff hrunning,
          Option.isNone_iff_eq_none]
      refine ⟨(x, s), ?_⟩
      rw [Nat.add_zero, hx.countTo_steps, Nat.sub_self, ← hfinished]
      rfl
  | succ budget ih =>
      have hstepped := stepped robot x s
      generalize hr : Execution.step robot (x, s) = r at hstepped
      cases hstepped with
      | halted hhalted => simp [hrunning] at hhalted
      | finished _ hwalk =>
          -- The course has ended, so the rest of the budget adds nothing.
          have hget : p.course.get? x.steps = none := by
            rw [hx.get?_steps hrunning, hwalk]
            rfl
          have hlater : p.course.get? (x.steps + (budget + 1)) = none :=
            Course.get?_eq_none_of_le hget (by omega)
          refine ⟨({ x with frames := [] }, s), ?_⟩
          simp only [runFrom, hr]
          rw [Course.countTo_of_none hget hx.countTo_steps, Nat.sub_self,
            hlater]
          rfl
      | @performed a frames s' _ hwalk hok =>
          have hget := hx.get?_of_walk hrunning hwalk
          have hs' : S s' := by
            obtain ⟨t, ht, hS⟩ := hrobot a s hs
            rw [hok] at ht
            cases ht
            exact hS
          have hx' : Reachable p { x with frames, steps := x.steps + 1 } :=
            hx.step robot (congrArg stateAfter hr)
          obtain ⟨after, hrun⟩ := ih hx' hrunning (taken + 1) hs'
          have hcount : x.steps + 1 ≤
              p.course.countTo (x.steps + (budget + 1)) := by
            have hle := p.course.countTo_le_countTo
              (show x.steps + 1 ≤ x.steps + (budget + 1) by omega)
            rw [(Course.countTo_of_some hget).2] at hle
            exact hle
          refine ⟨after, ?_⟩
          simp only [runFrom, hr]
          rw [hrun]
          show EStateM.Result.ok (⟨taken + 1 +
            (p.course.countTo (x.steps + 1 + budget) - (x.steps + 1)),
            (p.course.get? (x.steps + 1 + budget)).isNone⟩ : RunSummary) _ = _
          rw [show x.steps + 1 + budget = x.steps + (budget + 1) by omega,
            show taken + 1 +
                (p.course.countTo (x.steps + (budget + 1)) - (x.steps + 1)) =
              taken + (p.course.countTo (x.steps + (budget + 1)) - x.steps)
              by omega]
      | @refused a frames reason s' _ _ hrefused =>
          obtain ⟨t, hok, _⟩ := hrobot a s hs
          rw [hok] at hrefused
          cases hrefused

/-- A run over a course that ends. -/
theorem Reachable.run_of_length {p : Program} {robot : Robot σ ε}
    {S : σ → Prop} (hrobot : robot.WillingOn S) {x : Execution}
    (hx : Reachable p x) (hrunning : x.halted = false) {s : σ} (hs : S s)
    (budget : Nat) {l : Nat} (hl : p.course.length? = some l) :
    x.steps ≤ l ∧ ∃ after, run robot budget (x, s) =
      .ok ⟨min budget (l - x.steps), decide (l ≤ x.steps + budget)⟩
        after := by
  obtain ⟨after, hrun⟩ := hx.runFrom_willing hrobot hrunning 0 budget hs
  have hcount := hx.countTo_steps
  simp only [Course.countTo, hl, Nat.zero_add] at hcount hrun
  have hle : x.steps ≤ l := by omega
  have hsteps : min (x.steps + budget) l - x.steps =
      min budget (l - x.steps) := by omega
  have hfinished : (p.course.get? (x.steps + budget)).isNone =
      decide (l ≤ x.steps + budget) := by
    rw [Bool.eq_iff_iff, Option.isNone_iff_eq_none, Course.get?_eq_none_iff,
      hl, decide_eq_true_eq]
    simp
  rw [hsteps, hfinished] at hrun
  exact ⟨hle, after, hrun⟩

/-- A run over a course that never ends uses up its budget. -/
theorem Reachable.run_of_endless {p : Program} {robot : Robot σ ε}
    {S : σ → Prop} (hrobot : robot.WillingOn S) {x : Execution}
    (hx : Reachable p x) (hrunning : x.halted = false) {s : σ} (hs : S s)
    (budget : Nat) (hl : p.course.length? = none) :
    ∃ after, run robot budget (x, s) = .ok ⟨budget, false⟩ after := by
  obtain ⟨after, hrun⟩ := hx.runFrom_willing hrobot hrunning 0 budget hs
  have hfinished : (p.course.get? (x.steps + budget)).isNone = false := by
    rw [Option.isNone_eq_false_iff, Option.isSome_iff_ne_none, Ne,
      Course.get?_eq_none_iff, hl]
    rintro ⟨l, hnone, _⟩
    cases hnone
  simp only [Course.countTo, hl, Nat.zero_add] at hrun
  rw [Nat.add_sub_cancel_left, hfinished] at hrun
  exact ⟨after, hrun⟩

/-! ## Agreement -/

/-- The look-ahead says that none is left exactly at the end of the course. -/
theorem Reachable.isFinished_iff_length? {p : Program} {x : Execution}
    (hx : Reachable p x) (hrunning : x.halted = false) :
    x.isFinished = true ↔ p.course.length? = some x.steps := by
  have hcount := hx.countTo_steps
  rw [hx.isFinished_iff hrunning, Course.get?_eq_none_iff]
  constructor
  · rintro ⟨l, hl, hle⟩
    simp only [Course.countTo, hl] at hcount
    rw [hl, show l = x.steps by omega]
  · intro hl
    exact ⟨x.steps, hl, Nat.le_refl _⟩

/-- The look-ahead says that none is left exactly if the next step says so. -/
theorem Reachable.isFinished_iff_step {p : Program} {x : Execution}
    (hx : Reachable p x) (hrunning : x.halted = false) (robot : Robot σ ε)
    (s : σ) :
    x.isFinished = true ↔
      ∃ after, Execution.step robot (x, s) = .ok .finished after := by
  rw [hx.isFinished_iff hrunning, hx.get?_steps hrunning]
  have hstepped := stepped robot x s
  generalize Execution.step robot (x, s) = r at hstepped
  cases hstepped with
  | halted hhalted => simp [hrunning] at hhalted
  | finished _ hwalk =>
      rw [hwalk]
      exact iff_of_true rfl ⟨_, rfl⟩
  | performed _ hwalk _ => simp [hwalk]
  | refused _ hwalk _ => simp [hwalk]

/-- **The look-ahead agrees with the machine.**  For an execution that has
performed `x.steps` actions of a program and has not been refused:

* it is finished exactly if the course of the program ends here;
* that is exactly if the next step, with any robot, says so; such a step calls
  the robot for nothing;
* with a robot that refuses nothing, a run performs as many actions as its
  budget and the course allow, and reports that none is left exactly if the
  course ends within the budget. -/
theorem isFinished_agrees (p : Program) {x : Execution} (hx : Reachable p x)
    (hrunning : x.halted = false) :
    (x.isFinished = true ↔ p.course.length? = some x.steps) ∧
      (∀ {σ ε : Type} (robot : Robot σ ε) (s : σ) (calls : List Call),
        (x.isFinished = true ↔
          ∃ after, step robot.watched (x, s, calls) = .ok .finished after) ∧
        ∀ after, step robot.watched (x, s, calls) = .ok .finished after →
          after.2 = (s, calls)) ∧
      ∀ {σ ε : Type} (robot : Robot σ ε) (S : σ → Prop),
        robot.WillingOn S → ∀ s, S s → ∀ budget,
        (∀ l, p.course.length? = some l → x.steps ≤ l ∧
          ∃ after, run robot budget (x, s) =
            .ok ⟨min budget (l - x.steps), decide (l ≤ x.steps + budget)⟩
              after) ∧
        (p.course.length? = none →
          ∃ after, run robot budget (x, s) = .ok ⟨budget, false⟩ after) := by
  refine ⟨hx.isFinished_iff_length? hrunning, ?_, ?_⟩
  · intro σ ε robot s calls
    exact ⟨hx.isFinished_iff_step hrunning robot.watched (s, calls),
      fun after hafter => (driven_of_finished hafter).1⟩
  · intro σ ε robot S hrobot s hs budget
    exact ⟨fun l => hx.run_of_length hrobot hrunning hs budget,
      hx.run_of_endless hrobot hrunning hs budget⟩

/-- The budget is used up on the last action, with a loop without an action
still behind it. -/
theorem isFinished_agrees_last_action :
    let p : Program :=
      ⟨[.nop, .action .move, .loop .nop [], .action .wait, .loop .nop [.nop]]⟩
    let x : Execution :=
      { frames := [⟨p.statements, 2, false, 0, true⟩], steps := 1 }
    x.isFinished = false ∧ p.course.length? = some 2 ∧
      ∃ after, run Recorder.robot 1 (x, ⟨#[.move], none⟩) =
        .ok ⟨1, true⟩ after := by
  intro p x
  have hstep : stateAfter (step Recorder.robot (start p, {})) =
      (x, ⟨#[.move], none⟩) := by cbv
  have hx : Reachable p x := Reachable.start.step Recorder.robot hstep
  have hlength : p.course.length? = some 2 := by decide
  obtain ⟨-, -, hruns⟩ := isFinished_agrees p hx rfl
  exact ⟨by decide, hlength, ((hruns Recorder.robot (·.fuel = none)
    Recorder.willingOn_no_tank ⟨#[.move], none⟩ rfl 1).1 2 hlength).2⟩

end Execution

end RobotScript
