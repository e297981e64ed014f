import RobotScript.Execution.Basic
import RobotScript.Proofs.Course
import RobotScript.Robot.Recorder

/-!
# Executions follow the course

The walk decides step by step what the course of a program says beforehand:
whether a loop is caught in, and what it repeats.  The link between the two is
the course that lies ahead of a stack of frames, `courseAhead`.  It is defined
for every stack, reachable or not, so no invariant of the stack is needed:

* what is left of the present pass of the innermost frame comes first;
* then, if the frame starts over, its statements for ever;
* then what lies ahead of the frames below.

Whether a frame starts over depends on the actions reached in its present
pass, also those reached in the frames above it.  Marking all frames at every
action is how the walk keeps account of them; `courseAhead` takes them as an
argument, and `courseAhead_map_markProductive` says that the two agree.

One tick leaves the actions ahead as they are or takes the first of them.  From
this follows what a walk does, then what a step does, then what any number of
steps do.

## Main results

* `Moves.get?_courseAhead`, `tick_reached` — a tick and the course ahead.
* `walk_eq_none`, `walk_eq_some` — a walk takes the first action ahead.
* `stepMany_follows` — what a run of steps without a refusal preserves.
* `step_attempts_course` — every step attempts the action that the course of
  the program has at its place, whatever the robot is like.
-/

namespace RobotScript

open Statement (courseList)

/-! ## The course ahead of a stack -/

namespace Frame

/-- The course of what is left of the present pass. -/
def remainder (f : Frame) : Course :=
  courseList (f.statements.drop f.next)

/-- The course of the passes after the present one.  `acted` tells that the
present pass reaches an action which the frame has not noted. -/
def repetition (acted : Bool) (f : Frame) : Course :=
  if f.repeats && (f.productive || acted) then
    (courseList f.statements).forever
  else
    .empty

theorem remainder_of_advance {f f' : Frame} {s : Statement}
    (h : f.advance? = some (s, f')) :
    f.remainder = s.course.andThen f'.remainder := by
  obtain ⟨t, ht, heq⟩ := Option.map_eq_some_iff.1 h
  obtain ⟨rfl, rfl⟩ := Prod.mk.inj heq
  obtain ⟨hi, rfl⟩ := List.getElem?_eq_some_iff.1 ht
  rw [remainder, List.drop_eq_getElem_cons hi, courseList]
  rfl

theorem repetition_of_advance {f f' : Frame} {s : Statement}
    (h : f.advance? = some (s, f')) (acted : Bool) :
    f'.repetition acted = f.repetition acted := by
  obtain ⟨t, _, heq⟩ := Option.map_eq_some_iff.1 h
  obtain ⟨rfl, rfl⟩ := Prod.mk.inj heq
  rfl

theorem remainder_of_end {f : Frame} (h : f.advance? = none) :
    f.remainder = .empty := by
  have hlen : f.statements.length ≤ f.next := by
    simpa [advance?] using h
  rw [remainder, List.drop_eq_nil_of_le hlen, courseList]

@[simp] theorem remainder_markProductive (f : Frame) :
    f.markProductive.remainder = f.remainder := rfl

@[simp] theorem repetition_markProductive (f : Frame) (acted : Bool) :
    f.markProductive.repetition acted = f.repetition true := by
  simp [repetition, markProductive]

end Frame

/-- The course ahead of a stack of frames.  `acted` tells that an action has
been reached which the frames have not noted. -/
def courseAhead (acted : Bool) : List Frame → Course
  | [] => .empty
  | f :: below =>
    let acted := acted || f.remainder ≠ .empty
    f.remainder.andThen
      ((f.repetition acted).andThen (courseAhead acted below))

/-- Frames that have all noted an action are as good as an action that none of
them has noted. -/
theorem courseAhead_map_markProductive (acted : Bool) (frames : List Frame) :
    courseAhead acted (frames.map Frame.markProductive) =
      courseAhead true frames := by
  induction frames generalizing acted with
  | nil => rfl
  | cons f below ih =>
      rw [List.map_cons, courseAhead, courseAhead, ih]
      simp

/-- At the end of a pass only the repetition and the frames below matter. -/
theorem courseAhead_of_end {f : Frame} (h : f.advance? = none)
    (below : List Frame) :
    courseAhead false (f :: below) =
      (f.repetition false).andThen (courseAhead false below) := by
  rw [courseAhead, Frame.remainder_of_end h]
  simp

/-- A loop at the beginning of a pass, which has reached no action yet, will
have its statements repeated for ever; without an action in them it is left. -/
theorem courseAhead_of_pass (f : Frame) (hnext : f.next = 0)
    (hrepeats : f.repeats = true) (hproductive : f.productive = false)
    (below : List Frame) :
    (courseAhead false (f :: below)).get? =
      ((courseList f.statements).forever.andThen
        (courseAhead false below)).get? := by
  have hrem : f.remainder = courseList f.statements := by
    rw [Frame.remainder, hnext, List.drop_zero]
  by_cases h : courseList f.statements = .empty
  · simp [courseAhead, Frame.repetition, hrem, hproductive, h]
  · have hrep : f.repetition true = (courseList f.statements).forever := by
      simp [Frame.repetition, hrepeats]
    have hacted : (false || decide (f.remainder ≠ .empty)) = true := by
      simpa [hrem] using h
    rw [courseAhead, hacted, hrep, hrem, Course.forever_andThen h,
      Course.forever_andThen h]
    exact Course.get?_forever _

/-! ## Ticks -/

/-- The ways in which a tick moves a stack without reaching an action, each
with what it notes in the journal. -/
inductive Moves : List Frame → List Frame → Option Message → Prop
  /-- A loop is entered. -/
  | enter {f f' : Frame} {first : Statement} {rest : List Statement}
      (below : List Frame) (h : f.advance? = some (.loop first rest, f')) :
      Moves (f :: below) (Frame.repeating (first :: rest) :: f' :: below) none
  /-- A statement that does nothing is passed. -/
  | skip {f f' : Frame} (below : List Frame)
      (h : f.advance? = some (.nop, f')) :
      Moves (f :: below) (f' :: below) none
  /-- A loop starts over. -/
  | rewind {f : Frame} (below : List Frame) (h : f.advance? = none)
      (hrepeats : f.repeats = true) (hproductive : f.productive = true) :
      Moves (f :: below) (f.rewind :: below)
        (some (.iterationBegun (below.length + 1) (f.iteration + 1)))
  /-- A loop whose pass reached no action is left. -/
  | abandon {f : Frame} (below : List Frame) (h : f.advance? = none)
      (hrepeats : f.repeats = true) (hproductive : f.productive = false) :
      Moves (f :: below) below (some (.loopAbandoned (below.length + 1)))
  /-- A sequence that is walked through once is left. -/
  | leave {f : Frame} (below : List Frame) (h : f.advance? = none)
      (hrepeats : f.repeats = false) :
      Moves (f :: below) below none

theorem moves_of_tick {frames after : List Frame} {note : Option Message}
    (h : tick frames = .moved after note) : Moves frames after note := by
  unfold tick at h
  split at h
  · cases h
  · next f below =>
    simp only at h
    split at h
    · cases h
    · next hf =>
      cases h
      exact .enter below hf
    · next hf =>
      cases h
      exact .skip below hf
    · next hf =>
      split at h
      · next hr =>
        split at h
        · next hp =>
          cases h
          exact .rewind below hf hr hp
        · next hp =>
          cases h
          exact .abandon _ hf hr (by simpa using hp)
      · next hr =>
        cases h
        exact .leave _ hf (by simpa using hr)

theorem advance_of_tick_reached {frames after : List Frame} {a : Action}
    (h : tick frames = .reached a after) :
    ∃ f f' below, frames = f :: below ∧
      f.advance? = some (.action a, f') ∧
      after = (f' :: below).map Frame.markProductive := by
  unfold tick at h
  split at h
  · cases h
  · next f below =>
    simp only at h
    split at h
    · next b f' hf =>
      cases h
      exact ⟨f, f', below, rfl, hf, rfl⟩
    · cases h
    · cases h
    · split at h
      · split at h <;> cases h
      · cases h

theorem eq_nil_of_tick_exhausted {frames : List Frame}
    (h : tick frames = .exhausted) : frames = [] := by
  unfold tick at h
  split at h
  · rfl
  · simp only at h
    repeat' split at h
    all_goals cases h

/-- Reaching an action takes it from the course ahead. -/
theorem tick_reached {frames after : List Frame} {a : Action}
    (h : tick frames = .reached a after) :
    courseAhead false frames =
      (Course.single a).andThen (courseAhead false after) := by
  obtain ⟨f, f', below, rfl, hf, rfl⟩ := advance_of_tick_reached h
  rw [courseAhead_map_markProductive, courseAhead, courseAhead,
    Frame.remainder_of_advance hf, Frame.repetition_of_advance hf,
    Statement.course, Course.andThen_assoc]
  simp

/-- A tick that reaches no action leaves the actions ahead as they are. -/
theorem Moves.get?_courseAhead {frames after : List Frame}
    {note : Option Message} (h : Moves frames after note) :
    (courseAhead false frames).get? = (courseAhead false after).get? := by
  cases h with
  | @enter f f' first rest below hf =>
      rw [courseAhead_of_pass (Frame.repeating (first :: rest)) rfl rfl rfl,
        courseAhead, Frame.remainder_of_advance hf, Statement.course_loop]
      show _ = ((courseList (first :: rest)).forever.andThen _).get?
      by_cases hbody : courseList (first :: rest) = .empty
      · rw [hbody, courseAhead, Frame.repetition_of_advance hf]
        rfl
      · rw [Course.andThen_assoc, Course.forever_andThen hbody,
          Course.forever_andThen hbody]
  | skip below hf =>
      rw [courseAhead, courseAhead, Frame.remainder_of_advance hf,
        Frame.repetition_of_advance hf, Statement.course,
        Course.empty_andThen]
  | @rewind f below hf hrepeats hproductive =>
      rw [courseAhead_of_end hf, courseAhead_of_pass f.rewind rfl hrepeats rfl,
        Frame.repetition, hrepeats, hproductive]
      rfl
  | abandon below hf hrepeats hproductive =>
      rw [courseAhead_of_end hf, Frame.repetition, hproductive]
      simp
  | leave below hf hrepeats =>
      rw [courseAhead_of_end hf, Frame.repetition, hrepeats]
      rfl

/-! ## Walks -/

/-- A walk that finds no action had none ahead. -/
theorem walk_eq_none {frames : List Frame} (h : walk frames = none) (n : Nat) :
    (courseAhead false frames).get? n = none := by
  fun_induction walk frames with
  | case1 => cases h
  | case2 frames after note hmoved ih =>
      rw [(moves_of_tick hmoved).get?_courseAhead]
      exact ih h
  | case3 frames hexhausted =>
      rw [eq_nil_of_tick_exhausted hexhausted]
      exact Course.get?_empty n

/-- A walk takes the first action ahead and leaves the others. -/
theorem walk_eq_some {frames after : List Frame} {a : Action}
    (h : walk frames = some (a, after)) :
    (courseAhead false frames).get? 0 = some a ∧
      ∀ n, (courseAhead false frames).get? (n + 1) =
        (courseAhead false after).get? n := by
  fun_induction walk frames with
  | case1 frames b stack hreached =>
      cases h
      rw [tick_reached hreached]
      exact ⟨Course.get?_single_andThen_zero _ _,
        Course.get?_single_andThen_succ _ _⟩
  | case2 frames stack note hmoved ih =>
      rw [(moves_of_tick hmoved).get?_courseAhead]
      exact ih h
  | case3 => cases h

/-! ## Steps -/

/-- What a step that is not refused gives at place `n` of a course. -/
def Course.stepAt (c : Course) (n : Nat) : Step :=
  match c.get? n with
  | some a => .performed a
  | none => .finished

/-- How many of the first `n` places of a course hold an action. -/
def Course.countTo (c : Course) (n : Nat) : Nat :=
  match c.length? with
  | some l => min n l
  | none => n

theorem Course.countTo_succ_of_none {c : Course} {n : Nat}
    (h : c.get? n = none) : c.countTo (n + 1) = c.countTo n := by
  obtain ⟨l, hl, hle⟩ := Course.get?_eq_none_iff.1 h
  simp only [Course.countTo, hl]
  omega

theorem Course.countTo_of_some {c : Course} {n : Nat} {a : Action}
    (h : c.get? n = some a) : c.countTo n = n ∧ c.countTo (n + 1) = n + 1 := by
  cases hl : c.length? with
  | none => simp [Course.countTo, hl]
  | some l =>
      have hlt : n < l := by
        apply Nat.lt_of_not_le
        intro hle
        have hnone := Course.get?_eq_none_iff.2 ⟨l, hl, hle⟩
        rw [h] at hnone
        cases hnone
      simp only [Course.countTo, hl]
      omega

namespace Execution

variable {σ ε : Type}

/-- The course ahead of an execution. -/
def course (x : Execution) : Course :=
  courseAhead false x.frames

theorem course_start (p : Program) : (start p).course = p.course := by
  simp [course, start, courseAhead, Frame.remainder, Frame.repetition,
    Frame.once, Program.course]

/-- A step with no action ahead finishes and leaves the robot alone. -/
theorem step_of_none (robot : Robot σ ε) (s : σ) {x : Execution}
    (hrunning : x.halted = false) (h : x.course.get? 0 = none) :
    step robot (x, s) = .ok .finished ({ x with frames := [] }, s) := by
  cases hwalk : walk x.frames with
  | none => simp [step, hrunning, hwalk]
  | some found =>
      have hsome := (walk_eq_some hwalk).1
      rw [course] at h
      rw [h] at hsome
      cases hsome

/-- What becomes of an execution that asks the robot for `a`, with the walk at
`frames`. -/
def asking (robot : Robot σ ε) (a : Action) (frames : List Frame) :
    Drive σ ε Step := fun (x, s) =>
  match robot.attempt a s with
  | .ok _ s => .ok (.performed a) ({ x with frames, steps := x.steps + 1 }, s)
  | .error reason s =>
    .error (.refused a x.steps reason) ({ x with frames, halted := true }, s)

/-- A step asks for the first action ahead. -/
theorem step_of_some (robot : Robot σ ε) (s : σ) {x : Execution} {a : Action}
    (hrunning : x.halted = false) (h : x.course.get? 0 = some a) :
    ∃ frames, step robot (x, s) = asking robot a frames (x, s) ∧
      ∀ n, (courseAhead false frames).get? n = x.course.get? (n + 1) := by
  cases hwalk : walk x.frames with
  | none =>
      have hnone := walk_eq_none hwalk 0
      rw [course] at h
      rw [h] at hnone
      cases hnone
  | some found =>
      obtain ⟨b, frames⟩ := found
      obtain ⟨hfirst, hlater⟩ := walk_eq_some hwalk
      obtain rfl : b = a := by
        rw [course] at h
        rw [h] at hfirst
        exact (Option.some.inj hfirst).symm
      have hgo : ¬x.halted = true := by
        rw [hrunning]
        exact Bool.false_ne_true
      refine ⟨frames, ?_, fun n => (hlater n).symm⟩
      simp only [step, if_neg hgo, hwalk]
      rfl

theorem asking_ok {robot : Robot σ ε} {a : Action} {frames : List Frame}
    {x x' : Execution} {s s' : σ} {r : Step}
    (h : asking robot a frames (x, s) = .ok r (x', s')) :
    r = .performed a ∧ x' = { x with frames, steps := x.steps + 1 } := by
  simp only [asking] at h
  split at h
  · cases h
    exact ⟨rfl, rfl⟩
  · cases h

/-! ## Runs of steps -/

/-- Steps `n` times, unless a step fails, and gives what each step has done. -/
def stepMany (robot : Robot σ ε) : Nat → Drive σ ε (List Step)
  | 0 => fun state => .ok [] state
  | n + 1 => fun state =>
    match stepMany robot n state with
    | .ok done state =>
      match step robot state with
      | .ok r state => .ok (done ++ [r]) state
      | .error e state => .error e state
    | .error e state => .error e state

/-- An execution that has come to place `n` of the course of `p` without a
refusal. -/
structure Follows (p : Program) (n : Nat) (x : Execution) : Prop where
  running : x.halted = false
  ahead : ∀ i, x.course.get? i = p.course.get? (n + i)
  counted : x.steps = p.course.countTo n

theorem follows_start (p : Program) : Follows p 0 (start p) where
  running := rfl
  ahead i := by rw [course_start, Nat.zero_add]
  counted := by
    cases h : p.course.length? with
    | none => simp [start, Course.countTo, h]
    | some l => simp [start, Course.countTo, h]

/-- **One step.**  It gives what the course has at its place, and comes to the
next. -/
theorem Follows.step {p : Program} {n : Nat} {robot : Robot σ ε}
    {x x' : Execution} {s s' : σ} {r : Step} (hx : Follows p n x)
    (h : step robot (x, s) = .ok r (x', s')) :
    r = p.course.stepAt n ∧ Follows p (n + 1) x' := by
  have hahead := hx.ahead 0
  cases hget : p.course.get? n with
  | none =>
      rw [Nat.add_zero, hget] at hahead
      rw [step_of_none robot s hx.running hahead] at h
      cases h
      refine ⟨by rw [Course.stepAt, hget], hx.running, ?_, ?_⟩
      · intro i
        rw [Course.get?_eq_none_of_le hget (by omega)]
        exact Course.get?_empty i
      · rw [Course.countTo_succ_of_none hget]
        exact hx.counted
  | some a =>
      rw [Nat.add_zero, hget] at hahead
      obtain ⟨frames, hstep, hframes⟩ := step_of_some robot s hx.running hahead
      rw [hstep] at h
      obtain ⟨rfl, rfl⟩ := asking_ok h
      obtain ⟨hcount, hnext⟩ := Course.countTo_of_some hget
      refine ⟨by rw [Course.stepAt, hget], hx.running, ?_, ?_⟩
      · intro i
        show (courseAhead false frames).get? i = _
        rw [hframes, hx.ahead, Nat.add_right_comm, Nat.add_assoc]
      · show x.steps + 1 = _
        rw [hx.counted, hcount, hnext]

/-- **A run of steps.**  Its results are what the course has at the places
passed. -/
theorem stepMany_follows {p : Program} {n : Nat} {robot : Robot σ ε}
    {s₀ s : σ} {done : List Step} {x : Execution}
    (h : stepMany robot n (start p, s₀) = .ok done (x, s)) :
    done = (List.range n).map p.course.stepAt ∧ Follows p n x := by
  induction n generalizing done x s with
  | zero =>
      cases h
      exact ⟨rfl, follows_start p⟩
  | succ n ih =>
      simp only [stepMany] at h
      split at h
      · next before state hbefore =>
        obtain ⟨hdone, hx⟩ := ih hbefore
        split at h
        · next hstep =>
          cases h
          obtain ⟨hr, hnext⟩ := hx.step hstep
          refine ⟨?_, hnext⟩
          rw [List.range_succ, List.map_append, hdone, hr]
          rfl
        · cases h
      · cases h

/-- **Executions refine courses.**  After `n` steps none of which was refused,
the next step asks the robot for the action that the course of the program has
at place `n`, and finishes, without asking the robot, exactly if the course has
fewer than `n + 1` actions.  The robot decides where a run stops but not which
action comes next: what one robot has been asked for, any other that gets so
far is asked for as well. -/
theorem step_attempts_course (p : Program) (robot : Robot σ ε) (s₀ : σ)
    (n : Nat) {done : List Step} {x : Execution} {s : σ}
    (h : stepMany robot n (start p, s₀) = .ok done (x, s)) :
    done = (List.range n).map p.course.stepAt ∧
      (∀ a, p.course.get? n = some a →
        ∃ frames, step robot (x, s) =
          match robot.attempt a s with
          | .ok _ s => .ok (.performed a) (⟨frames, n + 1, false⟩, s)
          | .error reason s =>
            .error (.refused a n reason) (⟨frames, n, true⟩, s)) ∧
      (p.course.get? n = none →
        step robot (x, s) = .ok .finished ({ x with frames := [] }, s)) ∧
      ((∃ after, step robot (x, s) = .ok .finished after) ↔
        ∃ l, p.course.length? = some l ∧ l < n + 1) ∧
      (∀ {σ' ε' : Type} (robot' : Robot σ' ε') (s₀' : σ') (m : Nat)
        (done' : List Step) (x' : Execution) (s' : σ'),
        stepMany robot' m (start p, s₀') = .ok done' (x', s') → n ≤ m →
          done <+: done') := by
  obtain ⟨hdone, hx⟩ := stepMany_follows h
  have hahead : x.course.get? 0 = p.course.get? n := hx.ahead 0
  have hfinish : p.course.get? n = none →
      step robot (x, s) = .ok .finished ({ x with frames := [] }, s) := by
    intro hget
    exact step_of_none robot s hx.running (hahead.trans hget)
  refine ⟨hdone, ?_, hfinish, ?_, ?_⟩
  · intro a hget
    obtain ⟨frames, hstep, _⟩ :=
      step_of_some robot s hx.running (hahead.trans hget)
    have hcount := hx.counted.trans (Course.countTo_of_some hget).1
    refine ⟨frames, ?_⟩
    rw [hstep, asking, hx.running, hcount]
  · simp only [Nat.lt_succ_iff, ← Course.get?_eq_none_iff]
    constructor
    · rintro ⟨⟨x', s'⟩, hstep⟩
      have hr := (hx.step hstep).1
      rw [Course.stepAt] at hr
      split at hr
      · cases hr
      · next hget => exact hget
    · intro hget
      exact ⟨_, hfinish hget⟩
  · intro σ' ε' robot' s₀' m done' x' s' h' hle
    obtain ⟨hdone', _⟩ := stepMany_follows h'
    obtain ⟨k, rfl⟩ := Nat.exists_eq_add_of_le hle
    rw [hdone, hdone', List.range_add, List.map_append]
    exact List.prefix_append _ _

/-- A program that gets caught in the second of two loops inside a loop: the
first holds no action, and what follows the outer one is not reached. -/
theorem step_attempts_course_nested :
    let turning : List Statement := [.action .turnLeft, .nop, .action .wait]
    let rest : List Statement :=
      [.action .move, .loop (.action .turnLeft) [.nop, .action .wait]]
    let moving : List Statement := .loop .nop [] :: rest
    let p : Program := ⟨[.nop, .loop (.loop .nop []) rest, .action .takeFuel]⟩
    let x : Execution :=
      { frames :=
          [⟨turning, 3, true, 0, true⟩, ⟨moving, 3, true, 0, true⟩,
            ⟨p.statements, 2, false, 0, true⟩]
        steps := 3 }
    p.course = ⟨[.move], [.turnLeft, .wait]⟩ ∧
      stepMany Recorder.robot 3 (start p, {}) =
        .ok [.performed .move, .performed .turnLeft, .performed .wait]
          (x, ⟨#[.move, .turnLeft, .wait], none⟩) ∧
      ∃ frames, step Recorder.robot (x, ⟨#[.move, .turnLeft, .wait], none⟩) =
        .ok (.performed .turnLeft)
          (⟨frames, 4, false⟩, ⟨#[.move, .turnLeft, .wait, .turnLeft], none⟩) := by
  intro turning rest moving p x
  have hrun : stepMany Recorder.robot 3 (start p, {}) =
      .ok [.performed .move, .performed .turnLeft, .performed .wait]
        (x, ⟨#[.move, .turnLeft, .wait], none⟩) := by cbv
  exact ⟨by decide, hrun,
    (step_attempts_course p Recorder.robot {} 3 hrun).2.1 .turnLeft (by decide)⟩

end Execution

end RobotScript
