import RobotScript.Proofs.Watching

/-!
# The calls a robot receives

However an execution is driven, the robot is asked for one action after the
other, in the order of the course, and before each of them whether it is ready.
The first call that it refuses is the last one it receives.

The invariant is the shape of the list of calls, `Conducted`: a round of two
accepted calls for every action performed and behind these rounds, if the
execution has been refused, the calls of the attempt that failed.  A step adds
a round or the failed attempt, or no call at all.  Everything else that is said
about the calls is read off this shape.

## Main results

* `Conducted.step` — what a step preserves.
* `conducted_driven` — what driving preserves.
* `Conducted.round` — the calls for the action number `i`.
* `Reachable.step_watched` — the calls of a step.
* `calls_follow_protocol` — the calls of an execution, from its start over a
  refusal or the last action to whatever is tried afterwards.
-/

namespace RobotScript

/-! ## Rounds -/

/-- The calls of having the robot perform each of these actions. -/
def rounds (done : List Action) : List Call :=
  done.flatMap fun a => [⟨.ready, true⟩, ⟨.perform a, true⟩]

theorem rounds_cons (a : Action) (done : List Action) :
    rounds (a :: done) =
      ⟨.ready, true⟩ :: ⟨.perform a, true⟩ :: rounds done := rfl

theorem rounds_append (done done' : List Action) :
    rounds (done ++ done') = rounds done ++ rounds done' :=
  List.flatMap_append

theorem length_rounds (done : List Action) :
    (rounds done).length = 2 * done.length := by
  induction done with
  | nil => rfl
  | cons a done ih =>
      rw [rounds_cons, List.length_cons, List.length_cons, ih,
        List.length_cons]
      omega

theorem getElem?_rounds (done : List Action) (i : Nat) :
    (rounds done)[2 * i]? = done[i]?.map (fun _ => ⟨.ready, true⟩) ∧
      (rounds done)[2 * i + 1]? =
        done[i]?.map (fun a => ⟨.perform a, true⟩) := by
  induction done generalizing i with
  | nil => exact ⟨rfl, rfl⟩
  | cons a done ih =>
      cases i with
      | zero => exact ⟨rfl, rfl⟩
      | succ i => exact ih i

theorem accepted_of_mem_rounds {done : List Action} {call : Call}
    (h : call ∈ rounds done) : call.accepted = true := by
  obtain ⟨a, _, hcall⟩ := List.mem_flatMap.1 h
  simp only [List.mem_cons, List.not_mem_nil, or_false] at hcall
  rcases hcall with rfl | rfl
  · rfl
  · rfl

theorem countP_rounds (done : List Action) :
    (rounds done).countP Call.isPerformed = done.length := by
  induction done with
  | nil => rfl
  | cons a done ih =>
      have hready : ¬Call.isPerformed ⟨.ready, true⟩ = true := by decide
      have hperform : Call.isPerformed ⟨.perform a, true⟩ = true := by
        simp [Call.isPerformed]
      rw [rounds_cons, List.countP_cons_of_neg hready,
        List.countP_cons_of_pos hperform, ih, List.length_cons]

namespace Execution

variable {σ ε : Type}

/-! ## The shape of the calls -/

/-- The calls behind the rounds of an execution: none while it goes on, and
those of the attempt that failed once it has been refused. -/
inductive Ending (p : Program) (x : Execution) : List Call → Prop
  | running (h : x.halted = false) : Ending p x []
  | unready (h : x.halted = true) : Ending p x [⟨.ready, false⟩]
  | unwilling {a : Action} (h : x.halted = true)
      (ha : p.course.get? x.steps = some a) :
      Ending p x [⟨.ready, true⟩, ⟨.perform a, false⟩]

theorem Ending.eq_nil {p : Program} {x : Execution} {last : List Call}
    (h : Ending p x last) (hrunning : x.halted = false) : last = [] := by
  cases h with
  | running _ => rfl
  | unready hhalted => simp [hrunning] at hhalted
  | unwilling hhalted _ => simp [hrunning] at hhalted

/-- An execution of `p` has led to the given calls: rounds for the actions in
`done` and then `last`. -/
structure Conducted (p : Program) (x : Execution) (calls : List Call)
    (done : List Action) (last : List Call) : Prop where
  reachable : Reachable p x
  shape : calls = rounds done ++ last
  counted : done.length = x.steps
  ordered : ∀ i a, done[i]? = some a → p.course.get? i = some a
  ending : Ending p x last

theorem conducted_start (p : Program) : Conducted p (start p) [] [] [] where
  reachable := .start
  shape := rfl
  counted := rfl
  ordered := by
    intro i a h
    cases h
  ending := .running rfl

/-- **One step.**  It adds a round, a failed attempt or nothing. -/
theorem Conducted.step {p : Program} {robot : Robot σ ε} {x x' : Execution}
    {s s' : σ} {calls calls' : List Call} {done : List Action}
    {last : List Call} (hcalls : Conducted p x calls done last)
    (h : stateAfter (step robot.watched (x, s, calls)) = (x', s', calls')) :
    ∃ done' last', Conducted p x' calls' done' last' := by
  obtain ⟨hx, hshape, hcounted, hordered, hending⟩ := hcalls
  have hx' : Reachable p x' := hx.step robot.watched h
  have hstepped := stepped robot.watched x (s, calls)
  generalize Execution.step robot.watched (x, s, calls) = r at h hstepped
  cases hstepped with
  | halted hhalted =>
      cases h
      exact ⟨done, last, hx', hshape, hcounted, hordered, hending⟩
  | finished hrunning hwalk =>
      cases h
      obtain rfl := hending.eq_nil hrunning
      exact ⟨done, [], hx', hshape, hcounted, hordered, .running hrunning⟩
  | @performed a frames state hrunning hwalk hrobot =>
      cases h
      -- Nothing has been refused yet, so nothing stands behind the rounds.
      obtain rfl := hending.eq_nil hrunning
      have hfirst := hx.get?_of_walk hrunning hwalk
      refine ⟨done ++ [a], [], hx', ?_, ?_, ?_, .running hrunning⟩
      · rw [Robot.attempt_watched_ok hrobot, hshape, List.append_nil,
          List.append_nil, rounds_append]
        rfl
      · show (done ++ [a]).length = x.steps + 1
        rw [List.length_append, hcounted]
        rfl
      · intro i b hb
        rcases Nat.lt_trichotomy i done.length with hlt | heq | hgt
        · rw [List.getElem?_append_left hlt] at hb
          exact hordered i b hb
        · rw [heq, List.getElem?_concat_length] at hb
          rw [heq, hcounted, hfirst, hb]
        · have hlen : (done ++ [a]).length ≤ i := by
            rw [List.length_append]
            exact hgt
          rw [List.getElem?_eq_none hlen] at hb
          cases hb
  | @refused a frames reason state hrunning hwalk hrobot =>
      cases h
      obtain rfl := hending.eq_nil hrunning
      have hfirst := hx.get?_of_walk hrunning hwalk
      rw [List.append_nil] at hshape
      rcases Robot.attempt_watched_error hrobot with hcalls' | hcalls'
      · rw [hshape] at hcalls'
        exact ⟨done, _, hx', hcalls', hcounted, hordered, .unready rfl⟩
      · rw [hshape] at hcalls'
        exact ⟨done, _, hx', hcalls', hcounted, hordered, .unwilling rfl hfirst⟩

/-- **Driving.**  The calls keep their shape. -/
theorem conducted_driven {p : Program} {robot : Robot σ ε} {s₀ s : σ}
    {drivers : List Driver} {x : Execution} {calls : List Call}
    (h : driven robot.watched drivers (start p, s₀, []) = (x, s, calls)) :
    ∃ done last, Conducted p x calls done last := by
  let Shaped (state : Execution × σ × List Call) : Prop :=
    ∃ done last, Conducted p state.1 state.2.2 done last
  have hstep : ∀ state, Shaped state →
      Shaped (stateAfter (Execution.step robot.watched state)) := by
    rintro ⟨x, s, calls⟩ ⟨done, last, hcalls⟩
    exact hcalls.step rfl
  have hstart : Shaped (start p, s₀, []) := ⟨[], [], conducted_start p⟩
  have hafter := driven_preserves hstep drivers hstart
  rw [h] at hafter
  exact hafter

/-! ## What the shape says -/

namespace Conducted

variable {p : Program} {x : Execution} {calls last : List Call}
  {done : List Action}

/-- The calls behind the rounds. -/
theorem getElem?_last (h : Conducted p x calls done last) (i : Nat) :
    calls[2 * done.length + i]? = last[i]? := by
  rw [h.shape, List.getElem?_append_right (by rw [length_rounds]; omega),
    length_rounds, Nat.add_sub_cancel_left]

/-- **The calls for action number `i`.**  Either there is no call for the
action, and at most a refused one before it; or there is one, the action is
that of the course, and the robot has just said that it is ready. -/
theorem round (h : Conducted p x calls done last) (i : Nat) :
    (calls[2 * i + 1]? = none ∧
      ∀ call, calls[2 * i]? = some call → call = ⟨.ready, false⟩) ∨
    ∃ a ok, p.course.get? i = some a ∧
      calls[2 * i]? = some ⟨.ready, true⟩ ∧
      calls[2 * i + 1]? = some ⟨.perform a, ok⟩ := by
  rcases Nat.lt_or_ge i done.length with hlt | hge
  · obtain ⟨hready, hperform⟩ := getElem?_rounds done i
    have hlen := length_rounds done
    have ha : done[i]? = some done[i] := List.getElem?_eq_getElem hlt
    rw [ha] at hready hperform
    refine .inr ⟨done[i], true, h.ordered i _ ha, ?_, ?_⟩
    · rw [h.shape, List.getElem?_append_left (by omega), hready]
      rfl
    · rw [h.shape, List.getElem?_append_left (by omega), hperform]
      rfl
  · -- Behind the rounds there are at most the two calls of a failed attempt.
    obtain ⟨j, rfl⟩ := Nat.exists_eq_add_of_le hge
    rw [show 2 * (done.length + j) + 1 = 2 * done.length + (2 * j + 1) by omega,
      Nat.mul_add, h.getElem?_last, h.getElem?_last]
    cases h.ending with
    | running _ =>
        refine .inl ⟨rfl, ?_⟩
        intro call hcall
        cases hcall
    | unready _ =>
        refine .inl ⟨by simp, ?_⟩
        intro call hcall
        cases j with
        | zero =>
            cases hcall
            rfl
        | succ j => cases hcall
    | @unwilling a _ ha =>
        cases j with
        | zero =>
            rw [← h.counted] at ha
            exact .inr ⟨a, false, ha, rfl, rfl⟩
        | succ j =>
            refine .inl ⟨rfl, ?_⟩
            intro call hcall
            cases hcall

/-- A call that is refused is the last one. -/
theorem length_of_refused (h : Conducted p x calls done last) {i : Nat}
    {call : Call} (hcall : calls[i]? = some call)
    (hrefused : call.accepted = false) : calls.length = i + 1 := by
  have hlen : calls.length = 2 * done.length + last.length := by
    rw [h.shape, List.length_append, length_rounds]
  rcases Nat.lt_or_ge i (2 * done.length) with hlt | hge
  · rw [h.shape, List.getElem?_append_left (by rw [length_rounds]; exact hlt)]
      at hcall
    rw [accepted_of_mem_rounds (List.mem_of_getElem? hcall)] at hrefused
    cases hrefused
  · obtain ⟨j, rfl⟩ := Nat.exists_eq_add_of_le hge
    rw [h.getElem?_last] at hcall
    rw [hlen]
    cases h.ending with
    | running _ => cases hcall
    | unready _ =>
        cases j with
        | zero => rfl
        | succ j => cases hcall
    | unwilling _ _ =>
        match j with
        | 0 =>
            cases hcall
            cases hrefused
        | 1 => rfl
        | j + 2 => cases hcall

theorem steps_eq_countP (h : Conducted p x calls done last) :
    x.steps = calls.countP Call.isPerformed := by
  have hlast : last.countP Call.isPerformed = 0 := by
    cases h.ending with
    | running _ => rfl
    | unready _ => rfl
    | unwilling _ _ => rfl
  rw [h.shape, List.countP_append, countP_rounds, hlast, h.counted,
    Nat.add_zero]

/-- An execution is stopped exactly if a call has been refused. -/
theorem halted_iff (h : Conducted p x calls done last) :
    x.halted = true ↔ ∃ call ∈ calls, call.accepted = false := by
  constructor
  · intro hhalted
    rw [h.shape]
    cases h.ending with
    | running hrunning => simp [hrunning] at hhalted
    | unready _ => exact ⟨⟨.ready, false⟩, by simp, rfl⟩
    | @unwilling a _ _ => exact ⟨⟨.perform a, false⟩, by simp, rfl⟩
  · rintro ⟨call, hmem, hrefused⟩
    cases h.ending with
    | running _ =>
        rw [h.shape, List.append_nil] at hmem
        rw [accepted_of_mem_rounds hmem] at hrefused
        cases hrefused
    | unready hhalted => exact hhalted
    | unwilling hhalted _ => exact hhalted

end Conducted

/-- **An action that is left is asked for.**  The step performs it or is
refused, and the robot receives the calls of this one attempt. -/
theorem Reachable.step_watched {p : Program} {x : Execution}
    (hx : Reachable p x) (hrunning : x.halted = false) {a : Action}
    (ha : p.course.get? x.steps = some a) (robot : Robot σ ε) (s : σ)
    (calls : List Call) :
    (∃ x' s', Execution.step robot.watched (x, s, calls) =
      .ok (.performed a)
        (x', s', calls ++ [⟨.ready, true⟩, ⟨.perform a, true⟩])) ∨
    ∃ reason x' s' new, Execution.step robot.watched (x, s, calls) =
        .error (.refused a x.steps reason) (x', s', calls ++ new) ∧
      (new = [⟨.ready, false⟩] ∨
        new = [⟨.ready, true⟩, ⟨.perform a, false⟩]) := by
  have hget := hx.get?_steps hrunning
  have hstepped := stepped robot.watched x (s, calls)
  generalize Execution.step robot.watched (x, s, calls) = r at hstepped
  cases hstepped with
  | halted hhalted => simp [hrunning] at hhalted
  | finished _ hwalk =>
      rw [ha, hwalk] at hget
      cases hget
  | @performed b frames state _ hwalk hrobot =>
      obtain ⟨s', calls'⟩ := state
      rw [ha, hwalk] at hget
      cases hget
      rw [Robot.attempt_watched_ok hrobot]
      exact .inl ⟨_, s', rfl⟩
  | @refused b frames reason state _ hwalk hrobot =>
      obtain ⟨s', calls'⟩ := state
      rw [ha, hwalk] at hget
      cases hget
      rcases Robot.attempt_watched_error hrobot with hcalls | hcalls
      · rw [hcalls]
        exact .inr ⟨reason, _, s', _, rfl, .inl rfl⟩
      · rw [hcalls]
        exact .inr ⟨reason, _, s', _, rfl, .inr rfl⟩

/-! ## The protocol -/

/-- **The calls a robot receives** from an execution that is driven in any
way.

* Watching the robot does not change what happens.
* The calls number 0, 2, 4, … ask whether the robot is ready.  Those between
  them ask for the actions of the course, in order, each directly behind a
  call on which the robot was ready.
* As long as nothing is refused and an action is left, a step makes these two
  calls, or one if the robot is not ready, and performs the action or fails.
* A refused call is the last one.  The number of steps is that of the actions
  performed, and the execution is stopped exactly if a call was refused.
* A stopped execution stays as it is: whatever is tried, the robot receives no
  call, and every step and every run that is to make one fails with the same
  number of steps.
* So does an execution of which a step has found no action left, except that
  every step says so again. -/
theorem calls_follow_protocol (p : Program) (robot : Robot σ ε) (s₀ : σ)
    (drivers : List Driver) {x : Execution} {s : σ} {calls : List Call}
    (h : driven robot.watched drivers (start p, s₀, []) = (x, s, calls)) :
    driven robot drivers (start p, s₀) = (x, s) ∧
      (∀ i call, calls[2 * i]? = some call → call.request = .ready) ∧
      (∀ i call, calls[2 * i + 1]? = some call →
        (∃ a, p.course.get? i = some a ∧ call.request = .perform a) ∧
          calls[2 * i]? = some ⟨.ready, true⟩) ∧
      (x.halted = false → ∀ a, p.course.get? x.steps = some a →
        (∃ x' s', step robot.watched (x, s, calls) =
          .ok (.performed a)
            (x', s', calls ++ [⟨.ready, true⟩, ⟨.perform a, true⟩])) ∨
        ∃ reason x' s' new, step robot.watched (x, s, calls) =
            .error (.refused a x.steps reason) (x', s', calls ++ new) ∧
          (new = [⟨.ready, false⟩] ∨
            new = [⟨.ready, true⟩, ⟨.perform a, false⟩])) ∧
      (∀ i call, calls[i]? = some call → call.accepted = false →
        calls.length = i + 1) ∧
      x.steps = calls.countP Call.isPerformed ∧
      (x.halted = true ↔ ∃ call ∈ calls, call.accepted = false) ∧
      (x.halted = true →
        (∀ later,
          driven robot.watched later (x, s, calls) = (x, s, calls)) ∧
        step robot (x, s) = .error (.halted x.steps) (x, s) ∧
        (∀ budget, run robot (budget + 1) (x, s) =
          .error (.halted x.steps) (x, s)) ∧
        ∀ limit, runToEnd robot (limit + 1) (x, s) =
          .error (.halted x.steps) (x, s)) ∧
      (∀ after, step robot.watched (x, s, calls) = .ok .finished after →
        after.2 = (s, calls) ∧
        step robot.watched after = .ok .finished after ∧
        ∀ later, driven robot.watched later after = after) := by
  obtain ⟨done, last, hcalls⟩ := conducted_driven h
  refine ⟨driven_watched h, ?_, ?_,
    fun hrunning a ha => hcalls.reachable.step_watched hrunning ha robot s calls,
    fun i call => hcalls.length_of_refused, hcalls.steps_eq_countP,
    hcalls.halted_iff, ?_, fun after => driven_of_finished⟩
  · intro i call hcall
    rcases hcalls.round i with ⟨_, hready⟩ | ⟨a, ok, _, hready, _⟩
    · rw [hready call hcall]
    · rw [hready] at hcall
      cases hcall
      rfl
  · intro i call hcall
    rcases hcalls.round i with ⟨hnone, _⟩ | ⟨a, ok, ha, hready, hperform⟩
    · rw [hnone] at hcall
      cases hcall
    · rw [hperform] at hcall
      cases hcall
      exact ⟨⟨a, ha, rfl⟩, hready⟩
  · intro hhalted
    exact ⟨driven_of_halted robot.watched (s, calls) hhalted,
      step_of_halted robot s hhalted, run_of_halted robot s hhalted,
      runToEnd_of_halted robot s hhalted⟩

/-- A robot with fuel for two moves, driven in all three ways: it strands in
the loop before the turn of the second pass, and nothing more reaches it. -/
theorem calls_follow_protocol_stranded :
    let p : Program := ⟨[.action .move, .loop (.action .turnLeft) [.action .move]]⟩
    let x : Execution :=
      { frames :=
          [⟨[.action .turnLeft, .action .move], 1, true, 1, true⟩,
            ⟨p.statements, 2, false, 0, true⟩]
        steps := 3
        halted := true }
    let s : Recorder :=
      ⟨#[.move, .turnLeft, .move], some ⟨2, 0, 1⟩⟩
    let calls : List Call :=
      [⟨.ready, true⟩, ⟨.perform .move, true⟩, ⟨.ready, true⟩,
        ⟨.perform .turnLeft, true⟩, ⟨.ready, true⟩, ⟨.perform .move, true⟩,
        ⟨.ready, false⟩]
    driven Recorder.robot.watched [.step, .runToEnd 1, .run 9, .step]
        (start p, { fuel := some (.full 2) }, []) = (x, s, calls) ∧
      (∀ later, driven Recorder.robot.watched later (x, s, calls) =
        (x, s, calls)) ∧
      step Recorder.robot (x, s) = .error (.halted 3) (x, s) := by
  intro p x s calls
  have hdriven :
      driven Recorder.robot.watched [.step, .runToEnd 1, .run 9, .step]
        (start p, { fuel := some (.full 2) }, []) = (x, s, calls) := by cbv
  obtain ⟨-, -, -, -, -, -, -, hstopped, -⟩ :=
    calls_follow_protocol p Recorder.robot { fuel := some (.full 2) } _ hdriven
  exact ⟨hdriven, (hstopped rfl).1, (hstopped rfl).2.1⟩

end Execution

end RobotScript
