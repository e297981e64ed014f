import RobotScript.Proofs.Rounds
import RobotScript.Proofs.RunJournals

/-!
# Iterations

A loop is left or started over at the end of a pass, and the journal tells
which.  What the journal of a whole run tells can be known beforehand: the
stacks of an execution are `Poised` between its attempts, so the number of
attempts tells which iterations have been begun.

## Main results

* `Reachable.poised` — executions are between two attempts.
* `Reachable.iterationBegun_iff` — which iteration a step begins.
* `begunTo_driven`, `not_abandoned_driven` — the journal of a whole run.
* `loops_left_or_started_over` — what becomes of loops, in every state and over
  every run.
-/

namespace RobotScript

open Statement (actionCountList)

theorem Message.begun?_eq_none {m : Message} (h : m.ofWalk = false) :
    m.begun? = none := by
  cases m with
  | iterationBegun depth iteration => cases h
  | _ => rfl

/-! ## Statements without a `nop` -/

theorem Nested.nopFree {ss : List Statement} {f : Frame} {below : List Frame}
    (hfree : Statement.nopFreeList ss = true) (h : Nested ss (f :: below)) :
    Statement.nopFreeList f.statements = true := by
  induction below generalizing f with
  | nil =>
      rw [h.1.1]
      exact hfree
  | cons g below ih =>
      obtain ⟨⟨_, b, hb, hblock⟩, _, hbelow⟩ := h
      have hloop := Statement.nopFree_of_mem (ih hbelow)
        (Frame.mem_of_taken? hb)
      rw [hblock]
      exact hloop

/-- Without a `nop` in the program every loop on the stack has an action. -/
theorem Nested.live_of_nopFree {ss : List Statement} {f : Frame}
    {below : List Frame} (hfree : Statement.nopFreeList ss = true)
    (h : Nested ss (f :: below)) (hrepeats : f.repeats = true) :
    actionCountList f.statements ≠ 0 := by
  obtain ⟨hfits, _, hbelow⟩ := h
  cases below with
  | nil =>
      rw [hfits.2] at hrepeats
      cases hrepeats
  | cons g below =>
      obtain ⟨_, b, hb, hblock⟩ := hfits
      have hloop := Statement.nopFree_of_mem (hbelow.nopFree hfree)
        (Frame.mem_of_taken? hb)
      rw [hblock]
      exact Statement.actionCount_ne_zero_of_nopFree hloop

/-- Without a `nop` in the program no loop is left. -/
theorem Standing.not_abandoned {ss : List Statement} {frames : List Frame}
    (hfree : Statement.nopFreeList ss = true) (h : Standing ss frames)
    (d : Nat) : .loopAbandoned d ∉ walkJournal frames := by
  induction frames using walk.induct with
  | case1 frames a after hreached =>
      rw [walkJournal_of_reached hreached]
      exact List.not_mem_nil
  | case2 frames after note hmoved ih =>
      have hmoves := moves_of_tick hmoved
      rw [walkJournal_of_moved hmoved, List.mem_append]
      rintro (hmem | hmem)
      · obtain rfl : note = some (.loopAbandoned d) :=
          Option.mem_toList.1 hmem
        cases hmoves with
        | @abandon f _ hend hrepeats hflag =>
            exact h.nested.live_of_nopFree hfree hrepeats
              (h.dead_of_lowered hend hflag)
      · exact ih (h.moves hmoves) hmem
  | case3 frames hexhausted =>
      rw [walkJournal, walkJournalFrom, hexhausted]
      exact List.not_mem_nil

/-! ## Executions -/

namespace Execution

variable {p : Program} {x : Execution}

/-- The number of actions attempted: a refused one is not among the steps. -/
def attempts (x : Execution) : Nat :=
  if x.halted then x.steps + 1 else x.steps

theorem attempts_of_running (h : x.halted = false) : x.attempts = x.steps := by
  simp [attempts, h]

/-- **Executions are between two attempts**, unless they are at their end. -/
theorem Reachable.poised (hx : Reachable p x) :
    x.frames = [] ∨ ∃ f below k, x.frames = f :: below ∧
      Poised p x.attempts k f below := by
  induction hx with
  | start => exact .inr ⟨_, [], 0, rfl, poised_start p⟩
  | @step σ ε x x' s s' robot hx h ih =>
      have hstepped := stepped robot x s
      generalize Execution.step robot (x, s) = r at h hstepped
      have hnext : ∀ {a : Action} {frames : List Frame}, x.halted = false →
          walk x.frames = some (a, frames) →
          ∃ f below k, frames = f :: below ∧
            Poised p (x.steps + 1) k f below := by
        intro a frames hrunning hwalk
        rcases ih with hnil | ⟨f, below, k, hframes, hpoised⟩
        · rw [hnil, walk_of_exhausted rfl] at hwalk
          cases hwalk
        · rw [hframes] at hwalk
          rw [attempts_of_running hrunning] at hpoised
          exact hpoised.walk hwalk
      cases hstepped with
      | halted _ =>
          cases h
          exact ih
      | finished _ _ =>
          cases h
          exact .inl rfl
      | @performed a frames _ hrunning hwalk _ =>
          cases h
          have hattempts :
              attempts { x with frames, steps := x.steps + 1 } = x.steps + 1 :=
            attempts_of_running hrunning
          rw [hattempts]
          exact .inr (hnext hrunning hwalk)
      | refused hrunning hwalk _ =>
          cases h
          exact .inr (hnext hrunning hwalk)

/-- An execution that finds no action left is not caught in a loop. -/
theorem Reachable.cycle_eq_nil (hx : Reachable p x)
    (hrunning : x.halted = false) (hwalk : walk x.frames = none) :
    p.course.cycle = [] := by
  have hnone : p.course.get? x.steps = none := by
    rw [hx.get?_steps hrunning, hwalk]
    rfl
  obtain ⟨l, hl, _⟩ := Course.get?_eq_none_iff.1 hnone
  unfold Course.length? at hl
  split at hl
  · next hcycle => exact hcycle
  · cases hl

/-- **Which iteration a step begins.** -/
theorem Reachable.iterationBegun_iff (hx : Reachable p x)
    (hrunning : x.halted = false) (d : Nat) (iteration : UInt64) :
    .iterationBegun d iteration ∈ walkJournal x.frames ↔
      p.course.cycle ≠ [] ∧ d = p.roundDepth + 1 ∧
        ∃ k, 0 < k ∧ iteration = .ofNat k ∧
          x.steps = p.course.lead.length + k * p.course.cycle.length := by
  rcases hx.poised with hnil | ⟨f, below, k, hframes, hpoised⟩
  · have hcycle := hx.cycle_eq_nil hrunning
      (by rw [hnil, walk_of_exhausted rfl])
    rw [hnil, walkJournal, walkJournalFrom]
    simp [hcycle, tick]
  · rw [attempts_of_running hrunning] at hpoised
    rw [hframes, ← Message.mem_filterMap_begun?, hpoised.begun]
    split
    · next hdue =>
      obtain ⟨hcycle, hround, hnumber, hn⟩ := hpoised.due hdue.1 hdue.2
      rw [List.mem_singleton, Prod.mk.injEq, hround, hnumber, hn]
      constructor
      · rintro ⟨rfl, rfl⟩
        exact ⟨hcycle, rfl, k + 1, Nat.succ_pos k, rfl, rfl⟩
      · rintro ⟨_, hd, j, _, hiteration, heq⟩
        have hpos : 0 < p.course.cycle.length := List.length_pos_iff.2 hcycle
        have hj : k + 1 = j :=
          Nat.mul_right_cancel hpos (Nat.add_left_cancel heq)
        rw [hj]
        exact ⟨hd, hiteration⟩
    · next hnot =>
      constructor
      · intro hmem
        cases hmem
      · rintro ⟨hcycle, _, j, hj, _, hn⟩
        exact absurd hn (hpoised.not_due hnot hcycle hj)

/-! ## Runs -/

section Runs

variable {σ ε : Type} [ToString ε] {robot : Robot σ ε}

/-- **The iterations of a step** are those that its attempt begins. -/
theorem Reachable.begunTo_step (hrobot : robot.Discreet)
    (hx : Reachable p x) (s : σ) :
    p.begunTo (stateAfter (Execution.step robot (x, s))).1.attempts =
      p.begunTo x.attempts ++
        (stepJournal robot (x, s)).filterMap Message.begun? := by
  obtain ⟨own, hjournal, hown⟩ := exists_stepJournal hrobot x s
  have hnone : own.filterMap Message.begun? = [] :=
    List.filterMap_eq_nil_iff.2 fun m hm => Message.begun?_eq_none (hown m hm)
  rw [hjournal, List.filterMap_append, hnone, List.append_nil]
  have hattempt : ∀ {a : Action} {frames : List Frame}, x.halted = false →
      walk x.frames = some (a, frames) →
      p.begunTo (x.steps + 1) = p.begunTo x.attempts ++
        x.walkNotes.filterMap Message.begun? := by
    intro a frames hrunning hwalk
    rw [walkNotes, hrunning, attempts_of_running hrunning]
    rcases hx.poised with hnil | ⟨f, below, k, hframes, hpoised⟩
    · rw [hnil, walk_of_exhausted rfl] at hwalk
      cases hwalk
    · rw [attempts_of_running hrunning] at hpoised
      rw [hframes]
      exact hpoised.begunTo_succ
  have hstepped := stepped robot x s
  generalize Execution.step robot (x, s) = r at hstepped
  cases hstepped with
  | halted hhalted =>
      rw [walkNotes, if_pos hhalted]
      exact (List.append_nil _).symm
  | finished hrunning hwalk =>
      have hquiet : (walkJournal x.frames).filterMap Message.begun? = [] := by
        rw [List.eq_nil_iff_forall_not_mem]
        rintro ⟨d, k⟩ hmem
        rw [Message.mem_filterMap_begun?, hx.iterationBegun_iff hrunning]
          at hmem
        exact hmem.1 (hx.cycle_eq_nil hrunning hwalk)
      rw [walkNotes, if_neg (by simp [hrunning]), hquiet, List.append_nil]
      rfl
  | @performed a frames _ hrunning hwalk _ =>
      have hattempts :
          attempts { x with frames, steps := x.steps + 1 } = x.steps + 1 :=
        attempts_of_running hrunning
      rw [← hattempt hrunning hwalk]
      exact congrArg _ hattempts
  | refused hrunning hwalk _ => exact hattempt hrunning hwalk

/-- **The iterations of a run** are those that its attempts begin. -/
theorem begunTo_driven (hrobot : robot.Discreet) (drivers : List Driver)
    (s : σ) :
    (drivenJournal robot drivers (start p, s)).filterMap Message.begun? =
      p.begunTo (driven robot drivers (start p, s)).1.attempts := by
  let Counts (state : Execution × σ) (noted : List Message) : Prop :=
    Reachable p state.1 ∧
      noted.filterMap Message.begun? = p.begunTo state.1.attempts
  have hstep : ∀ state noted, Counts state noted →
      Counts (stateAfter (Execution.step robot state))
        (noted ++ stepJournal robot state) := by
    rintro ⟨x, s⟩ noted ⟨hx, hnoted⟩
    refine ⟨hx.step robot rfl, ?_⟩
    rw [hx.begunTo_step hrobot s, List.filterMap_append, hnoted]
  have hstart : Counts (start p, s) [] := by
    refine ⟨.start, ?_⟩
    simp [Program.begunTo, Course.restarts, start, attempts]
  exact (driven_notes hstep drivers hstart).2

/-- **A program that has been read** has no loop that is left. -/
theorem not_abandoned_driven (hrobot : robot.Discreet) {source : String}
    (hparse : Program.parse source = .ok p) (drivers : List Driver) (s : σ)
    (d : Nat) : .loopAbandoned d ∉ drivenJournal robot drivers (start p, s) := by
  have hfree : Statement.nopFreeList p.statements = true :=
    (parse_eq_ok_iff.1 hparse).2.1
  let Quiet (state : Execution × σ) (noted : List Message) : Prop :=
    Reachable p state.1 ∧ .loopAbandoned d ∉ noted
  have hstep : ∀ state noted, Quiet state noted →
      Quiet (stateAfter (Execution.step robot state))
        (noted ++ stepJournal robot state) := by
    rintro ⟨x, s⟩ noted ⟨hx, hnoted⟩
    refine ⟨hx.step robot rfl, ?_⟩
    obtain ⟨own, hjournal, hown⟩ := exists_stepJournal hrobot x s
    rw [hjournal, List.mem_append, List.mem_append]
    rintro (hmem | hmem | hmem)
    · exact hnoted hmem
    · unfold walkNotes at hmem
      split at hmem
      · cases hmem
      · exact hx.standing.not_abandoned hfree d hmem
    · cases hown _ hmem
  have hstart : Quiet (start p, s) [] := ⟨.start, nofun⟩
  exact (driven_notes hstep drivers hstart).2

end Runs

/-! ## What becomes of loops -/

/-- **Loops are left or started over.**  For every program:

* In whatever stack an execution comes through, a loop at the end of a pass is
  left if its block has no action, and started over if it has one.
* Wherever a loop without an action comes next, it is passed: one message is
  noted for every loop in it, for inner loops before the loop around them, and
  the walk goes on behind it.
* An execution that has not been refused begins iteration `k` on the way to its
  next action exactly if it has performed the lead of the course and `k` rounds
  of its cycle.  The loop is always at the same depth.  Its number is noted as a
  word, so it is `k` itself below the size of a word.
* Between two steps only the innermost frame can have been started over.
* However the program is driven, the iterations in the journal are the first,
  the second, the third and so on, up to the number that the attempted actions
  allow; and no loop is left if the program has been read. -/
theorem loops_left_or_started_over (p : Program) :
    (∀ (x : Execution) (notes : List Message) (f : Frame) (below : List Frame),
      Reachable p x → Passes x.frames notes (f :: below) →
      f.repeats = true → f.advance? = none →
      tick (f :: below) =
        if actionCountList f.statements = 0 then
          .moved below (some (.loopAbandoned (below.length + 1)))
        else
          .moved (f.rewind :: below)
            (some (.iterationBegun (below.length + 1) (f.iteration + 1)))) ∧
    (∀ (f : Frame) (b : Block) (rest : List Statement) (below : List Frame),
      f.statements.drop f.next = b.looped :: rest → b.actionCount = 0 →
      walk (f :: below) = walk (f.skip 1 :: below) ∧
        walkJournal (f :: below) =
          b.looped.abandonments (below.length + 1) ++
            walkJournal (f.skip 1 :: below) ∧
        (b.looped.abandonments (below.length + 1)).length =
          b.looped.loopCount) ∧
    (∀ x, Reachable p x → x.halted = false → ∀ d iteration,
      .iterationBegun d iteration ∈ walkJournal x.frames ↔
        p.course.cycle ≠ [] ∧ d = p.roundDepth + 1 ∧
          ∃ k, 0 < k ∧ iteration = .ofNat k ∧
            x.steps = p.course.lead.length + k * p.course.cycle.length) ∧
    (∀ x, Reachable p x → ∀ f below, x.frames = f :: below →
      ∀ g ∈ below, g.iteration = 0) ∧
    ∀ {σ ε : Type} [ToString ε] (robot : Robot σ ε), robot.Discreet →
      ∀ (drivers : List Driver) (s : σ),
        (drivenJournal robot drivers (start p, s)).filterMap Message.begun? =
          (List.range (p.course.restarts
            (driven robot drivers (start p, s)).1.attempts)).map
              (fun i => (p.roundDepth + 1, .ofNat (i + 1))) ∧
        ∀ source, Program.parse source = .ok p →
          ∀ d, .loopAbandoned d ∉ drivenJournal robot drivers (start p, s) := by
  refine ⟨?_, ?_, fun x hx hrunning => hx.iterationBegun_iff hrunning, ?_, ?_⟩
  · intro x notes f below hx hpasses hrepeats hend
    exact (hx.standing.passes hpasses).tick_of_end hrepeats hend
  · intro f b rest below hdrop hdead
    have hpasses := Statement.passed (s := b.looped) hdead below hdrop
    exact ⟨hpasses.walk_eq, hpasses.walkJournal_eq,
      Statement.length_abandonments _ _⟩
  · intro x hx f below hframes g hg
    rcases hx.poised with hnil | ⟨f', below', k, hframes', hpoised⟩
    · rw [hnil] at hframes
      cases hframes
    · rw [hframes'] at hframes
      obtain ⟨rfl, rfl⟩ := List.cons.inj hframes
      exact (hpoised.counted.entered g hg).1
  · intro σ ε _ robot hrobot drivers s
    exact ⟨begunTo_driven hrobot drivers s,
      fun source hparse => not_abandoned_driven hrobot hparse drivers s⟩

/-- A loop without an action in a loop with one, behind a single action: the
outer loop starts over before the third and the fourth attempt. -/
theorem loops_left_or_started_over_mixed :
    let p : Program :=
      ⟨[.action .wait, .loop (.loop .nop [.loop .nop []]) [.action .move]]⟩
    let block : List Statement :=
      [.loop .nop [.loop .nop []], .action .move]
    let below : List Frame := [⟨p.statements, 2, false, 0, true⟩]
    let x : Execution :=
      { frames := ⟨block, 2, true, 0, true⟩ :: below, steps := 2 }
    Reachable p x ∧ p.course = ⟨[.wait], [.move]⟩ ∧
      .iterationBegun 2 1 ∈ walkJournal x.frames ∧
      walkJournal (Frame.repeating block :: below) =
        [.loopAbandoned 4, .loopAbandoned 3] ∧
      (drivenJournal Recorder.robot [.step, .runToEnd 3] (start p, {})).filterMap
        Message.begun? = [(2, 1), (2, 2)] := by
  intro p block below x
  have hdriven : driven Recorder.robot [.runToEnd 2] (start p, {}) =
      (x, ⟨#[.wait, .move], none⟩) := by cbv
  have hx : Reachable p x := Reachable.start.driven hdriven
  have hcourse : p.course = ⟨[.wait], [.move]⟩ := by decide
  obtain ⟨-, hidle, hbegun, -, hruns⟩ := loops_left_or_started_over p
  refine ⟨hx, hcourse, ?_, ?_, ?_⟩
  · exact (hbegun x hx rfl 2 1).2 ⟨by decide, by decide, 1, by decide⟩
  · obtain ⟨-, hjournal, -⟩ := hidle (Frame.repeating block)
      ⟨.nop, [.loop .nop []]⟩ [.action .move] below rfl (by decide)
    rw [hjournal]
    cbv
  · have hattempts : (driven Recorder.robot [.step, .runToEnd 3]
        (start p, {})).1.attempts = 4 := by cbv
    have hiterations :=
      (hruns Recorder.robot Recorder.discreet [.step, .runToEnd 3] {}).1
    rw [hattempts] at hiterations
    rw [hiterations]
    decide

end Execution

end RobotScript
