import Mathlib.Data.Nat.Find
import RobotScript.Proofs.Fuel
import RobotScript.Proofs.LookAhead
import RobotScript.Proofs.Slices

/-!
# Where a program strands the robot

Before every action a recorder is asked whether it is ready, and with an empty
tank it is not.  So a robot is stranded one action behind the move that has
burnt the last of its fuel: an action of whatever kind, also one that would
fill the tank, is refused.  If there is no further action, the robot is not
asked, and the program has come to its end.

Where that happens can be told beforehand.  The course of the program says
which actions come first, `Course.take`, and the tank behind them is known, as
long as none has been refused.  The first place of the course that has an
action and an empty tank before it, `Course.StrandsAt`, is where every run
stops that gets so far.

## Main results

* `run_of_stepMany` — a run with a budget is that many single steps.
* `stepMany_of_fuelled` — a run up to a place before which the tank is never
  empty.
* `stepMany_of_stranded` — a run up to the first place where it is.
* `strands_or_carries_on`, `run_of_fuelled_to_end` — single steps and a run come
  to the same.
* `run_strands_iff` — whether a run fails, and with what.
-/

namespace RobotScript

/-! ## The first actions of a course -/

namespace Course

/-- The first `n` actions of a course; all of them if it has fewer. -/
def take (c : Course) (n : Nat) : List Action :=
  (List.range n).filterMap c.get?

theorem take_succ (c : Course) (n : Nat) :
    c.take (n + 1) = c.take n ++ (c.get? n).toList := by
  rw [take, List.range_succ, List.filterMap_append]
  cases h : c.get? n with
  | none => simp [take, h]
  | some a => simp [take, h]

theorem length_take (c : Course) (n : Nat) :
    (c.take n).length = c.countTo n := by
  induction n with
  | zero =>
      show 0 = c.countTo 0
      unfold countTo
      split <;> omega
  | succ n ih =>
      rw [take_succ, List.length_append, ih]
      cases h : c.get? n with
      | none => exact (countTo_succ_of_none h).symm
      | some a =>
          obtain ⟨hcount, hnext⟩ := countTo_of_some h
          rw [hcount, hnext]
          rfl

theorem countTo_of_length {c : Course} {l n : Nat} (hl : c.length? = some l)
    (hle : l ≤ n) : c.countTo n = l := by
  simp only [countTo, hl]
  omega

/-- The place behind the last of the first `n` actions has an action exactly if
the place `n` has one. -/
theorem get?_countTo_eq_none_iff {c : Course} {n : Nat} :
    c.get? (c.countTo n) = none ↔ c.get? n = none := by
  cases h : c.get? n with
  | some a => rw [(countTo_of_some h).1, h]
  | none =>
      obtain ⟨l, hl, hle⟩ := get?_eq_none_iff.1 h
      have hcount := countTo_of_length hl hle
      exact iff_of_true (get?_eq_none_iff.2 ⟨l, hl, by omega⟩) rfl

end Course

/-! ## Behind several actions -/

/-- The tank after some actions that were performed. -/
def FuelTank.afterAll (tank : FuelTank) (as : List Action) : FuelTank :=
  as.foldl FuelTank.after tank

open Recorder (Use movesSinceFilling)

theorem FuelTank.Accounts.afterAll {tank now : FuelTank} {uses : List Use}
    (h : tank.Accounts uses now) (as : List Action) :
    tank.Accounts (uses ++ as.map .call) (now.afterAll as) := by
  induction as generalizing uses now with
  | nil =>
      rw [List.map_nil, List.append_nil]
      exact h
  | cons a as ih =>
      have hrest := ih (h.after a)
      rw [List.append_assoc] at hrest
      exact hrest

/-- The tank is empty exactly if the moves since the last filling burn at least
the level that they started from. -/
theorem FuelTank.level_afterAll_eq_zero_iff (tank : FuelTank)
    (as : List Action) :
    (tank.afterAll as).level = 0 ↔
      tank.levelFilled (as.map .call) ≤
        tank.perMove.toNat * movesSinceFilling (as.map .call) := by
  have hlevel := (tank.accounts_nil.afterAll as).level
  rw [List.nil_append, FuelTank.levelBehind] at hlevel
  rw [← UInt32.toNat_inj, hlevel, UInt32.toNat_zero]
  exact Nat.sub_eq_zero_iff_le

/-- A recorder after some actions that were performed. -/
def Recorder.afterAll (r : Recorder) (as : List Action) : Recorder where
  calls := r.calls ++ as.toArray
  fuel := r.fuel.map (·.afterAll as)

theorem Recorder.afterAll_nil (r : Recorder) : r.afterAll [] = r := by
  simp [Recorder.afterAll, FuelTank.afterAll]

theorem Recorder.afterAll_concat (r : Recorder) (as : List Action)
    (a : Action) : r.afterAll (as ++ [a]) = (r.afterAll as).after a := by
  have hcalls : (r.afterAll (as ++ [a])).calls =
      ((r.afterAll as).after a).calls := by
    simp [Recorder.afterAll, Recorder.after]
  have hfuel : (r.afterAll (as ++ [a])).fuel =
      ((r.afterAll as).after a).fuel := by
    rw [Recorder.fuel_after]
    simp [Recorder.afterAll, FuelTank.afterAll, Function.comp_def]
  exact Recorder.mk.injEq .. ▸ ⟨hcalls, hfuel⟩

/-- Whether the course has an action at place `i` and the tank is empty before
it. -/
def Course.StrandsAt (c : Course) (tank : FuelTank) (i : Nat) : Prop :=
  (c.get? i).isSome = true ∧ (tank.afterAll (c.take i)).level = 0

namespace Execution

variable {σ ε : Type} {robot : Robot σ ε}

/-! ## Single steps and runs -/

/-- Behind a failure no further step is made. -/
theorem stepMany_add_of_error {n : Nat} {state after : Execution × σ}
    {e : RuntimeError ε} (h : stepMany robot n state = .error e after)
    (k : Nat) : stepMany robot (n + k) state = .error e after := by
  induction k with
  | zero => exact h
  | succ k ih =>
      rw [← Nat.add_assoc]
      simp only [stepMany, ih]

theorem run_one (state : Execution × σ) :
    run robot 1 state =
      match step robot state with
      | .ok (.performed _) next => .ok ⟨1, next.1.isFinished⟩ next
      | .ok .finished next => .ok ⟨0, true⟩ next
      | .error e next => .error e next := rfl

variable (robot) in
/-- **A run is a number of single steps.**  It fails as they do.  Otherwise it
leaves the same state, and tells from it how many actions were performed and
whether one is left. -/
theorem run_of_stepMany (n : Nat) (state : Execution × σ) :
    match stepMany robot n state with
    | .ok _ after =>
      state.1.steps ≤ after.1.steps ∧
        run robot n state =
          .ok ⟨after.1.steps - state.1.steps, after.1.isFinished⟩ after
    | .error e after => run robot n state = .error e after := by
  induction n with
  | zero =>
      refine ⟨Nat.le_refl _, ?_⟩
      rw [Nat.sub_self]
      rfl
  | succ n ih =>
      rw [run_add n 1]
      simp only [stepMany]
      cases hmany : stepMany robot n state with
      | error e after =>
          simp only [hmany] at ih
          simp only [ih]
      | ok done next =>
          obtain ⟨x, s⟩ := next
          simp only [hmany] at ih
          obtain ⟨hle, hrun⟩ := ih
          simp only [hrun, run_one]
          have hstepped := stepped robot x s
          generalize step robot (x, s) = r at hstepped
          cases hstepped with
          | halted _ => rfl
          | refused _ _ _ => rfl
          | finished _ _ => exact ⟨hle, rfl⟩
          | performed _ _ _ =>
              refine ⟨Nat.le_succ_of_le hle, ?_⟩
              simp only [Nat.sub_add_comm hle]

theorem reachable_of_stepMany {p : Program} {n : Nat} {s s' : σ}
    {done : List Step} {x : Execution}
    (h : stepMany robot n (start p, s) = .ok done (x, s')) :
    Reachable p x := by
  induction n generalizing done x s' with
  | zero =>
      cases h
      exact .start
  | succ n ih =>
      simp only [stepMany] at h
      split at h
      · next hmany =>
        split at h
        · next hstep =>
          cases h
          exact (ih hmany).step robot (congrArg stateAfter hstep)
        · cases h
      · cases h

/-! ## Runs of a recorder -/

section Recording

variable {p : Program} {calls : Array Action} {tank : FuelTank}

/-- **One step.**  At a place of the course that has an action, a recorder is
asked for it and refuses if it is dry. -/
theorem Follows.step_recorder {n : Nat} {x : Execution} (hx : Follows p n x)
    {a : Action} (hget : p.course.get? n = some a) (r : Recorder) :
    ∃ frames, Execution.step Recorder.robot (x, r) =
      if r.isDry then
        .error (.refused a n ⟨r.calls.size⟩) (⟨frames, n, true⟩, r)
      else
        .ok (.performed a) (⟨frames, n + 1, false⟩, r.after a) := by
  have hahead : x.course.get? 0 = p.course.get? n := hx.ahead 0
  have hsteps : x.steps = n := hx.counted.trans (Course.countTo_of_some hget).1
  obtain ⟨frames, hstep, _⟩ :=
    step_of_some Recorder.robot r hx.running (hahead.trans hget)
  refine ⟨frames, ?_⟩
  rw [hstep, asking, Recorder.attempt_eq]
  by_cases hdry : r.isDry = true
  · simp only [if_pos hdry, hsteps]
  · simp only [if_neg hdry, hsteps, hx.running]

/-- A recorder whose actions so far were all performed is dry exactly if its
tank is empty behind them. -/
theorem isDry_afterAll (as : List Action) :
    (Recorder.afterAll ⟨calls, some tank⟩ as).isDry = true ↔
      (tank.afterAll as).level = 0 :=
  Recorder.isDry_iff rfl

/-- **As long as there is fuel.**  If the tank is never empty before one of the
first `n` actions, they are all performed. -/
theorem stepMany_of_fuelled (p : Program) (calls : Array Action)
    (tank : FuelTank) {n : Nat}
    (h : ∀ i < n, ¬p.course.StrandsAt tank i) :
    ∃ done x, stepMany Recorder.robot n (start p, ⟨calls, some tank⟩) =
      .ok done (x, Recorder.afterAll ⟨calls, some tank⟩ (p.course.take n)) := by
  induction n with
  | zero =>
      refine ⟨[], start p, ?_⟩
      show _ = EStateM.Result.ok [] (start p, Recorder.afterAll _ [])
      rw [Recorder.afterAll_nil]
      rfl
  | succ n ih =>
      obtain ⟨done, x, hmany⟩ := ih fun i hi => h i (Nat.lt_succ_of_lt hi)
      obtain ⟨_, hx⟩ := stepMany_follows hmany
      simp only [stepMany, hmany, Course.take_succ]
      cases hget : p.course.get? n with
      | none =>
          have hahead : x.course.get? 0 = p.course.get? n := hx.ahead 0
          rw [step_of_none _ _ hx.running (hahead.trans hget)]
          simp only [Option.toList_none, List.append_nil]
          exact ⟨_, _, rfl⟩
      | some a =>
          have hfuelled : ¬(Recorder.afterAll ⟨calls, some tank⟩
              (p.course.take n)).isDry = true := by
            rw [isDry_afterAll]
            intro hlevel
            exact h n (Nat.lt_succ_self n) ⟨by rw [hget]; rfl, hlevel⟩
          obtain ⟨frames, hstep⟩ := hx.step_recorder hget _
          rw [hstep, if_neg hfuelled, Option.toList_some,
            Recorder.afterAll_concat]
          exact ⟨_, _, rfl⟩

/-- **The first place with an empty tank.**  The actions before it are
performed, and the action there is refused, whichever it is. -/
theorem stepMany_of_stranded (p : Program) (calls : Array Action)
    (tank : FuelTank) {i : Nat} (h : p.course.StrandsAt tank i)
    (hfirst : ∀ j < i, ¬p.course.StrandsAt tank j) :
    ∃ a x, p.course.get? i = some a ∧
      stepMany Recorder.robot (i + 1) (start p, ⟨calls, some tank⟩) =
        .error (.refused a i ⟨calls.size + i⟩)
          (x, Recorder.afterAll ⟨calls, some tank⟩ (p.course.take i)) := by
  obtain ⟨hsome, hlevel⟩ := h
  obtain ⟨a, hget⟩ := Option.isSome_iff_exists.1 hsome
  obtain ⟨done, x, hmany⟩ := stepMany_of_fuelled p calls tank hfirst
  obtain ⟨_, hx⟩ := stepMany_follows hmany
  obtain ⟨frames, hstep⟩ := hx.step_recorder hget
    (Recorder.afterAll ⟨calls, some tank⟩ (p.course.take i))
  have hsize : (Recorder.afterAll ⟨calls, some tank⟩
      (p.course.take i)).calls.size = calls.size + i := by
    simp only [Recorder.afterAll, Array.size_append, List.size_toArray,
      Course.length_take, (Course.countTo_of_some hget).1]
  refine ⟨a, ⟨frames, i, true⟩, hget, ?_⟩
  simp only [stepMany, hmany, hstep, if_pos ((isDry_afterAll _).2 hlevel),
    hsize]

/-- A run up to a place before which the tank is never empty. -/
theorem run_of_fuelled (p : Program) (calls : Array Action)
    (tank : FuelTank) {n : Nat} (h : ∀ i < n, ¬p.course.StrandsAt tank i) :
    ∃ x, stepMany Recorder.robot n (start p, ⟨calls, some tank⟩) =
        .ok ((List.range n).map p.course.stepAt)
          (x, Recorder.afterAll ⟨calls, some tank⟩ (p.course.take n)) ∧
      run Recorder.robot n (start p, ⟨calls, some tank⟩) =
        .ok ⟨p.course.countTo n, (p.course.get? n).isNone⟩
          (x, Recorder.afterAll ⟨calls, some tank⟩ (p.course.take n)) := by
  obtain ⟨done, x, hmany⟩ := stepMany_of_fuelled p calls tank h
  obtain ⟨hdone, hx⟩ := stepMany_follows hmany
  have hfinished : x.isFinished = (p.course.get? n).isNone := by
    rw [Bool.eq_iff_iff, Option.isNone_iff_eq_none,
      (reachable_of_stepMany hmany).isFinished_iff hx.running, hx.counted]
    exact Course.get?_countTo_eq_none_iff
  have hrun := run_of_stepMany Recorder.robot n
    (start p, ⟨calls, some tank⟩)
  rw [hmany] at hrun
  refine ⟨x, hdone ▸ hmany, ?_⟩
  rw [hrun.2, hfinished, hx.counted]
  rfl

end Recording

/-- What single steps and a run come to behind the first place with an empty
tank. -/
theorem run_of_stranded (p : Program) (calls : Array Action)
    (tank : FuelTank) {i n : Nat} (hi : i < n)
    (h : p.course.StrandsAt tank i)
    (hfirst : ∀ j < i, ¬p.course.StrandsAt tank j) :
    ∃ a x, p.course.get? i = some a ∧
      stepMany Recorder.robot n (start p, ⟨calls, some tank⟩) =
        .error (.refused a i ⟨calls.size + i⟩)
          (x, Recorder.afterAll ⟨calls, some tank⟩ (p.course.take i)) ∧
      run Recorder.robot n (start p, ⟨calls, some tank⟩) =
        .error (.refused a i ⟨calls.size + i⟩)
          (x, Recorder.afterAll ⟨calls, some tank⟩ (p.course.take i)) := by
  obtain ⟨a, x, hget, hstopped⟩ := stepMany_of_stranded p calls tank h hfirst
  obtain ⟨k, rfl⟩ : ∃ k, n = i + 1 + k := ⟨n - (i + 1), by omega⟩
  have hmany := stepMany_add_of_error hstopped k
  have hrun := run_of_stepMany Recorder.robot (i + 1 + k)
    (start p, ⟨calls, some tank⟩)
  rw [hmany] at hrun
  exact ⟨a, x, hget, hmany, hrun⟩

/-- Single steps and a run fail together, and exactly if there is a place with
an empty tank. -/
theorem strands_or_carries_on (p : Program) (calls : Array Action)
    (tank : FuelTank) (n : Nat) :
    (∃ i < n, p.course.StrandsAt tank i) ∧
        (∃ e after,
          stepMany Recorder.robot n (start p, ⟨calls, some tank⟩) =
            .error e after ∧
          run Recorder.robot n (start p, ⟨calls, some tank⟩) =
            .error e after) ∨
      (¬∃ i < n, p.course.StrandsAt tank i) ∧
        ∃ done summary after,
          stepMany Recorder.robot n (start p, ⟨calls, some tank⟩) =
            .ok done after ∧
          run Recorder.robot n (start p, ⟨calls, some tank⟩) =
            .ok summary after := by
  classical
  by_cases hplace : ∃ i < n, p.course.StrandsAt tank i
  · -- The robot is stranded at the first such place.
    obtain ⟨i, hi, hstrands⟩ := hplace
    have hsome : ∃ i, p.course.StrandsAt tank i := ⟨i, hstrands⟩
    have hle : Nat.find hsome ≤ i := Nat.find_min' hsome hstrands
    obtain ⟨a, x, _, hmany, hrun⟩ :=
      run_of_stranded p calls tank (Nat.lt_of_le_of_lt hle hi)
        (Nat.find_spec hsome) (fun _ hj => Nat.find_min hsome hj)
    exact .inl ⟨⟨i, hi, hstrands⟩, _, _, hmany, hrun⟩
  · have hnone : ∀ i < n, ¬p.course.StrandsAt tank i :=
      fun i hi h => hplace ⟨i, hi, h⟩
    obtain ⟨x, hmany, hrun⟩ := run_of_fuelled p calls tank hnone
    exact .inr ⟨hplace, _, _, _, hmany, hrun⟩

/-- A program that ends is carried on to its end if there is fuel before each
of its actions. -/
theorem run_of_fuelled_to_end (p : Program) (calls : Array Action)
    (tank : FuelTank) {l n : Nat} (hl : p.course.length? = some l)
    (hle : l ≤ n)
    (h : ∀ i < l, (tank.afterAll (p.course.take i)).level ≠ 0) :
    ∃ x, stepMany Recorder.robot n (start p, ⟨calls, some tank⟩) =
        .ok ((List.range n).map p.course.stepAt)
          (x, Recorder.afterAll ⟨calls, some tank⟩ (p.course.take n)) ∧
      run Recorder.robot n (start p, ⟨calls, some tank⟩) =
        .ok ⟨l, true⟩
          (x, Recorder.afterAll ⟨calls, some tank⟩ (p.course.take n)) := by
  have hnone : ∀ i < n, ¬p.course.StrandsAt tank i := by
    rintro i _ ⟨hsome, hlevel⟩
    -- A place with an action lies before the end of the course.
    have hil : i < l := by
      apply Nat.lt_of_not_le
      intro hli
      rw [Course.get?_eq_none_iff.2 ⟨l, hl, hli⟩] at hsome
      cases hsome
    exact h i hil hlevel
  obtain ⟨x, hmany, hrun⟩ := run_of_fuelled p calls tank hnone
  have hend : p.course.get? n = none :=
    Course.get?_eq_none_iff.2 ⟨l, hl, hle⟩
  rw [Course.countTo_of_length hl hle, hend] at hrun
  exact ⟨x, hmany, hrun⟩

/-- **Where a program strands the robot.**  A recorder with any tank, which may
have recorded actions before, is driven through a program by `n` single steps
or by a run with the budget `n`.

* The tank is empty behind the first `i` actions of the course exactly if the
  moves among them since the last one that fills it burn at least the level
  they started from.
* The steps, and likewise the run, fail exactly if there is a place `i < n` of
  the course that has an action and an empty tank before it.
* At the first such place the actions before it have been recorded, and nothing
  else.  The error names the action there, of whatever kind, the number `i` of
  steps, and the number of actions recorded altogether.
* If there is no such place, the program is carried on to the place `n`.  So a
  program that ends within the budget finishes, also if its last action empties
  the tank. -/
theorem run_strands_iff (p : Program) (calls : Array Action) (tank : FuelTank)
    (n : Nat) :
    let r : Recorder := ⟨calls, some tank⟩
    (∀ i, (tank.afterAll (p.course.take i)).level = 0 ↔
      tank.levelFilled ((p.course.take i).map .call) ≤
        tank.perMove.toNat *
          movesSinceFilling ((p.course.take i).map .call)) ∧
      ((∃ e after, stepMany Recorder.robot n (start p, r) = .error e after) ↔
        ∃ i < n, p.course.StrandsAt tank i) ∧
      ((∃ e after, run Recorder.robot n (start p, r) = .error e after) ↔
        ∃ i < n, p.course.StrandsAt tank i) ∧
      (∀ i < n, p.course.StrandsAt tank i →
        (∀ j < i, ¬p.course.StrandsAt tank j) →
        ∃ a x r', p.course.get? i = some a ∧
          r'.calls.toList = calls.toList ++ p.course.take i ∧
          (p.course.take i).length = i ∧
          stepMany Recorder.robot n (start p, r) =
            .error (.refused a i ⟨calls.size + i⟩) (x, r') ∧
          run Recorder.robot n (start p, r) =
            .error (.refused a i ⟨calls.size + i⟩) (x, r')) ∧
      ∀ l, p.course.length? = some l → l ≤ n →
        (∀ i < l, (tank.afterAll (p.course.take i)).level ≠ 0) →
        ∃ x, stepMany Recorder.robot n (start p, r) =
            .ok ((List.range n).map p.course.stepAt)
              (x, r.afterAll (p.course.take n)) ∧
          run Recorder.robot n (start p, r) =
            .ok ⟨l, true⟩ (x, r.afterAll (p.course.take n)) := by
  intro r
  refine ⟨fun i => tank.level_afterAll_eq_zero_iff (p.course.take i),
    ?_, ?_, ?_, fun _ => run_of_fuelled_to_end p calls tank⟩
  · rcases strands_or_carries_on p calls tank n with
      ⟨hplace, e, after, hmany, _⟩ | ⟨hplace, done, summary, after, hmany, _⟩
    · exact iff_of_true ⟨e, after, hmany⟩ hplace
    · rw [hmany]
      exact iff_of_false nofun hplace
  · rcases strands_or_carries_on p calls tank n with
      ⟨hplace, e, after, _, hrun⟩ | ⟨hplace, done, summary, after, _, hrun⟩
    · exact iff_of_true ⟨e, after, hrun⟩ hplace
    · rw [hrun]
      exact iff_of_false nofun hplace
  · intro i hi hstrands hfirst
    obtain ⟨a, x, hget, hmany, hrun⟩ :=
      run_of_stranded p calls tank hi hstrands hfirst
    refine ⟨a, x, r.afterAll (p.course.take i), hget, ?_, ?_, hmany, hrun⟩
    · simp [r, Recorder.afterAll]
    · rw [Course.length_take]
      exact (Course.countTo_of_some hget).1

-- Fuel for two moves: taking more fuel behind them comes too late, but ending
-- behind them does not.
example :
    let late : Program :=
      ⟨[.action .move, .action .move, .action .takeFuel]⟩
    let ends : Program := ⟨[.action .move, .action .move]⟩
    let r : Recorder := ⟨#[.wait], some (.full 2)⟩
    (∃ x, run Recorder.robot 3 (start late, r) =
      .error (.refused .takeFuel 2 ⟨3⟩)
        (x, ⟨#[.wait, .move, .move], some ⟨2, 0, 1⟩⟩)) ∧
      ∃ x, run Recorder.robot 3 (start ends, r) =
        .ok ⟨2, true⟩ (x, ⟨#[.wait, .move, .move], some ⟨2, 0, 1⟩⟩) :=
  ⟨⟨_, by cbv⟩, ⟨_, by cbv⟩⟩

end Execution

end RobotScript
