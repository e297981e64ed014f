import RobotScript.Proofs.IdleLoops
import RobotScript.Proofs.Paths

/-!
# Counting actions on the stack

The number of actions that an execution has attempted can be read off its stack.
The frames below the innermost one are in their first pass and in their first
loop with an action, so each of them has come past the actions written before
that loop.  The innermost one has come past all its actions once for every
completed pass, and then past those of the present one.

`Counted` says so.  A frame counts its passes in words, so the number of passes
is a number of its own, and the frame knows it modulo the size of a word.

The same frames tell the course of the program.  A frame below is caught in the
loop it is in: what comes behind that loop is not reached.  So the course is the
actions that have been passed below and then the course of the innermost frame.

## Main results

* `Frame.Leads.counted` — the way to an action counts one more.
* `Nested.around` — the course of a program, seen from a frame of it.
-/

namespace RobotScript

open Statement (actionCountList courseList Ends roundDepthList)

/-! ## The count -/

namespace Frame

theorem take_skip {f : Frame} {dead rest : List Statement}
    (h : f.statements.drop f.next = dead ++ rest) :
    f.statements.take (f.next + dead.length) =
      f.statements.take f.next ++ dead := by
  rw [List.take_add, h, List.take_left]

/-- The statements around the one taken last. -/
theorem statements_of_taken? {f : Frame} {s : Statement}
    (h : f.taken? = some s) :
    f.statements =
      f.statements.take (f.next - 1) ++ s :: f.statements.drop f.next := by
  obtain ⟨hpos, hget⟩ := taken?_eq_some_iff.1 h
  obtain ⟨hlt, hs⟩ := List.getElem?_eq_some_iff.1 hget
  have hdrop := List.drop_eq_getElem_cons hlt
  rw [hs, Nat.sub_add_cancel hpos] at hdrop
  rw [← hdrop, List.take_append_drop]

theorem actionCountList_take_add_drop (f : Frame) :
    actionCountList (f.statements.take f.next) +
        actionCountList (f.statements.drop f.next) =
      actionCountList f.statements := by
  rw [← Statement.actionCountList_append, List.take_append_drop]

/-- The course of a frame from its beginning. -/
def whole (f : Frame) : Course :=
  if f.repeats then (courseList f.statements).forever
  else courseList f.statements

theorem whole_of_cycle {f : Frame} (h : (courseList f.statements).cycle ≠ []) :
    f.whole = courseList f.statements := by
  unfold whole
  split
  · exact Course.forever_of_cycle h
  · rfl

end Frame

/-- The number of actions that frames have come past before the loops that they
are in. -/
def actionsBelow : List Frame → Nat
  | [] => 0
  | g :: below =>
    actionCountList (g.statements.take (g.next - 1)) + actionsBelow below

theorem actionsBelow_map_markProductive (frames : List Frame) :
    actionsBelow (frames.map Frame.markProductive) = actionsBelow frames := by
  induction frames with
  | nil => rfl
  | cons f below ih =>
      rw [List.map_cons, actionsBelow, actionsBelow, ih]
      rfl

/-- Whether `n` actions lead to the innermost frame, through `k` passes of it
and through what it has gone through in the present one, while the frames below
are in their first pass and in their first loop with an action. -/
structure Counted (n k : Nat) (f : Frame) (below : List Frame) : Prop where
  entered : ∀ g ∈ below,
    g.iteration = 0 ∧ Ends (g.statements.take (g.next - 1))
  passes : f.iteration = .ofNat k
  caught : k ≠ 0 → Ends f.statements
  count : n = actionsBelow below + k * actionCountList f.statements +
    actionCountList (f.statements.take f.next)

theorem Counted.map_markProductive {n k : Nat} {f : Frame}
    {below : List Frame} (h : Counted n k f below) :
    Counted n k f.markProductive (below.map Frame.markProductive) where
  entered := by
    intro g hg
    obtain ⟨g', hg', rfl⟩ := List.mem_map.1 hg
    exact h.entered g' hg'
  passes := h.passes
  caught := h.caught
  count := by
    rw [actionsBelow_map_markProductive]
    exact h.count

/-- The way to an action counts one more. -/
theorem Frame.Leads.counted {f : Frame} {a : Action} {frames : List Frame}
    (h : f.Leads a frames) (below : List Frame) {n k : Nat} (hclear : f.Clear)
    (hcounted : Counted n k f below) :
    ∃ g above k', frames ++ below = g :: above ∧
      Counted (n + 1) k' g above := by
  induction h generalizing below k with
  | @here f dead rest hdrop hdead =>
      have htake : f.statements.take (f.next + (dead.length + 1)) =
          f.statements.take f.next ++ (dead ++ [.action a]) := by
        have hdrop' : f.statements.drop f.next =
            (dead ++ [.action a]) ++ rest := by
          rw [hdrop, List.append_assoc]
          rfl
        have h := take_skip hdrop'
        rwa [List.length_append] at h
      refine ⟨f.skip (dead.length + 1), below, k, rfl, hcounted.entered,
        hcounted.passes, hcounted.caught, ?_⟩
      show n + 1 = actionsBelow below + k * actionCountList f.statements +
        actionCountList (f.statements.take (f.next + (dead.length + 1)))
      rw [htake, Statement.actionCountList_append,
        Statement.actionCountList_append, hdead, hcounted.count]
      rfl
  | @inside f dead rest b frames hdrop hdead hin ih =>
      -- The frame has a loop with an action, so it is in its first pass.
      have hmem : b.looped ∈ f.statements := by
        apply List.mem_of_mem_drop (i := f.next)
        rw [hdrop]
        simp
      obtain rfl : k = 0 := by
        by_cases hpass : k = 0
        · exact hpass
        · exact absurd (hcounted.caught hpass b hmem)
            hin.actionCountList_ne_zero
      have htake := take_skip hdrop
      have hends : Ends (f.statements.take (f.next + dead.length)) := by
        rw [htake]
        exact Statement.ends_append.2
          ⟨hclear, Statement.ends_of_actionCountList hdead⟩
      have hinner : Counted n 0 (Frame.repeating b.toList)
          (f.skip (dead.length + 1) :: below) := by
        have hfirst : f.iteration = 0 := hcounted.passes
        refine ⟨List.forall_mem_cons.2 ⟨⟨hfirst, hends⟩, hcounted.entered⟩,
          rfl, fun hne => absurd rfl hne, ?_⟩
        show n = actionCountList
          (f.statements.take (f.next + dead.length)) + actionsBelow below +
            0 * actionCountList b.toList + 0
        have hcount := hcounted.count
        rw [htake, Statement.actionCountList_append, hdead]
        omega
      obtain ⟨g, above, k', hframes, hg⟩ :=
        ih _ (clear_of_next_eq_zero rfl) hinner
      refine ⟨g, above, k', ?_, hg⟩
      rw [List.append_assoc]
      exact hframes

/-! ## The course around a frame -/

/-- A frame in a loop with an action, behind statements that end, is caught in
this loop: what comes behind it is not reached. -/
theorem Frame.course_of_taken? {g : Frame} {b : Block}
    (hb : g.taken? = some b.looped)
    (hends : Ends (g.statements.take (g.next - 1)))
    (hacts : b.actionCount ≠ 0) :
    (courseList g.statements).cycle ≠ [] ∧
      courseList g.statements =
        (⟨Statement.actionsList (g.statements.take (g.next - 1)), []⟩ :
          Course).andThen (courseList b.toList).forever ∧
      roundDepthList g.statements = roundDepthList b.toList + 1 := by
  have hcycle : b.looped.course.cycle ≠ [] := by
    intro hnil
    exact hacts ((Statement.cycle_course_eq_nil_iff _).1 hnil b
      (List.mem_singleton.2 rfl))
  have hg := statements_of_taken? hb
  have hcourse : courseList g.statements =
      (⟨Statement.actionsList (g.statements.take (g.next - 1)), []⟩ :
        Course).andThen b.looped.course := by
    rw [hg, Statement.courseList_append, courseList,
      Course.andThen_of_cycle hcycle, ← hg,
      Statement.courseList_of_ends hends]
  refine ⟨?_, ?_, ?_⟩
  · rw [hcourse, Course.cycle_andThen]
    exact hcycle
  · rw [hcourse]
    exact congrArg _ (Statement.course_loop b.first b.rest)
  · rw [hg, Statement.roundDepthList_of_ends_append hends, roundDepthList,
      if_neg hcycle, Statement.roundDepth_looped]

/-- **Around a frame.**  Behind the actions that the frames below have come
past, the course of the program is that of the innermost frame, and every frame
below is in one of the loops around the statements that are repeated. -/
theorem Nested.around {ss : List Statement} {f : Frame} {below : List Frame}
    (h : Nested ss (f :: below))
    (hentered : ∀ g ∈ below, Ends (g.statements.take (g.next - 1)))
    (hlive : f.repeats = true → actionCountList f.statements ≠ 0) :
    ∃ us, us.length = actionsBelow below ∧
      courseList ss = (⟨us, []⟩ : Course).andThen f.whole ∧
      roundDepthList ss = below.length + roundDepthList f.statements := by
  induction below generalizing f with
  | nil =>
      obtain ⟨hss, honce⟩ := h.1
      refine ⟨[], rfl, ?_, ?_⟩
      · rw [Frame.whole, honce, hss]
        rfl
      · rw [hss, List.length_nil, Nat.zero_add]
  | cons g below ih =>
      obtain ⟨⟨hrepeats, b, hb, hblock⟩, _, hbelow⟩ := h
      obtain ⟨hends, hothers⟩ := List.forall_mem_cons.1 hentered
      have hacts : b.actionCount ≠ 0 := by
        have hf := hlive hrepeats
        rw [hblock] at hf
        exact hf
      obtain ⟨hcycle, hcourse, hdepth⟩ := Frame.course_of_taken? hb hends hacts
      have hg : actionCountList g.statements ≠ 0 := by
        have hle : b.actionCount ≤ actionCountList g.statements :=
          Statement.actionCount_le_of_mem (Frame.mem_of_taken? hb)
        omega
      obtain ⟨us, hlength, hss, hround⟩ := ih hbelow hothers (fun _ => hg)
      refine ⟨us ++ Statement.actionsList (g.statements.take (g.next - 1)),
        ?_, ?_, ?_⟩
      · rw [List.length_append, hlength, Statement.length_actionsList,
          actionsBelow, Nat.add_comm]
      · rw [hss, Frame.whole_of_cycle hcycle, hcourse, ← Course.andThen_assoc,
          Frame.whole, if_pos hrepeats, hblock]
        rfl
      · rw [hround, hdepth, hblock, List.length_cons]
        omega

end RobotScript
