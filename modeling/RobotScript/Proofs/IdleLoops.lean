import RobotScript.Proofs.Passage

/-!
# Loops without an action

Whether a program comes to an end, what it performs until then and which loop
it is caught in can be told from the tree.  A loop without an action makes no
difference to the course.  So statements among which there is no other loop,
`Statement.Ends`, have a course that ends, and it consists of the actions
written in them from left to right.  Any other statements are caught in the
first loop with an action, or in a loop inside of it.

A script cannot spell a loop without an action: there is no empty block, and
what is in a block is an action or another loop.

## Main results

* `Statement.courseList_of_ends`, `Statement.cycle_courseList_eq_nil_iff` —
  statements whose course ends.
* `Statement.length_abandonments` — one message for every loop that is left.
* `Statement.roundDepthList_of_ends_append` — the depth of the loop that
  statements are caught in.
* `Program.one_le_actionCount_of_parse` — every loop of a program that has been
  read has an action.
-/

namespace RobotScript

/-! ## Courses that end -/

namespace Course

theorem cycle_andThen_eq_nil_iff {c d : Course} :
    (c.andThen d).cycle = [] ↔ c.cycle = [] ∧ d.cycle = [] := by
  by_cases h : c.cycle = []
  · simp [andThen, h]
  · simp [andThen, h]

theorem cycle_forever_eq_nil_iff {c : Course} :
    c.forever.cycle = [] ↔ c = .empty := by
  constructor
  · intro h
    by_cases hc : c = .empty
    · exact hc
    · exact absurd h (forever_cycle_ne_nil hc)
  · rintro rfl
    rfl

theorem forever_of_cycle {c : Course} (h : c.cycle ≠ []) : c.forever = c :=
  if_neg h

/-- The lead of a course that is begun behind the actions `us`. -/
theorem lead_andThen (us : List Action) (c : Course) :
    ((⟨us, []⟩ : Course).andThen c).lead = us ++ c.lead :=
  rfl

theorem cycle_andThen (us : List Action) (c : Course) :
    ((⟨us, []⟩ : Course).andThen c).cycle = c.cycle :=
  rfl

end Course

namespace Statement

mutual

/-- The actions written in a statement, from left to right. -/
def actions : Statement → List Action
  | .action a => [a]
  | .loop first rest => first.actions ++ actionsList rest
  | .nop => []

/-- The actions written in a list of statements, from left to right. -/
def actionsList : List Statement → List Action
  | [] => []
  | s :: rest => s.actions ++ actionsList rest

end

mutual

theorem length_actions : (s : Statement) → s.actions.length = s.actionCount
  | .action _ => rfl
  | .loop first rest => by
      rw [actions, List.length_append, length_actions first,
        length_actionsList rest, actionCount]
  | .nop => rfl

theorem length_actionsList : (ss : List Statement) →
    (actionsList ss).length = actionCountList ss
  | [] => rfl
  | s :: rest => by
      rw [actionsList, List.length_append, length_actions s,
        length_actionsList rest, actionCountList]

end

/-- Whether none of the statements is a loop with an action; what is inside of
the loops does not matter otherwise. -/
def Ends (ss : List Statement) : Prop :=
  ∀ b : Block, b.looped ∈ ss → b.actionCount = 0

theorem ends_append {ss ts : List Statement} :
    Ends (ss ++ ts) ↔ Ends ss ∧ Ends ts := by
  constructor
  · intro h
    exact ⟨fun b hb => h b (List.mem_append_left ts hb),
      fun b hb => h b (List.mem_append_right ss hb)⟩
  · rintro ⟨hss, hts⟩ b hb
    rcases List.mem_append.1 hb with hb | hb
    · exact hss b hb
    · exact hts b hb

/-- Statements without an action are not caught in a loop. -/
theorem ends_of_actionCountList {ss : List Statement}
    (h : actionCountList ss = 0) : Ends ss := by
  intro b hb
  have hle : b.actionCount ≤ actionCountList ss := actionCount_le_of_mem hb
  omega

theorem ends_take_drop {ss : List Statement} {n : Nat}
    (htake : Ends (ss.take n)) (hdrop : Ends (ss.drop n)) : Ends ss := by
  have h := ends_append.2 ⟨htake, hdrop⟩
  rwa [List.take_append_drop] at h

theorem courseList_append (ss ts : List Statement) :
    courseList (ss ++ ts) = (courseList ss).andThen (courseList ts) := by
  induction ss with
  | nil => rfl
  | cons s ss ih =>
      rw [List.cons_append, courseList, courseList, ih, Course.andThen_assoc]

/-- A statement that is not a loop with an action contributes the actions
written in it. -/
theorem course_of_ends {s : Statement} (h : Ends [s]) :
    s.course = ⟨s.actions, []⟩ := by
  cases s with
  | action a => rfl
  | loop first rest =>
      have hcount : (Statement.loop first rest).actionCount = 0 :=
        h ⟨first, rest⟩ (List.mem_singleton.2 rfl)
      have hactions : (Statement.loop first rest).actions = [] := by
        rw [← List.length_eq_zero_iff, length_actions, hcount]
      rw [(course_eq_empty_iff _).2 hcount, hactions]
      rfl
  | nop => rfl

/-- **The course of statements that end** consists of the actions written in
them. -/
theorem courseList_of_ends {ss : List Statement} (h : Ends ss) :
    courseList ss = ⟨actionsList ss, []⟩ := by
  induction ss with
  | nil => rfl
  | cons s ss ih =>
      obtain ⟨hs, hss⟩ := ends_append.1 (show Ends ([s] ++ ss) from h)
      rw [courseList, course_of_ends hs, ih hss]
      rfl

theorem cycle_course_eq_nil_iff (s : Statement) :
    s.course.cycle = [] ↔ Ends [s] := by
  constructor
  · intro h b hb
    obtain rfl := List.mem_singleton.1 hb
    have hempty : courseList b.toList = .empty := by
      rw [Block.looped, course_loop] at h
      exact Course.cycle_forever_eq_nil_iff.1 h
    exact (courseList_eq_empty_iff _).1 hempty
  · intro h
    rw [course_of_ends h]

/-- **A course ends** exactly if none of the statements is a loop with an
action. -/
theorem cycle_courseList_eq_nil_iff (ss : List Statement) :
    (courseList ss).cycle = [] ↔ Ends ss := by
  induction ss with
  | nil => exact iff_of_true rfl nofun
  | cons s ss ih =>
      rw [courseList, Course.cycle_andThen_eq_nil_iff, ih,
        cycle_course_eq_nil_iff, ← ends_append]
      rfl

/-! ## Counting loops -/

mutual

/-- The number of loops in a statement, itself included. -/
def loopCount : Statement → Nat
  | .action _ => 0
  | .loop first rest => first.loopCount + loopCountList rest + 1
  | .nop => 0

/-- The number of loops in a list of statements. -/
def loopCountList : List Statement → Nat
  | [] => 0
  | s :: rest => s.loopCount + loopCountList rest

end

mutual

/-- One message is noted for every loop that is left. -/
theorem length_abandonments (depth : Nat) : (s : Statement) →
    (s.abandonments depth).length = s.loopCount
  | .action _ => rfl
  | .loop first rest => by
      simp only [abandonments, List.length_append, List.length_singleton,
        length_abandonments (depth + 1) first,
        length_abandonmentsList (depth + 1) rest, loopCount]
  | .nop => rfl

theorem length_abandonmentsList (depth : Nat) : (ss : List Statement) →
    (abandonmentsList depth ss).length = loopCountList ss
  | [] => rfl
  | s :: rest => by
      rw [abandonmentsList, List.length_append, length_abandonments depth s,
        length_abandonmentsList depth rest, loopCountList]

end

/-! ## The loop that statements are caught in -/

mutual

/-- The number of loops around the statements that a statement comes to repeat
for ever, itself included. -/
def roundDepth : Statement → Nat
  | .action _ => 0
  | .loop first rest =>
    (if first.course.cycle = [] then roundDepthList rest
      else first.roundDepth) + 1
  | .nop => 0

/-- The number of loops around those among the statements that come to be
repeated for ever. -/
def roundDepthList : List Statement → Nat
  | [] => 0
  | s :: rest =>
    if s.course.cycle = [] then roundDepthList rest else s.roundDepth

end

theorem roundDepth_looped (b : Block) :
    b.looped.roundDepth = roundDepthList b.toList + 1 := rfl

/-- Statements that end are passed over. -/
theorem roundDepthList_of_ends_append {ss : List Statement} (h : Ends ss)
    (ts : List Statement) :
    roundDepthList (ss ++ ts) = roundDepthList ts := by
  induction ss with
  | nil => rfl
  | cons s ss ih =>
      obtain ⟨hs, hss⟩ := ends_append.1 (show Ends ([s] ++ ss) from h)
      rw [List.cons_append, roundDepthList,
        if_pos ((cycle_course_eq_nil_iff s).2 hs), ih hss]

theorem roundDepthList_of_ends {ss : List Statement} (h : Ends ss) :
    roundDepthList ss = 0 := by
  have happend := roundDepthList_of_ends_append h []
  rwa [List.append_nil] at happend

/-! ## Statements without a `nop` -/

theorem nopFree_of_mem {s : Statement} {ss : List Statement}
    (h : nopFreeList ss = true) (hs : s ∈ ss) : s.nopFree = true := by
  obtain ⟨before, behind, rfl⟩ := List.append_of_mem hs
  rw [nopFreeList_append, nopFreeList, Bool.and_eq_true, Bool.and_eq_true] at h
  exact h.2.1

/-- A statement without a `nop` has an action. -/
theorem actionCount_ne_zero_of_nopFree {s : Statement}
    (h : s.nopFree = true) : s.actionCount ≠ 0 := by
  induction s using Statement.induction with
  | action a => exact Nat.one_ne_zero
  | loop first rest ih =>
      have hblock : nopFreeList (first :: rest) = true := h
      have hfirst := ih first List.mem_cons_self
        (nopFree_of_mem hblock List.mem_cons_self)
      rw [actionCount]
      omega
  | nop => cases h

theorem nopFree_of_descend? {s t : Statement} {q : List Nat}
    (h : s.nopFree = true) (ht : s.descend? q = some t) :
    t.nopFree = true := by
  induction q generalizing s with
  | nil =>
      obtain rfl := Option.some.inj ht
      exact h
  | cons i q ih =>
      obtain ⟨u, hu, hdescend⟩ := Option.bind_eq_some_iff.1 ht
      have hmem : u ∈ s.children := List.mem_of_getElem? hu
      have hchildren : nopFreeList s.children = true := by
        cases s with
        | action a => rfl
        | loop first rest => exact h
        | nop => rfl
      exact ih (nopFree_of_mem hchildren hmem) hdescend

end Statement

/-! ## Programs -/

namespace Program

/-- The actions written in a program, from left to right. -/
def actions (p : Program) : List Action :=
  Statement.actionsList p.statements

/-- The number of loops around the statements that a program comes to repeat
for ever; 0 if it ends. -/
def roundDepth (p : Program) : Nat :=
  Statement.roundDepthList p.statements

/-- **Every loop of a program that has been read has an action**, wherever it
is in the program. -/
theorem one_le_actionCount_of_parse {source : String} {p : Program}
    (h : Program.parse source = .ok p) {q : List Nat} {b : Block}
    (hb : p.statementAt? q = some b.looped) : 1 ≤ b.actionCount := by
  have hfree : Statement.nopFreeList p.statements = true :=
    (parse_eq_ok_iff.1 h).2.1
  cases q with
  | nil => cases hb
  | cons i q =>
      obtain ⟨s, hs, hdescend⟩ := Option.bind_eq_some_iff.1 hb
      have hs' := Statement.nopFree_of_mem hfree (List.mem_of_getElem? hs)
      have hloop := Statement.nopFree_of_descend? hs' hdescend
      exact Nat.one_le_iff_ne_zero.2
        (Statement.actionCount_ne_zero_of_nopFree hloop)

end Program

end RobotScript
