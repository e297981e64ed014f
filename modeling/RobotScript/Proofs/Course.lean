import RobotScript.Program.Basic

/-!
# Courses

A program is walked through by a machine with a stack, but what it asks of a
robot can be read off the tree.  It is a *course*: finitely many actions that
come once, the lead, and after them, if the program gets caught in a loop, a
cycle of actions that comes round for ever.

The course of a statement is defined by recursion on the tree.  A loop without
an action contributes nothing.  Any other loop never ends: it is caught in the
first loop inside it that never ends, or else repeats all its actions.  So
whatever stands behind the first statement with a cycle is not part of the
course.

Courses are compared by their actions, `Course.get?`, and not by their two
parts: a cycle may be unrolled into the lead without a difference.

## Main results

* `Course.get?_andThen` — the actions of one course behind another.
* `Course.get?_forever` — repeating a course is following it once and repeating
  it then.
* `Course.get?_eq_none_iff` — a course runs out exactly where it has no cycle
  and its lead is used up.
* `Statement.courseList_eq_empty_iff` — a list of statements contributes
  nothing exactly if it holds no action.
-/

namespace RobotScript

/-- The actions of `lead` once, then those of `cycle` over and over.  Without a
cycle, that is with an empty one, the course ends behind the lead. -/
structure Course where
  lead : List Action
  cycle : List Action
  deriving DecidableEq, Repr

namespace Course

/-- The course without an action. -/
def empty : Course := ⟨[], []⟩

/-- The course of a single action. -/
def single (a : Action) : Course := ⟨[a], []⟩

/-- The action number `n` of a course, counted from 0. -/
def get? (c : Course) (n : Nat) : Option Action :=
  if n < c.lead.length then
    c.lead[n]?
  else
    c.cycle[(n - c.lead.length) % c.cycle.length]?

/-- The number of actions of a course that ends. -/
def length? (c : Course) : Option Nat :=
  if c.cycle = [] then some c.lead.length else none

/-- One course and then another, which is only begun if the first one ends. -/
def andThen (c d : Course) : Course :=
  if c.cycle = [] then ⟨c.lead ++ d.lead, d.cycle⟩ else c

/-- A course over and over: one that ends becomes a cycle, and one that does
not is never done for the first time. -/
def forever (c : Course) : Course :=
  if c.cycle = [] then ⟨[], c.lead⟩ else c

/-! ## Composition -/

@[simp] theorem empty_andThen (c : Course) : empty.andThen c = c := rfl

@[simp] theorem andThen_empty (c : Course) : c.andThen empty = c := by
  obtain ⟨lead, cycle⟩ := c
  by_cases h : cycle = []
  · simp [andThen, empty, h]
  · simp [andThen, h]

theorem andThen_of_cycle {c : Course} (h : c.cycle ≠ []) (d : Course) :
    c.andThen d = c :=
  if_neg h

theorem andThen_assoc (c d e : Course) :
    (c.andThen d).andThen e = c.andThen (d.andThen e) := by
  by_cases hc : c.cycle = []
  · by_cases hd : d.cycle = []
    · simp [andThen, hc, hd]
    · simp [andThen, hc, hd]
  · rw [andThen_of_cycle hc, andThen_of_cycle hc, andThen_of_cycle hc]

@[simp] theorem andThen_eq_empty_iff {c d : Course} :
    c.andThen d = empty ↔ c = empty ∧ d = empty := by
  obtain ⟨lead, cycle⟩ := c
  obtain ⟨lead', cycle'⟩ := d
  by_cases h : cycle = []
  · simp [andThen, empty, h, and_assoc]
  · simp [andThen, empty, h]

@[simp] theorem single_ne_empty (a : Action) : single a ≠ empty := by
  simp [single, empty]

@[simp] theorem forever_empty : empty.forever = empty := rfl

theorem forever_cycle_ne_nil {c : Course} (h : c ≠ empty) :
    c.forever.cycle ≠ [] := by
  obtain ⟨lead, cycle⟩ := c
  by_cases hc : cycle = []
  · subst hc
    simpa [forever, empty] using h
  · simp [forever, hc]

@[simp] theorem forever_eq_empty_iff {c : Course} :
    c.forever = empty ↔ c = empty := by
  constructor
  · intro h
    by_cases hc : c = empty
    · exact hc
    · exact absurd (congrArg cycle h) (forever_cycle_ne_nil hc)
  · rintro rfl
    exact forever_empty

/-- A course that is repeated is never left, unless it is empty. -/
theorem forever_andThen {c : Course} (h : c ≠ empty) (d : Course) :
    c.forever.andThen d = c.forever :=
  andThen_of_cycle (forever_cycle_ne_nil h) d

/-! ## The actions of a course -/

@[simp] theorem get?_empty (n : Nat) : empty.get? n = none := by
  simp [get?, empty]

/-- A course runs out exactly where it has no cycle and its lead is used up. -/
theorem get?_eq_none_iff {c : Course} {n : Nat} :
    c.get? n = none ↔ ∃ l, c.length? = some l ∧ l ≤ n := by
  by_cases hn : n < c.lead.length
  · have hlead : c.get? n ≠ none := by simp [get?, hn]
    simp only [hlead, length?, false_iff]
    rintro ⟨l, hl, hle⟩
    split at hl
    · cases hl
      omega
    · cases hl
  · by_cases hc : c.cycle = []
    · simp [get?, length?, hn, hc, Nat.le_of_not_lt hn]
    · have hlt : (n - c.lead.length) % c.cycle.length < c.cycle.length :=
        Nat.mod_lt _ (List.length_pos_iff.2 hc)
      simp [get?, length?, hn, hc, hlt]

/-- Once a course has run out it stays so. -/
theorem get?_eq_none_of_le {c : Course} {n m : Nat} (h : c.get? n = none)
    (hle : n ≤ m) : c.get? m = none := by
  obtain ⟨l, hl, hln⟩ := get?_eq_none_iff.1 h
  exact get?_eq_none_iff.2 ⟨l, hl, by omega⟩

/-- The actions of one course behind another. -/
theorem get?_andThen (c d : Course) (n : Nat) :
    (c.andThen d).get? n =
      if c.cycle = [] ∧ c.lead.length ≤ n then
        d.get? (n - c.lead.length)
      else
        c.get? n := by
  by_cases hc : c.cycle = []
  · by_cases hn : c.lead.length ≤ n
    · have hlt : n < c.lead.length + d.lead.length ↔
          n - c.lead.length < d.lead.length := by omega
      simp [andThen, get?, hc, hn, hlt, Nat.sub_add_eq,
        List.getElem?_append_right hn]
    · have hlt : n < c.lead.length := by omega
      have hlt' : n < c.lead.length + d.lead.length := by omega
      simp [andThen, get?, hc, hn, hlt, hlt']
  · simp [andThen_of_cycle hc, hc]

@[simp] theorem get?_single_andThen_zero (a : Action) (c : Course) :
    ((single a).andThen c).get? 0 = some a := by
  simp [single, andThen, get?]

@[simp] theorem get?_single_andThen_succ (a : Action) (c : Course) (n : Nat) :
    ((single a).andThen c).get? (n + 1) = c.get? n := by
  rw [get?_andThen]
  simp [single]

/-- **Unrolling.**  Repeating a course is following it once and repeating it
then. -/
theorem get?_forever (c : Course) :
    (c.andThen c.forever).get? = c.forever.get? := by
  funext n
  by_cases hc : c.cycle = []
  · rw [get?_andThen]
    by_cases hn : c.lead.length ≤ n
    · simp [hc, hn, forever, get?, Nat.mod_eq_sub_mod hn]
    · have hlt : n < c.lead.length := by omega
      simp [hc, hn, forever, get?, hlt, Nat.mod_eq_of_lt hlt]
  · rw [andThen_of_cycle hc, forever, if_neg hc]

end Course

/-! ## The course of a program -/

namespace Statement

mutual

/-- The course of a statement. -/
def course : Statement → Course
  | .action a => .single a
  | .loop first rest =>
    if first.actionCount + actionCountList rest = 0 then
      .empty
    else
      (first.course.andThen (courseList rest)).forever
  | .nop => .empty

/-- The course of a list of statements. -/
def courseList : List Statement → Course
  | [] => .empty
  | s :: rest => s.course.andThen (courseList rest)

end

mutual

/-- A statement contributes nothing exactly if it holds no action. -/
theorem course_eq_empty_iff :
    (s : Statement) → (s.course = .empty ↔ s.actionCount = 0)
  | .action a => by simp [course, actionCount]
  | .loop first rest => by
      have hfirst := course_eq_empty_iff first
      have hrest := courseList_eq_empty_iff rest
      by_cases h : first.actionCount + actionCountList rest = 0
      · simp [course, actionCount, h]
      · rw [course, if_neg h, Course.forever_eq_empty_iff,
          Course.andThen_eq_empty_iff, hfirst, hrest, actionCount]
        omega
  | .nop => by simp [course, actionCount]

/-- A list of statements contributes nothing exactly if it holds no action. -/
theorem courseList_eq_empty_iff :
    (ss : List Statement) → (courseList ss = .empty ↔ actionCountList ss = 0)
  | [] => by simp [courseList, actionCountList]
  | s :: rest => by
      have hs := course_eq_empty_iff s
      have hrest := courseList_eq_empty_iff rest
      simp only [courseList, actionCountList, Course.andThen_eq_empty_iff, hs,
        hrest]
      omega

end

/-- The course of a loop is that of its block over and over; a block without an
action needs no exception. -/
theorem course_loop (first : Statement) (rest : List Statement) :
    (Statement.loop first rest).course =
      (courseList (first :: rest)).forever := by
  by_cases h : first.actionCount + actionCountList rest = 0
  · have hempty : courseList (first :: rest) = .empty :=
      (courseList_eq_empty_iff _).2 h
    rw [course, if_pos h, hempty, Course.forever_empty]
  · rw [course, if_neg h, courseList]

end Statement

/-- The course of a program. -/
def Program.course (p : Program) : Course :=
  Statement.courseList p.statements

end RobotScript
