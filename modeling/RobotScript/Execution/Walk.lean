import RobotScript.Execution.Frame
import RobotScript.Journal.Message

/-!
# Walking to the next action

The walk through a program is a stack of frames, innermost first.  One tick
moves it by one statement or past the end of one sequence:

* an action is reached, and every pass under way is now productive;
* a loop puts a frame for its block on top;
* at the end of a sequence its frame starts over if it is a loop whose pass was
  productive, and is dropped otherwise.

Walking is ticking until an action is reached or no frame is left.  It always
ends, whatever the stack looks like: `Frame.effort` bounds the ticks that a
frame can still cause before the next action, counting one further pass for a
productive loop, and every tick lowers the sum over the stack.
-/

namespace RobotScript

/-- What one tick does to a stack of frames. -/
inductive Tick where
  /-- The next action has been reached. -/
  | reached (a : Action) (frames : List Frame)
  /-- The walk has moved without reaching an action, perhaps with something to
  note in the journal. -/
  | moved (frames : List Frame) (note : Option Message)
  /-- No frame is left. -/
  | exhausted

/-- Moves past one statement, or past the end of one sequence. -/
def tick : List Frame → Tick
  | [] => .exhausted
  | frame :: below =>
    let depth := below.length + 1
    match frame.advance? with
    | some (.action a, frame) =>
      .reached a ((frame :: below).map Frame.markProductive)
    | some (.loop first rest, frame) =>
      .moved (Frame.repeating (first :: rest) :: frame :: below) none
    | some (.nop, frame) => .moved (frame :: below) none
    | none =>
      if frame.repeats then
        if frame.productive then
          .moved (frame.rewind :: below)
            (some (.iterationBegun depth (frame.iteration + 1)))
        else
          .moved below (some (.loopAbandoned depth))
      else
        .moved below none

/-! ## Walking ends -/

namespace Statement

mutual

/-- The ticks that a statement takes at most if it holds no action. -/
def effort : Statement → Nat
  | .action _ => 1
  | .loop first rest => 2 + (first.effort + effortList rest)
  | .nop => 1

/-- The ticks that a list of statements takes at most if it holds no
action. -/
def effortList : List Statement → Nat
  | [] => 0
  | s :: rest => s.effort + effortList rest

end

/-- The effort ahead is that of the next statement and of those after it. -/
theorem effortList_drop {ss : List Statement} {i : Nat} {s : Statement}
    (h : ss[i]? = some s) :
    effortList (ss.drop i) = s.effort + effortList (ss.drop (i + 1)) := by
  obtain ⟨hi, rfl⟩ := List.getElem?_eq_some_iff.1 h
  rw [List.drop_eq_getElem_cons hi, effortList]

end Statement

/-- The ticks that a frame can still cause before the next action, at most. -/
def Frame.effort (f : Frame) : Nat :=
  Statement.effortList (f.statements.drop f.next) + 1 +
    if f.repeats && f.productive then
      Statement.effortList f.statements + 1
    else 0

/-- The ticks that a stack can still cause before the next action, at most. -/
def stackEffort : List Frame → Nat
  | [] => 0
  | f :: below => f.effort + stackEffort below

theorem Frame.effort_repeating (ss : List Statement) :
    (Frame.repeating ss).effort = Statement.effortList ss + 1 := by
  simp [Frame.effort, Frame.repeating]

theorem Frame.effort_rewind (f : Frame) :
    f.rewind.effort = Statement.effortList f.statements + 1 := by
  simp [Frame.effort, Frame.rewind]

theorem Frame.effort_advance {f f' : Frame} {s : Statement}
    (h : f.advance? = some (s, f')) : f.effort = s.effort + f'.effort := by
  obtain ⟨t, ht, heq⟩ := Option.map_eq_some_iff.1 h
  obtain ⟨rfl, rfl⟩ := Prod.mk.inj heq
  simp only [Frame.effort, Statement.effortList_drop ht]
  omega

/-- A tick that does not reach an action leaves less to do. -/
theorem stackEffort_tick_lt {frames frames' : List Frame}
    {note : Option Message} (h : tick frames = .moved frames' note) :
    stackEffort frames' < stackEffort frames := by
  unfold tick at h
  split at h
  · cases h
  · next f below =>
    simp only at h
    split at h
    · cases h
    · next first rest f' hf =>
      cases h
      simp only [stackEffort, Frame.effort_advance hf, Frame.effort_repeating,
        Statement.effort, Statement.effortList]
      omega
    · next f' hf =>
      cases h
      simp only [stackEffort, Frame.effort_advance hf, Statement.effort]
      omega
    · next hf =>
      split at h
      · next hr =>
        split at h
        · next hp =>
          cases h
          have hf : f.rewind.effort < f.effort := by
            simp only [Frame.effort_rewind]
            simp only [Frame.effort, hr, hp, Bool.and_self, if_true]
            omega
          simp only [stackEffort]
          omega
        · cases h
          simp only [stackEffort, Frame.effort]
          omega
      · cases h
        simp only [stackEffort, Frame.effort]
        omega

/-! ## The walk -/

/-- The next action and the stack after it, or `none` if no action is left. -/
def walk (frames : List Frame) : Option (Action × List Frame) :=
  match _h : tick frames with
  | .reached a after => some (a, after)
  | .moved after _ => walk after
  | .exhausted => none
termination_by stackEffort frames
decreasing_by exact stackEffort_tick_lt _h

theorem walk_of_reached {frames after : List Frame} {a : Action}
    (h : tick frames = .reached a after) : walk frames = some (a, after) := by
  rw [walk, h]

theorem walk_of_moved {frames after : List Frame} {note : Option Message}
    (h : tick frames = .moved after note) : walk frames = walk after := by
  rw [walk, h]

theorem walk_of_exhausted {frames : List Frame}
    (h : tick frames = .exhausted) : walk frames = none := by
  rw [walk, h]

/-- The messages of walking to the next action, behind earlier ones, the last
one first. -/
def walkJournalFrom (noted : List Message) (frames : List Frame) :
    List Message :=
  match _h : tick frames with
  | .reached _ _ => noted.reverse
  | .moved after note => walkJournalFrom (note.toList ++ noted) after
  | .exhausted => noted.reverse
termination_by stackEffort frames
decreasing_by exact stackEffort_tick_lt _h

/-- The journal of walking to the next action. -/
def walkJournal (frames : List Frame) : List Message :=
  walkJournalFrom [] frames

end RobotScript
