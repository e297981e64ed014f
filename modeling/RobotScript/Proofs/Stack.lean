import RobotScript.Proofs.Acceptance
import RobotScript.Proofs.Driving

/-!
# The stack of frames

The frames of an execution are not any frames.  The outermost one walks through
the statements of the program once; every other one repeats the block of the
loop that was taken last in the frame around it.  So the stack is a path into
the program, from the outermost statements down to the block that is being
walked through, and it cannot be longer than loops are nested there, however
often they start over.

The invariant is `Nested`, said from the innermost frame outwards.  It survives
every tick: advancing and starting over leave the statements of a frame as they
are, a loop that is entered has just been taken in the frame below, and
dropping the innermost frame leaves the others alone.

## Main results

* `Nested.moves`, `Nested.walk` — what a tick and a walk preserve.
* `Reachable.nested` — the frames of every reachable execution are nested.
* `Nested.length_le` — nested frames are no more than the loops allow.
* `frames_nested` — what the frames of a reachable execution look like, and how
  many there can be.
-/

namespace RobotScript

open Statement (nestingList)

/-! ## Frames in frames -/

namespace Frame

/-- The statement taken last in the present pass. -/
def taken? (f : Frame) : Option Statement :=
  if f.next = 0 then none else f.statements[f.next - 1]?

theorem advance?_eq_some_iff {f f' : Frame} {s : Statement} :
    f.advance? = some (s, f') ↔
      f.statements[f.next]? = some s ∧ f' = { f with next := f.next + 1 } := by
  simp only [advance?, Option.map_eq_some_iff, Prod.mk.injEq]
  constructor
  · rintro ⟨t, ht, rfl, rfl⟩
    exact ⟨ht, rfl⟩
  · rintro ⟨hs, rfl⟩
    exact ⟨s, hs, rfl, rfl⟩

theorem taken?_eq_some_iff {f : Frame} {s : Statement} :
    f.taken? = some s ↔
      0 < f.next ∧ f.statements[f.next - 1]? = some s := by
  unfold taken?
  split
  · simp [*]
  · next hnext => exact ⟨fun h => ⟨by omega, h⟩, fun h => h.2⟩

theorem taken?_of_advance {f f' : Frame} {s : Statement}
    (h : f.advance? = some (s, f')) : f'.taken? = some s := by
  obtain ⟨hs, rfl⟩ := advance?_eq_some_iff.1 h
  exact hs

/-- Whether a frame belongs on the frames below it, in a program with the
statements `ss`: without a frame below it walks through the program once, and
otherwise it repeats the block of the loop taken last below. -/
def Fits (ss : List Statement) (f : Frame) : List Frame → Prop
  | [] => f.statements = ss ∧ f.repeats = false
  | g :: _ =>
    f.repeats = true ∧
      ∃ b : Block, g.taken? = some b.looped ∧ f.statements = b.toList

end Frame

/-- Whether the frames of a stack belong on one another, with no frame beyond
the end of its statements. -/
def Nested (ss : List Statement) : List Frame → Prop
  | [] => True
  | f :: below =>
    f.Fits ss below ∧ f.next ≤ f.statements.length ∧ Nested ss below

namespace Nested

variable {ss : List Statement} {f : Frame} {frames after below : List Frame}
  {note : Option Message} {a : Action}

theorem of_append {above : List Frame} (h : Nested ss (above ++ below)) :
    Nested ss below := by
  induction above with
  | nil => exact h
  | cons g above ih => exact ih h.2.2

/-- A frame that does not start over is the outermost one. -/
theorem below_eq_nil (h : Nested ss (f :: below))
    (honce : f.repeats = false) : below = [] := by
  have hfits := h.1
  cases below with
  | nil => rfl
  | cons g below =>
      rw [hfits.1] at honce
      cases honce

/-- The innermost frame can be exchanged for one with the same statements. -/
theorem exchange {f' : Frame} (h : Nested ss (f :: below))
    (hstatements : f'.statements = f.statements)
    (hrepeats : f'.repeats = f.repeats)
    (hnext : f'.next ≤ f.statements.length) : Nested ss (f' :: below) := by
  refine ⟨?_, by rw [hstatements]; exact hnext, h.2.2⟩
  have hfits := h.1
  cases below with
  | nil => exact ⟨hstatements.trans hfits.1, hrepeats.trans hfits.2⟩
  | cons g below =>
      obtain ⟨hrep, b, hb, hss⟩ := hfits
      exact ⟨hrepeats.trans hrep, b, hb, hstatements.trans hss⟩

theorem advance {f' : Frame} {s : Statement} (h : Nested ss (f :: below))
    (hf : f.advance? = some (s, f')) : Nested ss (f' :: below) := by
  obtain ⟨hs, rfl⟩ := Frame.advance?_eq_some_iff.1 hf
  obtain ⟨hlt, _⟩ := List.getElem?_eq_some_iff.1 hs
  exact h.exchange rfl rfl hlt

/-- **One tick** that reaches no action keeps the frames nested. -/
theorem moves (h : Nested ss frames) (hmoves : Moves frames after note) :
    Nested ss after := by
  cases hmoves with
  | @enter f f' first rest below hf =>
      refine ⟨⟨rfl, ⟨first, rest⟩, ?_, rfl⟩, Nat.zero_le _, h.advance hf⟩
      exact Frame.taken?_of_advance hf
  | skip below hf => exact h.advance hf
  | rewind below => exact h.exchange rfl rfl (Nat.zero_le _)
  | abandon => exact h.2.2
  | leave => exact h.2.2

theorem map_markProductive (h : Nested ss frames) :
    Nested ss (frames.map Frame.markProductive) := by
  induction frames with
  | nil => exact h
  | cons f below ih =>
      refine ⟨?_, h.2.1, ih h.2.2⟩
      have hfits := h.1
      cases below with
      | nil => exact hfits
      | cons g below => exact hfits

/-- **A walk** keeps the frames nested. -/
theorem walk (h : Nested ss frames)
    (hwalk : RobotScript.walk frames = some (a, after)) : Nested ss after := by
  fun_induction RobotScript.walk frames with
  | case1 frames b stack hreached =>
      cases hwalk
      obtain ⟨f, f', below, rfl, hf, rfl⟩ := advance_of_tick_reached hreached
      exact (h.advance hf).map_markProductive
  | case2 frames stack note hmoved ih =>
      exact ih (h.moves (moves_of_tick hmoved)) hwalk
  | case3 => cases hwalk

end Nested

/-! ## How deep frames can be nested -/

theorem Statement.nesting_le_of_mem {s : Statement} {ss : List Statement}
    (h : s ∈ ss) : s.nesting ≤ nestingList ss := by
  induction ss with
  | nil => cases h
  | cons t ss ih =>
      rw [nestingList]
      rcases List.mem_cons.1 h with rfl | h
      · omega
      · have := ih h
        omega

theorem Frame.mem_of_taken? {f : Frame} {s : Statement}
    (h : f.taken? = some s) : s ∈ f.statements :=
  List.mem_of_getElem? (taken?_eq_some_iff.1 h).2

namespace Nested

variable {ss : List Statement} {frames : List Frame}

/-- With every frame, the statements inside have one loop less around them. -/
theorem length_add_nesting_le {f : Frame} {below : List Frame}
    (h : Nested ss (f :: below)) :
    below.length + nestingList f.statements ≤ nestingList ss := by
  induction below generalizing f with
  | nil =>
      rw [h.1.1, List.length_nil]
      omega
  | cons g below ih =>
      obtain ⟨⟨_, b, hb, hf⟩, _, hbelow⟩ := h
      have hloop : b.looped.nesting ≤ nestingList g.statements :=
        Statement.nesting_le_of_mem (Frame.mem_of_taken? hb)
      have hblock : b.looped.nesting = nestingList f.statements + 1 := by
        rw [hf]
        rfl
      have := ih hbelow
      rw [List.length_cons]
      omega

theorem length_le (h : Nested ss frames) :
    frames.length ≤ 1 + nestingList ss := by
  cases frames with
  | nil => exact Nat.zero_le _
  | cons f below =>
      have := h.length_add_nesting_le
      rw [List.length_cons]
      omega

end Nested

/-! ## Reachable executions -/

namespace Execution

theorem nested_start (p : Program) : Nested p.statements (start p).frames :=
  ⟨⟨rfl, rfl⟩, Nat.zero_le _, trivial⟩

/-- **The frames of a reachable execution are nested.** -/
theorem Reachable.nested {p : Program} {x : Execution} (hx : Reachable p x) :
    Nested p.statements x.frames := by
  induction hx with
  | start => exact nested_start p
  | @step σ ε x x' s s' robot hx h ih =>
      have hstepped := stepped robot x s
      generalize Execution.step robot (x, s) = r at h hstepped
      cases hstepped with
      | halted _ =>
          cases h
          exact ih
      | finished _ _ =>
          cases h
          exact trivial
      | performed _ hwalk _ =>
          cases h
          exact ih.walk hwalk
      | refused _ hwalk _ =>
          cases h
          exact ih.walk hwalk

/-- **The frames of an execution** that has made any number of steps, with any
robots, innermost first.

* The outermost one walks through the statements of the program once.
* Every other one repeats the block of the loop taken last in the frame below
  it, the one at the index before the next.
* None is beyond the end of its statements.
* There is at most one more than loops are nested in the program; for a program
  that has been read there are at most 257. -/
theorem frames_nested (p : Program) {x : Execution} (hx : Reachable p x) :
    (∀ above f, x.frames = above ++ [f] →
      f.statements = p.statements ∧ f.repeats = false) ∧
    (∀ above f g below, x.frames = above ++ f :: g :: below →
      f.repeats = true ∧ 0 < g.next ∧
        ∃ b : Block, g.statements[g.next - 1]? = some b.looped ∧
          f.statements = b.toList) ∧
    (∀ f ∈ x.frames, f.next ≤ f.statements.length) ∧
    x.depth ≤ 1 + p.nesting ∧
    (∀ source, Program.parse source = .ok p → x.depth ≤ 257) := by
  have hnested := hx.nested
  have hdepth : x.depth ≤ 1 + p.nesting := hnested.length_le
  refine ⟨?_, ?_, ?_, hdepth, ?_⟩
  · intro above f hframes
    rw [hframes] at hnested
    exact hnested.of_append.1
  · intro above f g below hframes
    rw [hframes] at hnested
    obtain ⟨hrepeats, b, hb, hf⟩ := hnested.of_append.1
    obtain ⟨hpos, hget⟩ := Frame.taken?_eq_some_iff.1 hb
    exact ⟨hrepeats, hpos, b, hget, hf⟩
  · intro f hf
    obtain ⟨above, below, hframes⟩ := List.append_of_mem hf
    rw [hframes] at hnested
    exact hnested.of_append.2.1
  · intro source hparse
    have hnesting : p.nesting ≤ 256 := (parse_eq_ok_iff.1 hparse).2.2
    omega

/-- A loop in a loop that has started over: there are as many frames as there
can be, and the innermost one repeats the block of the loop below. -/
theorem frames_nested_started_over :
    let p : Program := ⟨[.action .wait, .loop (.loop (.action .move) []) []]⟩
    let x : Execution :=
      { frames :=
          [⟨[.action .move], 1, true, 1, true⟩,
            ⟨[.loop (.action .move) []], 1, true, 0, true⟩,
            ⟨p.statements, 2, false, 0, true⟩]
        steps := 3 }
    Program.parse "wait; loop \x7b loop \x7b move; \x7d \x7d" = .ok p ∧
      Reachable p x ∧ x.depth = 1 + p.nesting ∧ x.depth ≤ 257 ∧
      ∃ b : Block, b.toList = [.action .move] ∧
        [Statement.loop (.action .move) []][1 - 1]? = some b.looped := by
  intro p x
  have hparse : Program.parse "wait; loop \x7b loop \x7b move; \x7d \x7d" =
      .ok p := parse_eq_ok_iff.2 (by decide)
  have hrun : driven Recorder.robot [.runToEnd 3] (start p, {}) =
      (x, ⟨#[.wait, .move, .move], none⟩) := by cbv
  have hx : Reachable p x := Reachable.start.driven hrun
  obtain ⟨-, hinner, -, -, hread⟩ := frames_nested p hx
  obtain ⟨-, -, b, hb, hblock⟩ := hinner [] _ _ _ rfl
  exact ⟨hparse, hx, by decide, hread _ hparse, b, hblock.symm, hb⟩

end Execution

end RobotScript
