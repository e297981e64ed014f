import RobotScript.Proofs.Passage

/-!
# Ends of passes

At the end of a pass the walk looks at a flag.  A loop that is marked starts
over, and a loop that is not marked is left.  The flag is raised on all frames
by an action and cleared by starting over, and two things rest on it.

**Walking ends**, from whatever stack.  Starting over clears the flag, and only
an action raises it again, which ends the walk.  So a frame starts over at most
once in a walk, and `stackEffort` bounds the ticks.

**The flag tells the truth** on the stacks of an execution.  It is not a
property of any stack: a frame put together by hand may be at the end of a pass
over an action and not be marked.  Where the frames nest and were marked by a
walk, a marked frame has an action, and of a frame that is not marked all that
it has gone through is without one.  The loop it is inside of does not count
yet; when that loop is left, it has turned out to be without one too.  So at the
end of a pass the flag says whether the block has an action.

## Main results

* `add_stackEffort_le` — what a number of ticks costs.
* `walk_ends` — the number of ticks of a walk, and where they lead.
* `Standing.moves`, `Standing.reached` — what a tick preserves.
* `Reachable.standing` — the stacks of an execution nest and have true flags.
* `Standing.tick_of_end` — what happens at the end of a pass.
-/

namespace RobotScript

open Statement (actionCountList)

/-! ## Walking ends -/

/-- The stack after `n` ticks that reach no action, if so many can be made. -/
def ticks : Nat → List Frame → Option (List Frame)
  | 0, frames => some frames
  | n + 1, frames =>
    match tick frames with
    | .moved after _ => ticks n after
    | .reached _ _ => none
    | .exhausted => none

theorem ticks_succ_of_moved {frames after : List Frame}
    {note : Option Message} (h : tick frames = .moved after note) (n : Nat) :
    ticks (n + 1) frames = ticks n after := by
  simp only [ticks, h]

/-- Every tick takes at least one from the effort that is left. -/
theorem add_stackEffort_le {n : Nat} {frames after : List Frame}
    (h : ticks n frames = some after) :
    n + stackEffort after ≤ stackEffort frames := by
  induction n generalizing frames with
  | zero =>
      obtain rfl := Option.some.inj h
      omega
  | succ n ih =>
      simp only [ticks] at h
      split at h
      · next between note hmoved =>
        have hlt := stackEffort_tick_lt hmoved
        have hle := ih h
        omega
      · cases h
      · cases h

/-- A tick that does not move the stack is the last one. -/
theorem ticks_eq_none {frames : List Frame}
    (h : ∀ after note, tick frames ≠ .moved after note) {n : Nat}
    (hn : 0 < n) : ticks n frames = none := by
  cases n with
  | zero => omega
  | succ n =>
      simp only [ticks]
      split
      · next after note hmoved => exact absurd hmoved (h after note)
      · rfl
      · rfl

/-- **Walking ends.**  From every stack of frames, whatever their statements,
places, counts and flags, a certain number of ticks can be made that reach no
action, and no more.  They are at most as many as the effort of the stack.  The
tick behind them reaches an action, or there is no frame left; the walk is what
these ticks come to. -/
theorem walk_ends (frames : List Frame) :
    ∃ n last, n ≤ stackEffort frames ∧ ticks n frames = some last ∧
      (∀ m, n < m → ticks m frames = none) ∧
      ((∃ a after, tick last = .reached a after ∧
          walk frames = some (a, after)) ∨
        last = [] ∧ walk frames = none) := by
  suffices h : ∃ n last, ticks n frames = some last ∧
      (∀ m, n < m → ticks m frames = none) ∧
      ((∃ a after, tick last = .reached a after ∧
          walk frames = some (a, after)) ∨
        last = [] ∧ walk frames = none) by
    obtain ⟨n, last, hticks, hend⟩ := h
    have hle := add_stackEffort_le hticks
    exact ⟨n, last, by omega, hticks, hend⟩
  induction frames using walk.induct with
  | case1 frames a after hreached =>
      refine ⟨0, frames, rfl, fun m hm => ticks_eq_none ?_ hm,
        .inl ⟨a, after, hreached, walk_of_reached hreached⟩⟩
      simp [hreached]
  | case2 frames after note hmoved ih =>
      obtain ⟨n, last, hticks, hmore, hlast⟩ := ih
      rw [← walk_of_moved hmoved] at hlast
      refine ⟨n + 1, last, (ticks_succ_of_moved hmoved n).trans hticks, ?_,
        hlast⟩
      intro m hm
      obtain ⟨k, rfl⟩ : ∃ k, m = k + 1 := ⟨m - 1, by omega⟩
      rw [ticks_succ_of_moved hmoved]
      exact hmore k (by omega)
  | case3 frames hexhausted =>
      refine ⟨0, frames, rfl, fun m hm => ticks_eq_none ?_ hm,
        .inr ⟨eq_nil_of_tick_exhausted hexhausted,
          walk_of_exhausted hexhausted⟩⟩
      simp [hexhausted]

-- No execution comes to these frames.  The first ones are marked without an
-- action and beyond the end of their statements, and their loop starts over
-- once.  The other one has the last word for its count, which begins again.
example :
    let frames : List Frame :=
      [⟨[.nop, .loop .nop []], 7, true, 3, true⟩, ⟨[], 2, true, 0, false⟩]
    let last : Frame := ⟨[.action .move], 1, true, 0xFFFFFFFFFFFFFFFF, true⟩
    ticks 7 frames = some [] ∧ walk frames = none ∧
      walk [last] =
        some (.move, [⟨[.action .move], 1, true, 0, true⟩]) := by cbv

/-! ## Flags -/

namespace Statement

theorem actionCountList_take_succ {ss : List Statement} {i : Nat}
    {s : Statement} (h : ss[i]? = some s) :
    actionCountList (ss.take (i + 1)) =
      actionCountList (ss.take i) + s.actionCount := by
  rw [List.take_add_one, h, actionCountList_append]
  simp [actionCountList]

end Statement

namespace Frame

/-- Whether the flag of a frame is right about its first `n` statements: if it
is raised, the frame has an action, and if not, there is none among these. -/
structure FlagTrue (n : Nat) (f : Frame) : Prop where
  raised : f.productive = true → actionCountList f.statements ≠ 0
  lowered : f.productive = false → actionCountList (f.statements.take n) = 0

/-- A statement without an action makes no difference to the flag. -/
theorem FlagTrue.succ {n : Nat} {f : Frame} {s : Statement}
    (h : f.FlagTrue n) (hs : f.statements[n]? = some s)
    (hdead : s.actionCount = 0) : f.FlagTrue (n + 1) where
  raised := h.raised
  lowered hflag := by
    rw [Statement.actionCountList_take_succ hs, h.lowered hflag, hdead]

end Frame

/-- Whether the flags of a stack are right: that of the innermost frame about
all statements taken, and those below about all but the last, the loop that is
being walked through. -/
def FlagsTrue : List Frame → Prop
  | [] => True
  | f :: below => f.FlagTrue f.next ∧ ∀ g ∈ below, g.FlagTrue (g.next - 1)

/-- Whether a stack is one of a program with the statements `ss`: its frames
nest, and their flags are right. -/
structure Standing (ss : List Statement) (frames : List Frame) : Prop where
  nested : Nested ss frames
  flags : FlagsTrue frames

/-- If the block of a frame has an action, so have those of the frames
below. -/
theorem Nested.actionCountList_ne_zero {ss : List Statement} {f : Frame}
    {below : List Frame} (h : Nested ss (f :: below))
    (hf : actionCountList f.statements ≠ 0) :
    ∀ g ∈ f :: below, actionCountList g.statements ≠ 0 := by
  induction below generalizing f with
  | nil =>
      intro g hg
      rw [List.mem_singleton.1 hg]
      exact hf
  | cons g below ih =>
      obtain ⟨⟨_, b, hb, hblock⟩, _, hbelow⟩ := h
      have hle : b.looped.actionCount ≤ actionCountList g.statements :=
        Statement.actionCount_le_of_mem (Frame.mem_of_taken? hb)
      have hloop : b.looped.actionCount = actionCountList f.statements := by
        rw [hblock]
        rfl
      exact List.forall_mem_cons.2 ⟨hf, ih hbelow (by omega)⟩

namespace Standing

variable {ss : List Statement} {f : Frame} {frames after below : List Frame}
  {note : Option Message} {a : Action}

/-- A loop without an action that is left, and the frame it is in. -/
theorem flags_of_left (h : Standing ss (f :: below))
    (hdead : actionCountList f.statements = 0) : FlagsTrue below := by
  cases below with
  | nil => exact trivial
  | cons g below =>
      obtain ⟨⟨_, b, hb, hblock⟩, _, _⟩ := h.nested
      obtain ⟨hg, hbelow⟩ := List.forall_mem_cons.1 h.flags.2
      obtain ⟨hpos, hget⟩ := Frame.taken?_eq_some_iff.1 hb
      have hloop : b.looped.actionCount = 0 := by
        rw [hblock] at hdead
        exact hdead
      have hsucc := hg.succ hget hloop
      rw [Nat.sub_add_cancel hpos] at hsucc
      exact ⟨hsucc, hbelow⟩

/-- At the end of a pass that is not marked the block has no action. -/
theorem dead_of_lowered (h : Standing ss (f :: below))
    (hend : f.advance? = none) (hflag : f.productive = false) :
    actionCountList f.statements = 0 := by
  have hlen : f.statements.length ≤ f.next := by
    simpa [Frame.advance?] using hend
  have htaken := h.flags.1.lowered hflag
  rwa [List.take_of_length_le hlen] at htaken

/-- **One tick** that reaches no action keeps the flags right. -/
theorem moves (h : Standing ss frames) (hmoves : Moves frames after note) :
    Standing ss after := by
  refine ⟨h.nested.moves hmoves, ?_⟩
  cases hmoves with
  | @enter f f' first rest below hf =>
      obtain ⟨_, rfl⟩ := Frame.advance?_eq_some_iff.1 hf
      refine ⟨⟨nofun, fun _ => rfl⟩, List.forall_mem_cons.2 ⟨?_, h.flags.2⟩⟩
      exact ⟨h.flags.1.raised, h.flags.1.lowered⟩
  | @skip f f' below hf =>
      obtain ⟨hget, rfl⟩ := Frame.advance?_eq_some_iff.1 hf
      have hsucc := h.flags.1.succ hget rfl
      exact ⟨⟨hsucc.raised, hsucc.lowered⟩, h.flags.2⟩
  | rewind below => exact ⟨⟨nofun, fun _ => rfl⟩, h.flags.2⟩
  | abandon below hend _ hflag =>
      exact h.flags_of_left (h.dead_of_lowered hend hflag)
  | @leave f _ _ honce =>
      obtain rfl := h.nested.below_eq_nil honce
      exact trivial

/-- **An action** marks all frames, and they all have one. -/
theorem reached (h : Standing ss frames)
    (hreached : tick frames = .reached a after) : Standing ss after := by
  refine ⟨h.nested.walk (walk_of_reached hreached), ?_⟩
  obtain ⟨f, f', below, rfl, hf, rfl⟩ := advance_of_tick_reached hreached
  have hmem : Statement.action a ∈ f'.statements :=
    Frame.mem_of_taken? (Frame.taken?_of_advance hf)
  have hacts : actionCountList f'.statements ≠ 0 := by
    have hle := Statement.actionCount_le_of_mem hmem
    rw [Statement.actionCount] at hle
    omega
  have hall := (h.nested.advance hf).actionCountList_ne_zero hacts
  obtain ⟨hfirst, hothers⟩ := List.forall_mem_cons.1 hall
  refine ⟨⟨fun _ => hfirst, nofun⟩, ?_⟩
  intro g hg
  obtain ⟨g', hg', rfl⟩ := List.mem_map.1 hg
  exact ⟨fun _ => hothers g' hg', nofun⟩

theorem passes {notes : List Message} (h : Standing ss frames)
    (hpasses : Passes frames notes after) : Standing ss after := by
  induction hpasses with
  | refl => exact h
  | move hmove _ ih => exact ih (h.moves hmove)

/-- **A walk** keeps the flags right. -/
theorem walk (h : Standing ss frames)
    (hwalk : RobotScript.walk frames = some (a, after)) :
    Standing ss after := by
  fun_induction RobotScript.walk frames with
  | case1 frames b stack hreached =>
      cases hwalk
      exact h.reached hreached
  | case2 frames stack note hmoved ih =>
      exact ih (h.moves (moves_of_tick hmoved)) hwalk
  | case3 => cases hwalk

/-- **At the end of a pass** a loop is left if its block has no action, and
starts over if it has one. -/
theorem tick_of_end (h : Standing ss (f :: below))
    (hrepeats : f.repeats = true) (hend : f.advance? = none) :
    tick (f :: below) =
      if actionCountList f.statements = 0 then
        .moved below (some (.loopAbandoned (below.length + 1)))
      else
        .moved (f.rewind :: below)
          (some (.iterationBegun (below.length + 1) (f.iteration + 1))) := by
  cases hflag : f.productive with
  | false =>
      rw [if_pos (h.dead_of_lowered hend hflag)]
      exact tick_of_moves (.abandon below hend hrepeats hflag)
  | true =>
      rw [if_neg (h.flags.1.raised hflag)]
      exact tick_of_moves (.rewind below hend hrepeats hflag)

end Standing

namespace Execution

theorem standing_start (p : Program) :
    Standing p.statements (start p).frames :=
  ⟨nested_start p, ⟨nofun, fun _ => rfl⟩, nofun⟩

/-- What holds of the first stack and of no stack at all, and survives walks,
holds of the stack of every reachable execution. -/
theorem Reachable.frames_preserve {p : Program} {I : List Frame → Prop}
    (hstart : I (Execution.start p).frames) (hnil : I [])
    (hwalk : ∀ {frames after a}, I frames → walk frames = some (a, after) →
      I after)
    {x : Execution} (hx : Reachable p x) : I x.frames := by
  induction hx with
  | start => exact hstart
  | @step σ ε x x' s s' robot hx h ih =>
      have hstepped := stepped robot x s
      generalize Execution.step robot (x, s) = r at h hstepped
      cases hstepped with
      | halted _ =>
          cases h
          exact ih
      | finished _ _ =>
          cases h
          exact hnil
      | performed _ hw _ =>
          cases h
          exact hwalk ih hw
      | refused _ hw _ =>
          cases h
          exact hwalk ih hw

/-- **The stacks of an execution** nest in its program and have right
flags. -/
theorem Reachable.standing {p : Program} {x : Execution}
    (hx : Reachable p x) : Standing p.statements x.frames :=
  hx.frames_preserve (standing_start p) ⟨trivial, trivial⟩ fun h hw => h.walk hw

end Execution

end RobotScript
