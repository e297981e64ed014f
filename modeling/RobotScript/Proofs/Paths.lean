import RobotScript.Proofs.LookAhead
import RobotScript.Proofs.Passage

/-!
# Paths of actions

An execution does not keep the path of its last action.  `Execution.path?` makes
it up from the frames, one index for each: the statement taken last.  Frames
nest along the tree, so the indices lead to the statement that the innermost
frame has taken last, and between two steps this is the action attempted in the
earlier one.

From one action to the next the path moves forward in the program, with one
exception.  A loop with an action is never left, so a walk ends in the innermost
frame, or in loops entered from there, unless the rest of the pass has no
action; then the innermost loop starts over.  The loops that its pass has gone
through until now have no action, or one of them would still be the innermost.
So the first action of the new pass is directly in this block, and the path
differs from the earlier one in the last index only.

## Main results

* `Nested.statementAt?_stackPath` — the path of nested frames leads to the
  statement taken last.
* `Rests.walk` — from one action to the next: what the frames keep, and how the
  path moves.
* `reachable_iff_reached` — the executions that steps lead to, with what the
  steps have come to.
* `Reached.phase` — before the first attempt, at an action, or at the end.
* `path_names_last_attempt` — paths and attempts along every execution.
-/

namespace RobotScript

open Statement (actionCountList)

/-! ## Paths of frames -/

theorem Statement.descend?_append (s : Statement) (q r : List Nat) :
    s.descend? (q ++ r) = s.descend? q >>= fun t => t.descend? r := by
  induction q generalizing s with
  | nil => rfl
  | cons i q ih =>
      simp only [List.cons_append, descend?, ih, bind_assoc]

/-- Every path but the empty one can be prolonged. -/
theorem Program.statementAt?_append (p : Program) {q : List Nat} (hq : q ≠ [])
    (r : List Nat) :
    p.statementAt? (q ++ r) = p.statementAt? q >>= fun s => s.descend? r := by
  cases q with
  | nil => exact absurd rfl hq
  | cons i q =>
      simp only [List.cons_append, statementAt?, Statement.descend?_append,
        bind_assoc]

/-- The indices of the statements taken last, outermost first. -/
def stackPath (frames : List Frame) : List Nat :=
  frames.reverse.map (·.next - 1)

theorem stackPath_cons (f : Frame) (below : List Frame) :
    stackPath (f :: below) = stackPath below ++ [f.next - 1] := by
  simp [stackPath]

theorem stackPath_append (above below : List Frame) :
    stackPath (above ++ below) = stackPath below ++ stackPath above := by
  simp [stackPath]

theorem stackPath_cons_ne_nil (f : Frame) (below : List Frame) :
    stackPath (f :: below) ≠ [] := by
  simp [stackPath]

theorem stackPath_map_markProductive (frames : List Frame) :
    stackPath (frames.map Frame.markProductive) = stackPath frames := by
  simp [stackPath, ← List.map_reverse, Frame.markProductive,
    Function.comp_def]

/-- **The path of nested frames** leads to the statement that the innermost
frame has taken last. -/
theorem Nested.statementAt?_stackPath {p : Program} {f : Frame}
    {below : List Frame} {s : Statement} (h : Nested p.statements (f :: below))
    (hs : f.taken? = some s) :
    p.statementAt? (stackPath (f :: below)) = some s := by
  induction below generalizing f s with
  | nil =>
      obtain ⟨_, hget⟩ := Frame.taken?_eq_some_iff.1 hs
      rw [h.1.1] at hget
      show (p.statements[f.next - 1]? >>= fun t => t.descend? []) = some s
      rw [hget]
      rfl
  | cons g below ih =>
      obtain ⟨⟨_, b, hb, hblock⟩, _, hbelow⟩ := h
      obtain ⟨_, hget⟩ := Frame.taken?_eq_some_iff.1 hs
      rw [hblock] at hget
      rw [stackPath_cons, p.statementAt?_append (stackPath_cons_ne_nil g below),
        ih hbelow hb]
      show (b.toList[f.next - 1]? >>= fun t => t.descend? []) = some s
      rw [hget]
      rfl

/-! ## Passes without a loop that acts -/

namespace Frame

/-- Whether the loops that the present pass has gone through are without an
action. -/
def Clear (f : Frame) : Prop :=
  ∀ b : Block, b.looped ∈ f.statements.take f.next → b.actionCount = 0

theorem clear_of_next_eq_zero {f : Frame} (h : f.next = 0) : f.Clear := by
  intro b hb
  rw [h, List.take_zero] at hb
  cases hb

/-- The statement behind those skipped is the one taken last. -/
theorem taken?_skip {f : Frame} {dead rest : List Statement} {s : Statement}
    (h : f.statements.drop f.next = dead ++ s :: rest) :
    (f.skip (dead.length + 1)).taken? = some s := by
  have hadvance := advance?_of_drop (drop_skip h)
  rw [skip_skip] at hadvance
  exact taken?_of_advance hadvance

theorem Clear.skip {f : Frame} {dead rest : List Statement} {a : Action}
    (hclear : f.Clear)
    (hdrop : f.statements.drop f.next = dead ++ .action a :: rest)
    (hdead : actionCountList dead = 0) :
    (f.skip (dead.length + 1)).Clear := by
  intro b hb
  have htake : f.statements.take (f.next + (dead.length + 1)) =
      f.statements.take f.next ++ (dead ++ [.action a]) := by
    rw [List.take_add, hdrop, List.take_append,
      List.take_of_length_le (Nat.le_succ _)]
    simp
  rw [show (f.skip (dead.length + 1)).statements.take
    (f.skip (dead.length + 1)).next = _ from htake] at hb
  rcases List.mem_append.1 hb with hb | hb
  · exact hclear b hb
  · rcases List.mem_append.1 hb with hb | hb
    · have hle : b.actionCount ≤ actionCountList dead :=
        Statement.actionCount_le_of_mem hb
      omega
    · cases List.mem_singleton.1 hb

/-- The innermost frame of the way to an action has just taken the action. -/
theorem Leads.innermost {f : Frame} {a : Action} {frames : List Frame}
    (h : f.Leads a frames) (hclear : f.Clear) :
    ∃ g above, frames = g :: above ∧ g.taken? = some (.action a) ∧
      g.Clear := by
  induction h with
  | here hdrop hdead =>
      exact ⟨_, [], rfl, taken?_skip hdrop, hclear.skip hdrop hdead⟩
  | inside hdrop hdead hin ih =>
      obtain ⟨g, above, rfl, htaken, hg⟩ := ih (clear_of_next_eq_zero rfl)
      exact ⟨g, _, rfl, htaken, hg⟩

/-- The outermost frame of the way to an action has moved forward. -/
theorem Leads.outermost {f : Frame} {a : Action} {frames : List Frame}
    (h : f.Leads a frames) :
    ∃ inner n, frames = inner ++ [f.skip (n + 1)] := by
  cases h with
  | here hdrop hdead => exact ⟨[], _, rfl⟩
  | inside hdrop hdead hin => exact ⟨_, _, rfl⟩

/-- The way to an action moves the path forward. -/
theorem Leads.stackPath_lt {f : Frame} {a : Action} {frames : List Frame}
    (h : f.Leads a frames) (below : List Frame) (hpos : 0 < f.next) :
    stackPath (f :: below) < stackPath (frames ++ below) := by
  obtain ⟨inner, n, rfl⟩ := h.outermost
  rw [List.append_assoc, stackPath_append, List.singleton_append,
    stackPath_cons, stackPath_cons, List.append_assoc]
  apply List.append_left_lt
  show [f.next - 1] < (f.next + (n + 1) - 1) :: stackPath inner
  exact List.cons_lt_cons_iff.2 (.inl (by omega))

theorem Leads.actionCountList_ne_zero {f : Frame} {a : Action}
    {frames : List Frame} (h : f.Leads a frames) :
    actionCountList (f.statements.drop f.next) ≠ 0 := by
  induction h with
  | here hdrop hdead =>
      rw [hdrop, Statement.actionCountList_append, actionCountList,
        Statement.actionCount]
      omega
  | @inside f dead rest b frames hdrop hdead hin ih =>
      have hb : b.looped.actionCount ≠ 0 := ih
      rw [hdrop, Statement.actionCountList_append, actionCountList]
      omega

/-- The statements before the first action of a block do not reach beyond an
action that has been taken from it. -/
theorem length_lt_next {f : Frame} {a : Action} {dead rest : List Statement}
    (htaken : f.taken? = some (.action a)) (h : f.statements = dead ++ rest)
    (hdead : actionCountList dead = 0) : dead.length < f.next := by
  obtain ⟨hpos, hget⟩ := taken?_eq_some_iff.1 htaken
  refine Nat.lt_of_not_le fun hle => ?_
  rw [h, List.getElem?_append_left (by omega)] at hget
  have hcount := Statement.actionCount_le_of_mem (List.mem_of_getElem? hget)
  rw [Statement.actionCount] at hcount
  omega

/-- A pass that comes after one with an action, and with no loop that acts
before it, leads to an action of the same block. -/
theorem Leads.here_of_rewind {f : Frame} {a a' : Action} {frames : List Frame}
    (h : f.rewind.Leads a' frames) (htaken : f.taken? = some (.action a))
    (hclear : f.Clear) : ∃ n, frames = [f.rewind.skip n] := by
  cases h with
  | here hdrop hdead => exact ⟨_, rfl⟩
  | @inside _ dead rest b frames hdrop hdead hin =>
      -- The loop would be among the statements that the last pass went through.
      have hss : f.statements = dead ++ b.looped :: rest := hdrop
      have hlt := length_lt_next htaken hss hdead
      have hmem : b.looped ∈ f.statements.take f.next := by
        apply List.mem_of_getElem? (i := dead.length)
        rw [List.getElem?_take_of_lt hlt, hss]
        simp
      exact absurd (hclear b hmem) hin.actionCountList_ne_zero

end Frame

/-! ## From one action to the next -/

/-- **Where a walk ends.**  Either it leads to an action in what is left of the
pass, or the innermost frame is a loop that starts over and leads to an action
in its next pass.  This supposes that the walk cannot leave the innermost frame
for one below. -/
theorem walk_cases {f : Frame} {below after : List Frame} {a : Action}
    (hwalk : walk (f :: below) = some (a, after))
    (hlast : f.repeats = false → below = [])
    (hloop : f.repeats = true →
      f.productive = true ∧ actionCountList f.statements ≠ 0) :
    (∃ frames, f.Leads a frames ∧
      after = (frames ++ below).map Frame.markProductive) ∨
    f.repeats = true ∧
      .iterationBegun (below.length + 1) (f.iteration + 1) ∈
        walkJournal (f :: below) ∧
      ∃ frames, f.rewind.Leads a frames ∧
        after = (frames ++ below).map Frame.markProductive := by
  by_cases hlive : actionCountList (f.statements.drop f.next) = 0
  · -- Nothing is left to do in this pass, so the walk comes to its end.
    have hrest : f.statements.drop f.next = f.statements.drop f.next ++ [] :=
      (List.append_nil _).symm
    have hpass := passes_list hlive below hrest
    have hend := Frame.advance?_of_drop_nil (Frame.drop_skip hrest)
    by_cases hrepeats : f.repeats = true
    · obtain ⟨hproductive, hacts⟩ := hloop hrepeats
      have hover := hpass.trans
        (Passes.one (Moves.rewind below hend hrepeats hproductive))
      obtain ⟨a', frames, hleads⟩ : ∃ a' frames, f.rewind.Leads a' frames :=
        Frame.exists_leads hacts
      have hwalk' := (hover.walk_eq).trans (hleads.walk_eq below)
      rw [hwalk] at hwalk'
      cases hwalk'
      refine .inr ⟨hrepeats, ?_, frames, hleads, rfl⟩
      rw [hover.walkJournal_eq]
      simp [Frame.skip]
    · have hrepeats : f.repeats = false := by simpa using hrepeats
      have hleave := hpass.trans
        (Passes.one (Moves.leave below hend hrepeats))
      rw [hleave.walk_eq, hlast hrepeats, walk_of_exhausted rfl] at hwalk
      cases hwalk
  · obtain ⟨a', frames, hleads⟩ := Frame.exists_leads hlive
    rw [hleads.walk_eq] at hwalk
    cases hwalk
    exact .inl ⟨frames, hleads, rfl⟩

/-- Frames that rest at an action of a program: they nest in its tree, the
action has marked them all, the innermost one has just taken it, and no loop
with an action is behind. -/
structure Rests (p : Program) (a : Action) (f : Frame) (below : List Frame) :
    Prop where
  nested : Nested p.statements (f :: below)
  productive : ∀ g ∈ f :: below, g.productive = true
  taken : f.taken? = some (.action a)
  clear : f.Clear

namespace Rests

variable {p : Program} {a a' : Action} {f : Frame} {below after : List Frame}

/-- The way to an action ends in frames that rest at it. -/
theorem of_leads {frames : List Frame}
    (hnested : Nested p.statements (f :: below)) (hclear : f.Clear)
    (h : f.Leads a frames) :
    ∃ f' below', (frames ++ below).map Frame.markProductive = f' :: below' ∧
      Rests p a f' below' := by
  have hwalk := h.walk_eq below
  obtain ⟨g, above, rfl, htaken, hg⟩ := h.innermost hclear
  exact ⟨g.markProductive, _, rfl,
    { nested := hnested.walk hwalk
      productive := walk_productive hwalk
      taken := htaken
      clear := hg }⟩

theorem next_pos (h : Rests p a f below) : 0 < f.next :=
  (Frame.taken?_eq_some_iff.1 h.taken).1

/-- All frames are marked already. -/
theorem map_markProductive_below (h : Rests p a f below) :
    below.map Frame.markProductive = below := by
  have hid : ∀ g ∈ below, g.markProductive = g := by
    intro g hg
    have hmarked := h.productive g (List.mem_cons_of_mem f hg)
    rw [Frame.markProductive, ← hmarked]
  exact (List.map_congr_left hid).trans (List.map_id below)

/-- The block of the innermost frame has the action. -/
theorem actionCountList_ne_zero (h : Rests p a f below) :
    actionCountList f.statements ≠ 0 := by
  have hle := Statement.actionCount_le_of_mem (Frame.mem_of_taken? h.taken)
  rw [Statement.actionCount] at hle
  omega

/-- **From one action to the next.**  The frames rest at the action that the
walk ends at.  Their path is behind the earlier one and no loop has started
over, or it differs in the last index only and the innermost loop has. -/
theorem walk (h : Rests p a f below)
    (hwalk : RobotScript.walk (f :: below) = some (a', after)) :
    ∃ f' below', after = f' :: below' ∧ Rests p a' f' below' ∧
      (stackPath (f :: below) < stackPath (f' :: below') ∧
          (∀ d k, .iterationBegun d k ∉ walkJournal (f :: below)) ∨
        below' = below ∧ f.repeats = true ∧
          (∃ n, f' = (f.rewind.skip n).markProductive) ∧
          .iterationBegun (below.length + 1) (f.iteration + 1) ∈
            walkJournal (f :: below)) := by
  have hloop : f.repeats = true →
      f.productive = true ∧ actionCountList f.statements ≠ 0 :=
    fun _ => ⟨h.productive f List.mem_cons_self, h.actionCountList_ne_zero⟩
  rcases walk_cases hwalk h.nested.below_eq_nil hloop with hahead | hover
  · obtain ⟨frames, hleads, hafter⟩ := hahead
    obtain ⟨f', below', hframes, hrests⟩ := of_leads h.nested h.clear hleads
    refine ⟨f', below', hafter.trans hframes, hrests, .inl ⟨?_, ?_⟩⟩
    · have hlt := hleads.stackPath_lt below h.next_pos
      rw [← hframes, stackPath_map_markProductive]
      exact hlt
    · intro d k hbegun
      obtain ⟨d', habandoned⟩ := hleads.abandons below _ hbegun
      cases habandoned
  · obtain ⟨hrepeats, hbegun, frames, hleads, hafter⟩ := hover
    obtain ⟨n, rfl⟩ := hleads.here_of_rewind h.taken h.clear
    have hnested : Nested p.statements (f.rewind :: below) :=
      h.nested.exchange rfl rfl (Nat.zero_le _)
    obtain ⟨f', below', hframes, hrests⟩ :=
      of_leads hnested (Frame.clear_of_next_eq_zero rfl) hleads
    refine ⟨f', below', hafter.trans hframes, hrests, .inr ?_⟩
    rw [List.singleton_append, List.map_cons,
      h.map_markProductive_below] at hframes
    obtain ⟨rfl, rfl⟩ := List.cons.inj hframes
    exact ⟨rfl, hrepeats, ⟨n, rfl⟩, hbegun⟩

/-- The first action of a program. -/
theorem walk_start
    (hwalk : RobotScript.walk [Frame.once p.statements] = some (a, after)) :
    ∃ f below, after = f :: below ∧ Rests p a f below := by
  rcases walk_cases hwalk (fun _ => rfl) nofun with hahead | hover
  · obtain ⟨frames, hleads, hafter⟩ := hahead
    obtain ⟨f, below, hframes, hrests⟩ := of_leads (Execution.nested_start p)
      (Frame.clear_of_next_eq_zero rfl) hleads
    exact ⟨f, below, hafter.trans hframes, hrests⟩
  · cases hover.1

end Rests

/-! ## Attempts -/

/-- What a step has come to. -/
inductive Event where
  /-- The robot has performed this action. -/
  | performed (a : Action)
  /-- The robot has refused this action. -/
  | refused (a : Action)
  /-- No action is left. -/
  | finished
  /-- An earlier refusal has stopped the execution. -/
  | halted
  deriving DecidableEq, Repr

namespace Event

/-- What the result of a step says. -/
def ofResult {σ ε : Type} :
    EStateM.Result (RuntimeError ε) (Execution × σ) Step → Event
  | .ok (.performed a) _ => .performed a
  | .ok .finished _ => .finished
  | .error (.refused a _ _) _ => .refused a
  | .error (.halted _) _ => .halted

/-- The action performed in the step. -/
def performed? : Event → Option Action
  | .performed a => some a
  | _ => none

/-- The action refused in the step. -/
def refused? : Event → Option Action
  | .refused a => some a
  | _ => none

/-- The action attempted in the step, whether performed or refused. -/
def attempted? (e : Event) : Option Action :=
  e.performed? <|> e.refused?

end Event

namespace Execution

/-- The executions that steps lead to from the beginning of a program, with what
the steps have come to, the last one first.  The robot need not be the same at
every step. -/
inductive Reached (p : Program) : List Event → Execution → Prop
  | start : Reached p [] (start p)
  | step {σ ε : Type} {events : List Event} {x : Execution}
      (robot : Robot σ ε) (s : σ) (hx : Reached p events x) :
      Reached p (.ofResult (Execution.step robot (x, s)) :: events)
        (stateAfter (Execution.step robot (x, s))).1

/-- The reachable executions are those with a history. -/
theorem reachable_iff_reached {p : Program} {x : Execution} :
    Reachable p x ↔ ∃ events, Reached p events x := by
  constructor
  · intro hx
    induction hx with
    | start => exact ⟨[], .start⟩
    | @step σ ε x x' s s' robot hx h ih =>
        obtain ⟨events, hx⟩ := ih
        have hstep := hx.step robot s
        rw [h] at hstep
        exact ⟨_, hstep⟩
  · rintro ⟨events, hx⟩
    induction hx with
    | start => exact .start
    | step robot s _ ih => exact ih.step robot rfl

/-- Where an execution is, after steps that have come to `events`. -/
inductive Phase (p : Program) (events : List Event) (x : Execution) : Prop
  /-- Before the first step. -/
  | fresh (hevents : events = []) (hx : x = start p)
  /-- At the last action that was attempted. -/
  | acting {a : Action} {f : Frame} {below : List Frame}
      (hframes : x.frames = f :: below) (hrests : Rests p a f below)
      (hgoing : .finished ∉ events)
      (hattempted : events.findSome? Event.attempted? = some a)
      (hperformed : x.halted = false →
        events.findSome? Event.performed? = some a)
      (hrefused : x.halted = true →
        events.findSome? Event.refused? = some a)
  /-- At the end. -/
  | ended (hframes : x.frames = []) (hfinished : .finished ∈ events)

variable {p : Program} {events : List Event} {x : Execution}

theorem path?_of_nil (h : x.frames = []) : x.path? = none := by
  simp [path?, h]

theorem path?_of_rests {a : Action} {f : Frame} {below : List Frame}
    (h : x.frames = f :: below) (hrests : Rests p a f below) :
    x.path? = some (stackPath (f :: below)) := by
  have hpos := hrests.next_pos
  have htouched : ¬(f :: below).all (·.isUntouched) = true := by
    rw [List.all_cons, Frame.isUntouched]
    simp [Nat.ne_of_gt hpos]
  rw [path?, h, if_neg htouched]
  rfl

/-- A step that attempts an action ends where the walk to it ends. -/
theorem walk_of_attempted {σ ε : Type} {robot : Robot σ ε} {s : σ} {a : Action}
    (h : (Event.ofResult (step robot (x, s))).attempted? = some a) :
    walk x.frames =
      some (a, (stateAfter (step robot (x, s))).1.frames) := by
  have hstepped := stepped robot x s
  generalize step robot (x, s) = r at h hstepped
  cases hstepped with
  | halted _ => cases h
  | finished _ _ => cases h
  | performed _ hwalk _ =>
      cases h
      exact hwalk
  | refused _ hwalk _ =>
      cases h
      exact hwalk

namespace Phase

/-- Whatever the phase, a walk to an action ends in frames that rest at it. -/
theorem rests_of_walk (h : Phase p events x) {a : Action} {after : List Frame}
    (hwalk : walk x.frames = some (a, after)) :
    .finished ∉ events ∧ ∃ f below, after = f :: below ∧ Rests p a f below := by
  cases h with
  | fresh hevents hx =>
      subst hevents hx
      exact ⟨List.not_mem_nil, Rests.walk_start hwalk⟩
  | acting hframes hrests hgoing _ _ _ =>
      rw [hframes] at hwalk
      obtain ⟨f, below, hafter, hrests', _⟩ := hrests.walk hwalk
      exact ⟨hgoing, f, below, hafter, hrests'⟩
  | ended hframes _ =>
      rw [hframes, walk_of_exhausted rfl] at hwalk
      cases hwalk

/-- **One step** leads from phase to phase. -/
theorem step {σ ε : Type} (robot : Robot σ ε) (s : σ) (h : Phase p events x) :
    Phase p (.ofResult (Execution.step robot (x, s)) :: events)
      (stateAfter (Execution.step robot (x, s))).1 := by
  have hstepped := stepped robot x s
  generalize Execution.step robot (x, s) = r at hstepped
  cases hstepped with
  | halted hhalted =>
      cases h with
      | fresh _ hx =>
          subst hx
          cases hhalted
      | acting hframes hrests hgoing hattempted hperformed hrefused =>
          exact .acting hframes hrests (by simp [Event.ofResult, hgoing])
            hattempted hperformed hrefused
      | ended hframes hfinished =>
          exact .ended hframes (List.mem_cons_of_mem _ hfinished)
  | finished _ _ => exact .ended rfl List.mem_cons_self
  | performed hrunning hwalk _ =>
      obtain ⟨hgoing, f, below, hafter, hrests⟩ := h.rests_of_walk hwalk
      refine .acting hafter hrests (by simp [Event.ofResult, hgoing]) rfl
        (fun _ => rfl) ?_
      intro hhalted
      exact absurd (hrunning.symm.trans hhalted) Bool.false_ne_true
  | refused _ hwalk _ =>
      obtain ⟨hgoing, f, below, hafter, hrests⟩ := h.rests_of_walk hwalk
      exact .acting hafter hrests (by simp [Event.ofResult, hgoing]) rfl nofun
        (fun _ => rfl)

theorem path?_eq_none_iff (h : Phase p events x) :
    x.path? = none ↔
      events.findSome? Event.attempted? = none ∨ .finished ∈ events := by
  cases h with
  | fresh hevents hx =>
      subst hevents hx
      exact iff_of_true rfl (.inl rfl)
  | acting hframes hrests hgoing hattempted _ _ =>
      simp [path?_of_rests hframes hrests, hattempted, hgoing]
  | ended hframes hfinished =>
      exact iff_of_true (path?_of_nil hframes) (.inr hfinished)

/-- With a path, an execution is at the action that was attempted last. -/
theorem rests_of_path? (h : Phase p events x) {q : List Nat}
    (hq : x.path? = some q) :
    ∃ a f below, x.frames = f :: below ∧ Rests p a f below ∧
      q = stackPath (f :: below) ∧
      events.findSome? Event.attempted? = some a ∧
      (x.halted = false → events.findSome? Event.performed? = some a) ∧
      (x.halted = true → events.findSome? Event.refused? = some a) := by
  cases h with
  | fresh _ hx =>
      subst hx
      cases hq
  | acting hframes hrests _ hattempted hperformed hrefused =>
      rw [path?_of_rests hframes hrests] at hq
      exact ⟨_, _, _, hframes, hrests, (Option.some.inj hq).symm, hattempted,
        hperformed, hrefused⟩
  | ended hframes _ =>
      rw [path?_of_nil hframes] at hq
      cases hq

end Phase

/-- **Every execution is in one of the phases.** -/
theorem Reached.phase (hx : Reached p events x) : Phase p events x := by
  induction hx with
  | start => exact .fresh rfl rfl
  | step robot s _ ih => exact ih.step robot s

/-- Whether the innermost loop of `x` starts over on the way to the next action,
and the frames of `x'` are those after it: the same, with the innermost one in
its next pass. -/
def StartsOver (x x' : Execution) : Prop :=
  ∃ f below n, x.frames = f :: below ∧ f.repeats = true ∧
    x'.frames = (f.rewind.skip n).markProductive :: below ∧
    .iterationBegun x.depth (f.iteration + 1) ∈ walkJournal x.frames

/-- **The path names the last action that was attempted.**  For an execution
that has made any steps, with any robots:

* there is no path exactly if no action has been attempted yet or a step has
  found none left;
* otherwise the path leads to an action, the one performed last or, if the
  execution has been refused, the one refused;
* if the next step attempts an action too, its path is greater, index by index
  from the outermost, and no loop has started over in between; or it differs in
  the last index only and the innermost loop has. -/
theorem path_names_last_attempt (p : Program) {events : List Event}
    {x : Execution} (hx : Reached p events x) :
    (x.path? = none ↔
      events.findSome? Event.attempted? = none ∨ .finished ∈ events) ∧
    (∀ q, x.path? = some q →
      ∃ a, p.statementAt? q = some (.action a) ∧
        events.findSome? Event.attempted? = some a ∧
        (x.halted = false → events.findSome? Event.performed? = some a) ∧
        (x.halted = true → events.findSome? Event.refused? = some a)) ∧
    ∀ {σ ε : Type} (robot : Robot σ ε) (s : σ) (q : List Nat) (a : Action),
      x.path? = some q →
      (Event.ofResult (step robot (x, s))).attempted? = some a →
      ∃ q', (stateAfter (step robot (x, s))).1.path? = some q' ∧
        p.statementAt? q' = some (.action a) ∧
        (q < q' ∧ (∀ d k, .iterationBegun d k ∉ walkJournal x.frames) ∨
          q'.length = q.length ∧ q'.dropLast = q.dropLast ∧
          StartsOver x (stateAfter (step robot (x, s))).1) := by
  refine ⟨hx.phase.path?_eq_none_iff, ?_, ?_⟩
  · intro q hq
    obtain ⟨a, f, below, _, hrests, rfl, hevents⟩ :=
      hx.phase.rests_of_path? hq
    exact ⟨a, hrests.nested.statementAt?_stackPath hrests.taken, hevents⟩
  · intro σ ε robot s q a' hq hattempt
    obtain ⟨a, f, below, hframes, hrests, rfl, _⟩ :=
      hx.phase.rests_of_path? hq
    have hwalk := walk_of_attempted hattempt
    generalize (stateAfter (step robot (x, s))).1 = x' at hwalk ⊢
    rw [hframes] at hwalk
    obtain ⟨f', below', hframes', hrests', hmoved⟩ := hrests.walk hwalk
    refine ⟨_, path?_of_rests hframes' hrests',
      hrests'.nested.statementAt?_stackPath hrests'.taken, ?_⟩
    rcases hmoved with hahead | ⟨rfl, hrepeats, ⟨n, rfl⟩, hbegun⟩
    · rw [hframes]
      exact .inl hahead
    · refine .inr ⟨by simp [stackPath], by simp [stackPath], f, below', n,
        hframes, hrepeats, hframes', ?_⟩
      rw [depth, hframes]
      exact hbegun

/-- A loop whose block begins with a loop without an action has started over:
the next action is the same as before, at the same place. -/
theorem path_names_last_attempt_started_over :
    let p : Program :=
      ⟨[.action .wait, .loop (.loop .nop []) [.action .move]]⟩
    let x : Execution :=
      { frames :=
          [⟨[.loop .nop [], .action .move], 2, true, 0, true⟩,
            ⟨p.statements, 2, false, 0, true⟩]
        steps := 2 }
    Reached p [.performed .move, .performed .wait] x ∧
      x.path? = some [1, 1] ∧ p.statementAt? [1, 1] = some (.action .move) ∧
      ∃ x' : Execution, x'.path? = some [1, 1] ∧ StartsOver x x' := by
  intro p x
  let x₁ : Execution :=
    { frames := [⟨p.statements, 1, false, 0, true⟩], steps := 1 }
  have hfirst : step Recorder.robot (start p, {}) =
      .ok (.performed .wait) (x₁, ⟨#[.wait], none⟩) := by cbv
  have hsecond : step Recorder.robot (x₁, ⟨#[.wait], none⟩) =
      .ok (.performed .move) (x, ⟨#[.wait, .move], none⟩) := by cbv
  have hx₁ : Reached p [.performed .wait] x₁ := by
    have hstep := Reached.start (p := p) |>.step Recorder.robot {}
    rw [hfirst] at hstep
    exact hstep
  have hx : Reached p [.performed .move, .performed .wait] x := by
    have hstep := hx₁.step Recorder.robot ⟨#[.wait], none⟩
    rw [hsecond] at hstep
    exact hstep
  have hpath : x.path? = some [1, 1] := by decide
  obtain ⟨-, hnamed, hnext⟩ := path_names_last_attempt p hx
  obtain ⟨a, hplace, -, hperformed, -⟩ := hnamed _ hpath
  cases hperformed rfl
  let x' : Execution :=
    { frames :=
        [⟨[.loop .nop [], .action .move], 2, true, 1, true⟩,
          ⟨p.statements, 2, false, 0, true⟩]
      steps := 3 }
  have hthird : step Recorder.robot (x, {}) =
      .ok (.performed .move) (x', ⟨#[.move], none⟩) := by cbv
  obtain ⟨q', hq', -, hmoved⟩ :=
    hnext Recorder.robot {} _ .move hpath (by rw [hthird]; rfl)
  rw [hthird] at hq' hmoved
  have hpath' : x'.path? = some [1, 1] := by decide
  cases hpath'.symm.trans hq'
  rcases hmoved with ⟨hlt, _⟩ | ⟨_, _, hover⟩
  · exact absurd hlt (by decide)
  · exact ⟨hx, hpath, hplace, x', hpath', hover⟩

end Execution

end RobotScript
