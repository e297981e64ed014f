import RobotScript.Proofs.Stack

/-!
# The way to the next action

A walk is made of ticks, but where it ends can be told from the innermost frame
and the tree.  Statements without an action are passed: a loop among them is
entered, walked through once and abandoned, and with it every loop inside.  The
first statement with an action is either the action itself or a loop; the loop
is entered and, in its block, the same begins again.

`Passes` is any number of ticks without an action, with the messages noted on
the way.  `Frame.Leads` is the whole way: which frames the walk puts in place of
the innermost one when it reaches an action in what is left of its present
pass.

## Main results

* `Statement.induction` — the statements inside a loop before the loop.
* `passes_list` — statements without an action are passed, and every loop in
  them is abandoned, inner loops first.
* `Frame.exists_leads` — a pass with an action left leads to one.
* `Frame.Leads.walk_eq`, `Frame.Leads.abandons` — where such a walk ends and
  what it notes.
-/

namespace RobotScript

open Statement (actionCountList)

/-! ## Ticks without an action -/

/-- Whether ticks that reach no action lead from one stack to another and note
these messages, in this order. -/
inductive Passes : List Frame → List Message → List Frame → Prop
  | refl (frames : List Frame) : Passes frames [] frames
  | move {frames between after : List Frame} {note : Option Message}
      {notes : List Message} (h : Moves frames between note)
      (hrest : Passes between notes after) :
      Passes frames (note.toList ++ notes) after

theorem tick_of_moves {frames after : List Frame} {note : Option Message}
    (h : Moves frames after note) : tick frames = .moved after note := by
  cases h with
  | enter below hf => simp [tick, hf]
  | skip below hf => simp [tick, hf]
  | rewind below hf hrepeats hproductive =>
      simp [tick, hf, hrepeats, hproductive]
  | abandon below hf hrepeats hproductive =>
      simp [tick, hf, hrepeats, hproductive]
  | leave below hf hrepeats => simp [tick, hf, hrepeats]

/-- What was noted before stays in front of what is still to be noted. -/
theorem walkJournalFrom_eq (noted : List Message) (frames : List Frame) :
    walkJournalFrom noted frames = noted.reverse ++ walkJournal frames := by
  induction frames using walk.induct generalizing noted with
  | case1 frames a after hreached =>
      rw [walkJournal, walkJournalFrom, walkJournalFrom, hreached]
      simp
  | case2 frames after note hmoved ih =>
      rw [walkJournal, walkJournalFrom, walkJournalFrom, hmoved]
      simp only [ih, List.reverse_append, List.append_assoc, List.reverse_nil,
        List.nil_append]
  | case3 frames hexhausted =>
      rw [walkJournal, walkJournalFrom, walkJournalFrom, hexhausted]
      simp

theorem walkJournal_of_moved {frames after : List Frame}
    {note : Option Message} (h : tick frames = .moved after note) :
    walkJournal frames = note.toList ++ walkJournal after := by
  rw [walkJournal, walkJournalFrom, h]
  simp only [walkJournalFrom_eq, List.append_nil]
  cases note <;> rfl

theorem walkJournal_of_reached {frames after : List Frame} {a : Action}
    (h : tick frames = .reached a after) : walkJournal frames = [] := by
  rw [walkJournal, walkJournalFrom, h]
  rfl

namespace Passes

variable {frames between after : List Frame} {notes notes' : List Message}

theorem one {note : Option Message} (h : Moves frames after note) :
    Passes frames note.toList after := by
  have hone := Passes.move h (.refl after)
  rw [List.append_nil] at hone
  exact hone

theorem trans (h : Passes frames notes between)
    (h' : Passes between notes' after) :
    Passes frames (notes ++ notes') after := by
  induction h with
  | refl => exact h'
  | move hmove _ ih =>
      rw [List.append_assoc]
      exact .move hmove (ih h')

/-- A walk that has passed some statements goes on from there. -/
theorem walk_eq (h : Passes frames notes after) : walk frames = walk after := by
  induction h with
  | refl => rfl
  | move hmove _ ih => rw [walk_of_moved (tick_of_moves hmove), ih]

theorem walkJournal_eq (h : Passes frames notes after) :
    walkJournal frames = notes ++ walkJournal after := by
  induction h with
  | refl => rfl
  | move hmove _ ih =>
      rw [walkJournal_of_moved (tick_of_moves hmove), ih, List.append_assoc]

end Passes

/-! ## Statements further on -/

namespace Frame

/-- The frame `n` statements further on. -/
def skip (f : Frame) (n : Nat) : Frame :=
  { f with next := f.next + n }

theorem skip_skip (f : Frame) (n m : Nat) :
    (f.skip n).skip m = f.skip (n + m) := by
  simp [skip, Nat.add_assoc]

theorem drop_skip {f : Frame} {dead rest : List Statement}
    (h : f.statements.drop f.next = dead ++ rest) :
    (f.skip dead.length).statements.drop (f.skip dead.length).next = rest := by
  show f.statements.drop (f.next + dead.length) = rest
  rw [← List.drop_drop, h, List.drop_left]

/-- All statements of a loop are before it when it is entered. -/
theorem drop_repeating (ss : List Statement) :
    (Frame.repeating ss).statements.drop (Frame.repeating ss).next =
      ss ++ [] :=
  (List.append_nil ss).symm

theorem advance?_of_drop {f : Frame} {s : Statement} {rest : List Statement}
    (h : f.statements.drop f.next = s :: rest) :
    f.advance? = some (s, f.skip 1) := by
  have hs : f.statements[f.next]? = some s := by
    rw [← List.head?_drop, h]
    rfl
  exact advance?_eq_some_iff.2 ⟨hs, rfl⟩

theorem advance?_of_drop_nil {f : Frame} (h : f.statements.drop f.next = []) :
    f.advance? = none := by
  have hle : f.statements.length ≤ f.next := List.drop_eq_nil_iff.1 h
  simp [advance?, hle]

end Frame

/-! ## Statements and the statements in them -/

namespace Statement

/-- What holds of a loop if it holds of the statements directly inside holds of
every statement. -/
theorem induction {P : Statement → Prop} (action : ∀ a, P (.action a))
    (loop : ∀ first rest, (∀ s ∈ first :: rest, P s) → P (.loop first rest))
    (nop : P .nop) (s : Statement) : P s := by
  refine @Statement.rec P (fun ss => ∀ s ∈ ss, P s) action ?_ nop nofun ?_ s
  · intro first rest hfirst hrest
    exact loop first rest (List.forall_mem_cons.2 ⟨hfirst, hrest⟩)
  · intro s ss hs hss
    exact List.forall_mem_cons.2 ⟨hs, hss⟩

theorem actionCountList_append (ss ts : List Statement) :
    actionCountList (ss ++ ts) = actionCountList ss + actionCountList ts := by
  induction ss with
  | nil => simp [actionCountList]
  | cons s ss ih =>
      simp only [List.cons_append, actionCountList, ih, Nat.add_assoc]

theorem actionCount_le_of_mem {s : Statement} {ss : List Statement}
    (h : s ∈ ss) : s.actionCount ≤ actionCountList ss := by
  obtain ⟨before, behind, rfl⟩ := List.append_of_mem h
  rw [actionCountList_append, actionCountList]
  omega

/-- Statements with an action have a first one that has. -/
theorem exists_first_live {ss : List Statement} (h : actionCountList ss ≠ 0) :
    ∃ dead s rest, ss = dead ++ s :: rest ∧ actionCountList dead = 0 ∧
      s.actionCount ≠ 0 := by
  induction ss with
  | nil => exact absurd rfl h
  | cons s ss ih =>
      by_cases hs : s.actionCount = 0
      · rw [actionCountList, hs, Nat.zero_add] at h
        obtain ⟨dead, t, rest, rfl, hdead, ht⟩ := ih h
        refine ⟨s :: dead, t, rest, rfl, ?_, ht⟩
        rw [actionCountList, hs, hdead]
      · exact ⟨[], s, ss, rfl, rfl, hs⟩

end Statement

/-! ## Loops without an action -/

namespace Statement

mutual

/-- What is noted when a statement without an action is passed in a stack of
`depth` frames: every loop in it is abandoned, inner loops first. -/
def abandonments (depth : Nat) : Statement → List Message
  | .action _ => []
  | .loop first rest =>
    first.abandonments (depth + 1) ++ abandonmentsList (depth + 1) rest ++
      [.loopAbandoned (depth + 1)]
  | .nop => []

/-- What is noted when statements without an action are passed. -/
def abandonmentsList (depth : Nat) : List Statement → List Message
  | [] => []
  | s :: rest => s.abandonments depth ++ abandonmentsList depth rest

end

theorem abandonmentsList_eq_flatMap (depth : Nat) (ss : List Statement) :
    abandonmentsList depth ss = ss.flatMap (·.abandonments depth) := by
  induction ss with
  | nil => rfl
  | cons s ss ih => rw [abandonmentsList, List.flatMap_cons, ih]

/-- Nothing is noted but loops that are left. -/
theorem abandoned_of_mem {m : Message} {s : Statement} {depth : Nat}
    (h : m ∈ s.abandonments depth) : ∃ d, m = .loopAbandoned d := by
  induction s using Statement.induction generalizing depth with
  | action a => cases h
  | loop first rest ih =>
      have hloop : (Statement.loop first rest).abandonments depth =
          abandonmentsList (depth + 1) (first :: rest) ++
            [.loopAbandoned (depth + 1)] := rfl
      rw [hloop, abandonmentsList_eq_flatMap, List.mem_append,
        List.mem_flatMap] at h
      rcases h with ⟨s, hs, hm⟩ | h
      · exact ih s hs hm
      · exact ⟨depth + 1, List.mem_singleton.1 h⟩
  | nop => cases h

theorem abandoned_of_mem_list {m : Message} {ss : List Statement} {depth : Nat}
    (h : m ∈ abandonmentsList depth ss) : ∃ d, m = .loopAbandoned d := by
  rw [abandonmentsList_eq_flatMap, List.mem_flatMap] at h
  obtain ⟨s, _, hm⟩ := h
  exact abandoned_of_mem hm

/-- Whether a statement is passed without an action, in whatever frame it comes
next, and every loop in it is abandoned. -/
def Passed (s : Statement) : Prop :=
  ∀ ⦃f : Frame⦄ ⦃rest : List Statement⦄ (below : List Frame),
    f.statements.drop f.next = s :: rest →
    Passes (f :: below) (s.abandonments (below.length + 1)) (f.skip 1 :: below)

end Statement

/-- Statements that are passed one by one are passed together. -/
theorem passes_of_passed {ss : List Statement} (h : ∀ s ∈ ss, s.Passed)
    {f : Frame} {rest : List Statement} (below : List Frame)
    (hdrop : f.statements.drop f.next = ss ++ rest) :
    Passes (f :: below) (Statement.abandonmentsList (below.length + 1) ss)
      (f.skip ss.length :: below) := by
  induction ss generalizing f with
  | nil => exact .refl (f :: below)
  | cons s ss ih =>
      obtain ⟨hs, hss⟩ := List.forall_mem_cons.1 h
      have hfirst := hs below hdrop
      have hdrop' : f.statements.drop f.next = [s] ++ (ss ++ rest) := hdrop
      have hothers := ih hss (Frame.drop_skip hdrop')
      rw [Frame.skip_skip, ← List.length_append] at hothers
      exact hfirst.trans hothers

/-- A statement without an action is passed. -/
theorem Statement.passed {s : Statement} (hdead : s.actionCount = 0) :
    s.Passed := by
  induction s using Statement.induction with
  | action a => cases hdead
  | loop first rest ih =>
      -- The block is walked through once and then abandoned.
      intro f _ below hdrop
      have hinside : ∀ s ∈ first :: rest, s.Passed := by
        intro s hs
        have hle := actionCount_le_of_mem hs
        have hblock : actionCountList (first :: rest) = 0 := hdead
        exact ih s hs (by omega)
      have hall := Frame.drop_repeating (first :: rest)
      have hpass := passes_of_passed hinside (f.skip 1 :: below) hall
      have hend := Frame.advance?_of_drop_nil (Frame.drop_skip hall)
      have habandon := Passes.one
        (Moves.abandon (f.skip 1 :: below) hend rfl rfl)
      have henter := Moves.enter below (Frame.advance?_of_drop hdrop)
      exact .move henter (hpass.trans habandon)
  | nop =>
      intro f _ below hdrop
      exact Passes.one (.skip below (Frame.advance?_of_drop hdrop))

/-- **Statements without an action are passed**, and every loop in them is
abandoned, inner loops first. -/
theorem passes_list {ss : List Statement} (hdead : actionCountList ss = 0)
    {f : Frame} {rest : List Statement} (below : List Frame)
    (hdrop : f.statements.drop f.next = ss ++ rest) :
    Passes (f :: below) (Statement.abandonmentsList (below.length + 1) ss)
      (f.skip ss.length :: below) := by
  refine passes_of_passed (fun s hs => Statement.passed ?_) below hdrop
  have hle := Statement.actionCount_le_of_mem hs
  omega

/-! ## The way to an action -/

/-- `f.Leads a frames` tells that `a` is the next action in what is left of the
present pass of `f`, and that the walk to it puts `frames` in place of `f`. -/
inductive Frame.Leads (a : Action) : Frame → List Frame → Prop
  /-- The action is one of the statements. -/
  | here {f : Frame} {dead rest : List Statement}
      (hdrop : f.statements.drop f.next = dead ++ .action a :: rest)
      (hdead : actionCountList dead = 0) :
      Leads a f [f.skip (dead.length + 1)]
  /-- The action is inside a loop. -/
  | inside {f : Frame} {dead rest : List Statement} {b : Block}
      {frames : List Frame}
      (hdrop : f.statements.drop f.next = dead ++ b.looped :: rest)
      (hdead : actionCountList dead = 0)
      (hin : Leads a (Frame.repeating b.toList) frames) :
      Leads a f (frames ++ [f.skip (dead.length + 1)])

/-- A statement with an action, behind some without, leads to one. -/
theorem exists_leads_of_statement {s : Statement} (hlive : s.actionCount ≠ 0)
    {f : Frame} {dead rest : List Statement} (hdead : actionCountList dead = 0)
    (hdrop : f.statements.drop f.next = dead ++ s :: rest) :
    ∃ a frames, f.Leads a frames := by
  induction s using Statement.induction generalizing f dead rest with
  | action a => exact ⟨a, _, .here hdrop hdead⟩
  | loop first others ih =>
      have hinside : actionCountList (first :: others) ≠ 0 := hlive
      obtain ⟨dead', t, rest', hblock, hdead', ht⟩ :=
        Statement.exists_first_live hinside
      have hmem : t ∈ first :: others := by simp [hblock]
      obtain ⟨a, frames, hin⟩ := ih t hmem ht
        (f := Frame.repeating (first :: others)) hdead' hblock
      exact ⟨a, _, .inside (b := ⟨first, others⟩) hdrop hdead hin⟩
  | nop => exact absurd rfl hlive

namespace Frame

/-- **A pass with an action left leads to one.** -/
theorem exists_leads {f : Frame}
    (h : actionCountList (f.statements.drop f.next) ≠ 0) :
    ∃ a frames, f.Leads a frames := by
  obtain ⟨dead, s, rest, hdrop, hdead, hs⟩ := Statement.exists_first_live h
  exact exists_leads_of_statement hs hdead hdrop

/-- The ticks of the way: only loops without an action are noted before it is
reached. -/
theorem Leads.passes {f : Frame} {a : Action} {frames : List Frame}
    (h : f.Leads a frames) (below : List Frame) :
    ∃ notes between, Passes (f :: below) notes between ∧
      tick between = .reached a ((frames ++ below).map markProductive) ∧
      ∀ m ∈ notes, ∃ d, m = .loopAbandoned d := by
  induction h generalizing below with
  | @here f dead rest hdrop hdead =>
      refine ⟨_, _, passes_list hdead below hdrop, ?_, ?_⟩
      · have hf := advance?_of_drop (drop_skip hdrop)
        rw [skip_skip] at hf
        simp [tick, hf]
      · intro m hm
        exact Statement.abandoned_of_mem_list hm
  | @inside f dead rest b frames hdrop hdead hin ih =>
      have hf := advance?_of_drop (drop_skip hdrop)
      rw [skip_skip] at hf
      obtain ⟨notes, between, hpass, hreached, hnotes⟩ :=
        ih (f.skip (dead.length + 1) :: below)
      have hdeads := passes_list hdead below hdrop
      refine ⟨_, between, hdeads.trans (.move (.enter below hf) hpass), ?_, ?_⟩
      · rw [List.append_assoc]
        exact hreached
      · intro m hm
        rcases List.mem_append.1 hm with hm | hm
        · exact Statement.abandoned_of_mem_list hm
        · exact hnotes m hm

/-- The walk ends at the action. -/
theorem Leads.walk_eq {f : Frame} {a : Action} {frames : List Frame}
    (h : f.Leads a frames) (below : List Frame) :
    walk (f :: below) =
      some (a, (frames ++ below).map markProductive) := by
  obtain ⟨notes, between, hpass, hreached, _⟩ := h.passes below
  rw [hpass.walk_eq, walk_of_reached hreached]

/-- The walk starts no loop over. -/
theorem Leads.abandons {f : Frame} {a : Action} {frames : List Frame}
    (h : f.Leads a frames) (below : List Frame) :
    ∀ m ∈ walkJournal (f :: below), ∃ d, m = .loopAbandoned d := by
  obtain ⟨notes, between, hpass, hreached, hnotes⟩ := h.passes below
  rw [hpass.walkJournal_eq, walkJournal_of_reached hreached, List.append_nil]
  exact hnotes

end Frame

end RobotScript
