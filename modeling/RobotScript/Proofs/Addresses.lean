import RobotScript.Proofs.Paths

/-!
# Paths as addresses

A path leads into a program one index at a time, and only a loop has something
to lead into.  So every path that leads anywhere goes through loops up to its
last index, and it can be prolonged exactly where it has come to a loop.

The number of actions written in a program is counted by recursion on the tree,
without paths.  `Program.actionPaths` lists the paths of the actions by the same
recursion.  The list grows from left to right in the lexicographic order, so no
path is in it twice, and it has one path for every action that is counted.

## Main results

* `Statement.mem_actionPaths`, `Statement.pairwise_actionPaths` — the paths
  listed are those that lead to an action, in ascending order.
* `Statement.length_actionPaths` — there is one for each action.
* `Program.statementAt?_concat`, `Program.exists_looped_of_append` — one more
  index, and the loops on the way.
* `Program.hasLoop_iff` — the outermost statements tell whether there is a loop.
* `paths_address_statements` — every statement has one path, and every path goes
  through loops.
-/

namespace RobotScript

/-! ## The paths of actions -/

namespace Statement

mutual

/-- The paths that lead from a statement to the actions written in it, from
left to right. -/
def actionPaths : Statement → List (List Nat)
  | .action _ => [[]]
  | .loop first rest =>
    first.actionPaths.map (0 :: ·) ++ actionPathsFrom 1 rest
  | .nop => []

/-- The paths to the actions of a list of statements, the first of which has
the index `i`. -/
def actionPathsFrom (i : Nat) : List Statement → List (List Nat)
  | [] => []
  | s :: rest => s.actionPaths.map (i :: ·) ++ actionPathsFrom (i + 1) rest

end

theorem actionPaths_loop (first : Statement) (rest : List Statement) :
    (Statement.loop first rest).actionPaths =
      actionPathsFrom 0 (first :: rest) := by
  rw [actionPaths, actionPathsFrom]

/-- A path into a list of statements is an index and a path from the statement
that it selects. -/
theorem mem_actionPathsFrom {i : Nat} {ss : List Statement} {q : List Nat} :
    q ∈ actionPathsFrom i ss ↔
      ∃ j s r, ss[j]? = some s ∧ q = (i + j) :: r ∧ r ∈ s.actionPaths := by
  induction ss generalizing i with
  | nil => simp [actionPathsFrom]
  | cons s ss ih =>
      rw [actionPathsFrom, List.mem_append, List.mem_map, ih]
      constructor
      · rintro (⟨r, hr, rfl⟩ | ⟨j, t, r, ht, rfl, hr⟩)
        · exact ⟨0, s, r, rfl, rfl, hr⟩
        · exact ⟨j + 1, t, r, ht, by rw [Nat.add_right_comm]; rfl, hr⟩
      · rintro ⟨j, t, r, ht, rfl, hr⟩
        cases j with
        | zero =>
            cases ht
            exact .inl ⟨r, hr, rfl⟩
        | succ j =>
            exact .inr ⟨j, t, r, ht, by rw [Nat.add_right_comm]; rfl, hr⟩

/-- **The paths listed** are those that lead to an action. -/
theorem mem_actionPaths {s : Statement} {q : List Nat} :
    q ∈ s.actionPaths ↔ ∃ a, s.descend? q = some (.action a) := by
  induction s using Statement.induction generalizing q with
  | action a =>
      cases q with
      | nil => exact iff_of_true List.mem_cons_self ⟨a, rfl⟩
      | cons i q => simp [actionPaths, descend?, children]
  | loop first rest ih =>
      rw [actionPaths_loop, mem_actionPathsFrom]
      cases q with
      | nil => simp [descend?]
      | cons i q =>
          -- The index selects a statement of the block, for which `ih` holds.
          simp only [descend?, children, Option.bind_eq_bind,
            Option.bind_eq_some_iff]
          constructor
          · rintro ⟨j, t, r, ht, heq, hr⟩
            rw [Nat.zero_add] at heq
            cases heq
            obtain ⟨a, ha⟩ := (ih t (List.mem_of_getElem? ht)).1 hr
            exact ⟨a, t, ht, ha⟩
          · rintro ⟨a, t, ht, ha⟩
            refine ⟨i, t, q, ht, by rw [Nat.zero_add], ?_⟩
            exact (ih t (List.mem_of_getElem? ht)).2 ⟨a, ha⟩
  | nop =>
      cases q with
      | nil => simp [actionPaths, descend?]
      | cons i q => simp [actionPaths, descend?, children]

theorem pairwise_actionPathsFrom {ss : List Statement}
    (h : ∀ s ∈ ss, s.actionPaths.Pairwise (· < ·)) (i : Nat) :
    (actionPathsFrom i ss).Pairwise (· < ·) := by
  induction ss generalizing i with
  | nil => exact .nil
  | cons s ss ih =>
      obtain ⟨hs, hss⟩ := List.forall_mem_cons.1 h
      rw [actionPathsFrom, List.pairwise_append]
      refine ⟨?_, ih hss (i + 1), ?_⟩
      · rw [List.pairwise_map]
        exact hs.imp fun hlt => List.cons_lt_cons_iff.2 (.inr ⟨rfl, hlt⟩)
      · intro q hq q' hq'
        obtain ⟨r, _, rfl⟩ := List.mem_map.1 hq
        obtain ⟨j, t, r', _, rfl, _⟩ := mem_actionPathsFrom.1 hq'
        exact List.cons_lt_cons_iff.2 (.inl (by omega))

/-- **The paths ascend** in the lexicographic order. -/
theorem pairwise_actionPaths (s : Statement) :
    s.actionPaths.Pairwise (· < ·) := by
  induction s using Statement.induction with
  | action a => exact List.pairwise_singleton _ _
  | loop first rest ih =>
      rw [actionPaths_loop]
      exact pairwise_actionPathsFrom ih 0
  | nop => exact .nil

mutual

/-- **One path for each action.** -/
theorem length_actionPaths : (s : Statement) →
    s.actionPaths.length = s.actionCount
  | .action _ => rfl
  | .loop first rest => by
      rw [actionPaths, List.length_append, List.length_map,
        length_actionPaths first, length_actionPathsFrom 1 rest, actionCount]
  | .nop => rfl

theorem length_actionPathsFrom (i : Nat) : (ss : List Statement) →
    (actionPathsFrom i ss).length = actionCountList ss
  | [] => rfl
  | s :: rest => by
      rw [actionPathsFrom, List.length_append, List.length_map,
        length_actionPaths s, length_actionPathsFrom (i + 1) rest,
        actionCountList]

end

/-- Only a loop has statements directly inside. -/
theorem exists_looped_of_children {s t : Statement} {i : Nat}
    (h : s.children[i]? = some t) : ∃ b : Block, s = b.looped := by
  cases s with
  | action a => cases h
  | nop => cases h
  | loop first rest => exact ⟨⟨first, rest⟩, rfl⟩

end Statement

/-! ## Paths into programs -/

namespace Program

variable {p : Program}

/-- The paths that lead to the actions of a program, from left to right. -/
def actionPaths (p : Program) : List (List Nat) :=
  Statement.actionPathsFrom 0 p.statements

theorem mem_actionPaths {q : List Nat} :
    q ∈ p.actionPaths ↔ ∃ a, p.statementAt? q = some (.action a) := by
  rw [actionPaths, Statement.mem_actionPathsFrom]
  cases q with
  | nil => simp [statementAt?]
  | cons i q =>
      simp only [statementAt?, Option.bind_eq_bind, Option.bind_eq_some_iff]
      constructor
      · rintro ⟨j, s, r, hs, heq, hr⟩
        rw [Nat.zero_add] at heq
        cases heq
        obtain ⟨a, ha⟩ := Statement.mem_actionPaths.1 hr
        exact ⟨a, s, hs, ha⟩
      · rintro ⟨a, s, hs, ha⟩
        exact ⟨i, s, q, hs, by rw [Nat.zero_add],
          Statement.mem_actionPaths.2 ⟨a, ha⟩⟩

/-- No two actions have the same path. -/
theorem nodup_actionPaths (p : Program) : p.actionPaths.Nodup := by
  have hordered : p.actionPaths.Pairwise (· < ·) :=
    Statement.pairwise_actionPathsFrom (fun s _ => s.pairwise_actionPaths) 0
  apply hordered.imp
  intro q q' hlt heq
  rw [heq] at hlt
  exact List.lt_irrefl q' hlt

theorem length_actionPaths (p : Program) :
    p.actionPaths.length = p.actionCount :=
  Statement.length_actionPathsFrom 0 p.statements

/-! ## Loops on the way -/

theorem statementAt?_singleton (p : Program) (i : Nat) :
    p.statementAt? [i] = p.statements[i]? := by
  show (p.statements[i]? >>= fun s => some s) = p.statements[i]?
  cases p.statements[i]? with
  | none => rfl
  | some s => rfl

/-- **One more index** selects among the statements of the loop that has been
reached. -/
theorem statementAt?_concat {q : List Nat} {b : Block}
    (h : p.statementAt? q = some b.looped) (i : Nat) :
    p.statementAt? (q ++ [i]) = b.toList[i]? := by
  have hq : q ≠ [] := by
    rintro rfl
    cases h
  rw [p.statementAt?_append hq, h]
  show (b.toList[i]? >>= fun s => some s) = b.toList[i]?
  cases b.toList[i]? with
  | none => rfl
  | some s => rfl

/-- A path that goes on has come to a loop. -/
theorem exists_looped_of_append {q r : List Nat} (hq : q ≠ []) (hr : r ≠ [])
    {s : Statement} (h : p.statementAt? (q ++ r) = some s) :
    ∃ b : Block, p.statementAt? q = some b.looped := by
  cases r with
  | nil => exact absurd rfl hr
  | cons i r =>
      rw [p.statementAt?_append hq] at h
      obtain ⟨t, ht, hdescend⟩ := Option.bind_eq_some_iff.1 h
      obtain ⟨u, hu, _⟩ := Option.bind_eq_some_iff.1 hdescend
      obtain ⟨b, rfl⟩ := Statement.exists_looped_of_children hu
      exact ⟨b, ht⟩

theorem hasLoop_iff :
    p.hasLoop = true ↔
      ∃ (i : Nat) (b : Block), p.statementAt? [i] = some b.looped := by
  simp only [hasLoop, List.any_eq_true, statementAt?_singleton]
  constructor
  · rintro ⟨s, hs, hloop⟩
    obtain ⟨i, hi⟩ := List.getElem?_of_mem hs
    cases s with
    | action a => cases hloop
    | nop => cases hloop
    | loop first rest => exact ⟨i, ⟨first, rest⟩, hi⟩
  · rintro ⟨i, b, hi⟩
    exact ⟨b.looped, List.mem_of_getElem? hi, rfl⟩

/-- A path with more than one index goes through an outermost loop. -/
theorem hasLoop_of_long {q : List Nat} {s : Statement} (hlong : 2 ≤ q.length)
    (h : p.statementAt? q = some s) : p.hasLoop = true := by
  match q with
  | i :: j :: r =>
      have hloop := exists_looped_of_append (q := [i]) (r := j :: r)
        (List.cons_ne_nil i []) (List.cons_ne_nil j r) h
      exact hasLoop_iff.2 ⟨i, hloop⟩

/-- A loop at any depth lies in an outermost one. -/
theorem hasLoop_of_looped {q : List Nat} {b : Block}
    (h : p.statementAt? q = some b.looped) : p.hasLoop = true := by
  have hfirst : p.statementAt? (q ++ [0]) = some b.first :=
    statementAt?_concat h 0
  cases q with
  | nil => cases h
  | cons i q => exact hasLoop_of_long (by simp) hfirst

end Program

/-- **Every statement has one path, and every path goes through loops.**

* As many paths lead to an action as there are actions written in the program.
* There is a loop exactly if some path leads to one, at whatever depth, and
  exactly if some path with more than one index leads anywhere.
* A path can be prolonged by an index exactly if it leads to a loop with so many
  statements, and then it leads to that one of them.
* Whatever a path leads to, the shorter paths that it begins with lead to
  loops. -/
theorem paths_address_statements (p : Program) :
    (p.actionPaths.Nodup ∧
      (∀ q, q ∈ p.actionPaths ↔ ∃ a, p.statementAt? q = some (.action a)) ∧
      p.actionCount = p.actionPaths.length) ∧
    (p.hasLoop = true ↔
      ∃ (q : List Nat) (b : Block), p.statementAt? q = some b.looped) ∧
    (p.hasLoop = true ↔
      ∃ (q : List Nat) (s : Statement),
        2 ≤ q.length ∧ p.statementAt? q = some s) ∧
    (∀ (q : List Nat) (i : Nat), q ≠ [] →
      ((∃ s, p.statementAt? (q ++ [i]) = some s) ↔
        ∃ b : Block, p.statementAt? q = some b.looped ∧
          i < b.toList.length) ∧
      ∀ b : Block, p.statementAt? q = some b.looped →
        p.statementAt? (q ++ [i]) = b.toList[i]?) ∧
    ∀ (q q' : List Nat) (s : Statement), p.statementAt? q = some s →
      q' <+: q → q' ≠ [] → q'.length < q.length →
      ∃ b : Block, p.statementAt? q' = some b.looped := by
  refine ⟨⟨p.nodup_actionPaths, fun q => Program.mem_actionPaths,
    p.length_actionPaths.symm⟩, ?_, ?_, ?_, ?_⟩
  · constructor
    · intro h
      obtain ⟨i, b, hb⟩ := Program.hasLoop_iff.1 h
      exact ⟨[i], b, hb⟩
    · rintro ⟨q, b, hb⟩
      exact Program.hasLoop_of_looped hb
  · constructor
    · -- A block is never empty, so a loop has a first statement to lead to.
      intro h
      obtain ⟨i, b, hb⟩ := Program.hasLoop_iff.1 h
      exact ⟨[i] ++ [0], b.first, by simp, Program.statementAt?_concat hb 0⟩
    · rintro ⟨q, s, hlong, hs⟩
      exact Program.hasLoop_of_long hlong hs
  · intro q i hq
    refine ⟨⟨?_, ?_⟩, fun b hb => Program.statementAt?_concat hb i⟩
    · rintro ⟨s, hs⟩
      obtain ⟨b, hb⟩ :=
        Program.exists_looped_of_append hq (List.cons_ne_nil i []) hs
      rw [Program.statementAt?_concat hb] at hs
      exact ⟨b, hb, (List.getElem?_eq_some_iff.1 hs).1⟩
    · rintro ⟨b, hb, hi⟩
      refine ⟨b.toList[i], ?_⟩
      rw [Program.statementAt?_concat hb, List.getElem?_eq_getElem hi]
  · rintro _ q' s hs ⟨r, rfl⟩ hq' hlength
    have hr : r ≠ [] := by
      rintro rfl
      rw [List.append_nil] at hlength
      exact absurd hlength (Nat.lt_irrefl _)
    exact Program.exists_looped_of_append hq' hr hs

/-- A loop inside a loop: three paths lead to actions, the longest of them goes
through both loops, and none leads behind the last statement of the inner
one. -/
theorem paths_address_statements_nested :
    let p : Program :=
      ⟨[.action .wait,
        .loop (.action .move) [.loop .nop [.action .turnLeft]]]⟩
    p.actionPaths = [[0], [1, 0], [1, 1, 1]] ∧ p.actionCount = 3 ∧
      p.statementAt? [1, 1, 1] = some (.action .turnLeft) ∧
      (∃ b : Block, p.statementAt? [1] = some b.looped) ∧
      p.statementAt? [1, 1, 2] = none ∧ p.hasLoop = true := by
  intro p
  obtain ⟨⟨-, -, hcount⟩, hloop, -, hconcat, hthrough⟩ :=
    paths_address_statements p
  have hturn : p.statementAt? [1, 1, 1] = some (.action .turnLeft) := by decide
  have houter : ∃ b : Block, p.statementAt? [1] = some b.looped :=
    hthrough [1, 1, 1] [1] _ hturn ⟨[1, 1], rfl⟩ (by decide) (by decide)
  have hinner : p.statementAt? [1, 1] =
      some (Block.looped ⟨.nop, [.action .turnLeft]⟩) := by decide
  refine ⟨by decide, hcount, hturn, houter, ?_, ?_⟩
  · exact (hconcat [1, 1] 2 (by decide)).2 _ hinner
  · exact hloop.2 ⟨[1, 1], _, hinner⟩

end RobotScript
