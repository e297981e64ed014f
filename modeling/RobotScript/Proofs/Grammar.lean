import RobotScript.Program.Basic
import RobotScript.Token.Basic

/-!
# The grammar, seen from the tree

A script is a flat list of tokens, and the tokens of a tree are plain to
write down: a keyword and `;` for an action, `loop` and a block in braces for a
loop.  A `nop` is not written at all, so a tree with a `nop` is not the only
one with its tokens.

The trees that can be read back are those without a `nop`.  Two weaker notions
tell what becomes of the others: `filled`, that no block consists of `nop`s
only, and `strip`, the tree without its `nop`s.

## Main results

* `tokensList_stripList` — stripping does not change the tokens.
* `nopFreeList_stripList` — in a filled tree stripping leaves no `nop`.
* `stripList_of_nopFree` — and a tree without a `nop` is left as it is.
* `count_openBrace_tokensList` — the braces of a tree are balanced.
-/

namespace RobotScript

namespace Statement

/-! ## Tokens and nesting -/

mutual

/-- The tokens a statement is written with. -/
def tokens : Statement → List Token
  | .action a => [.action a, .semicolon]
  | .loop first rest =>
    .loop :: .openBrace :: (first.tokens ++ tokensList rest ++ [.closeBrace])
  | .nop => []

/-- The tokens a list of statements is written with. -/
def tokensList : List Statement → List Token
  | [] => []
  | s :: rest => s.tokens ++ tokensList rest

end

mutual

/-- The largest number of loops that a statement inside `s` lies in, those
around `s` not counted. -/
def nesting : Statement → Nat
  | .action _ => 0
  | .loop first rest => max first.nesting (nestingList rest) + 1
  | .nop => 0

/-- The largest number of loops that a statement inside a list lies in. -/
def nestingList : List Statement → Nat
  | [] => 0
  | s :: rest => max s.nesting (nestingList rest)

end

theorem tokens_loop (first : Statement) (rest : List Statement) :
    (Statement.loop first rest).tokens =
      [.loop, .openBrace] ++ tokensList (first :: rest) ++ [.closeBrace] := by
  simp [tokens, tokensList]

theorem nesting_loop (first : Statement) (rest : List Statement) :
    (Statement.loop first rest).nesting = nestingList (first :: rest) + 1 := rfl

theorem tokensList_append (ss ts : List Statement) :
    tokensList (ss ++ ts) = tokensList ss ++ tokensList ts := by
  induction ss with
  | nil => rfl
  | cons s ss ih =>
      simp only [List.cons_append, tokensList, ih, List.append_assoc]

mutual

theorem count_openBrace_tokens : (s : Statement) →
    s.tokens.count .openBrace = s.tokens.count .closeBrace
  | .action a => by simp [tokens]
  | .loop first rest => by
      have h := count_openBrace_tokensList (first :: rest)
      simp only [tokens_loop, List.count_append, h]
      simp [Nat.add_comm]
  | .nop => rfl

/-- As many blocks are closed as are opened. -/
theorem count_openBrace_tokensList : (ss : List Statement) →
    (tokensList ss).count .openBrace = (tokensList ss).count .closeBrace
  | [] => rfl
  | s :: rest => by
      have hs := count_openBrace_tokens s
      have hrest := count_openBrace_tokensList rest
      simp only [tokensList, List.count_append, hs, hrest]

end

/-! ## Statements that do nothing -/

/-- Whether the statement is a `nop`. -/
def isNop : Statement → Bool
  | .nop => true
  | .action _ => false
  | .loop _ _ => false

mutual

/-- Whether there is no `nop` in a statement. -/
def nopFree : Statement → Bool
  | .action _ => true
  | .loop first rest => first.nopFree && nopFreeList rest
  | .nop => false

/-- Whether there is no `nop` in a list of statements. -/
def nopFreeList : List Statement → Bool
  | [] => true
  | s :: rest => s.nopFree && nopFreeList rest

end

mutual

/-- Whether every block in a statement has a statement other than `nop`. -/
def filled : Statement → Bool
  | .action _ => true
  | .loop first rest =>
    (first :: rest).any (!·.isNop) && (first.filled && filledList rest)
  | .nop => true

/-- Whether every block in a list of statements has a statement other than
`nop`. -/
def filledList : List Statement → Bool
  | [] => true
  | s :: rest => s.filled && filledList rest

end

mutual

/-- A statement without its `nop`s: no statement if it is one itself, and one
statement otherwise.  A block that has nothing else keeps a single `nop`, since
there is no empty block. -/
def strip : Statement → List Statement
  | .action a => [.action a]
  | .loop first rest =>
    match first.strip ++ stripList rest with
    | [] => [.loop .nop []]
    | first :: rest => [.loop first rest]
  | .nop => []

/-- A list of statements without its `nop`s. -/
def stripList : List Statement → List Statement
  | [] => []
  | s :: rest => s.strip ++ stripList rest

end

theorem nopFreeList_append (ss ts : List Statement) :
    nopFreeList (ss ++ ts) = (nopFreeList ss && nopFreeList ts) := by
  induction ss with
  | nil => rfl
  | cons s ss ih =>
      simp only [List.cons_append, nopFreeList, ih, Bool.and_assoc]

theorem nopFreeList_reverse (ss : List Statement) :
    nopFreeList ss.reverse = nopFreeList ss := by
  induction ss with
  | nil => rfl
  | cons s ss ih =>
      rw [List.reverse_cons, nopFreeList_append, ih]
      simp [nopFreeList, Bool.and_comm]

theorem strip_loop (first : Statement) (rest : List Statement) :
    (Statement.loop first rest).strip =
      match stripList (first :: rest) with
      | [] => [.loop .nop []]
      | first :: rest => [.loop first rest] := rfl

theorem filled_loop (first : Statement) (rest : List Statement) :
    (Statement.loop first rest).filled =
      ((first :: rest).any (!·.isNop) && filledList (first :: rest)) := rfl

theorem strip_eq_nil_iff (s : Statement) : s.strip = [] ↔ s.isNop = true := by
  cases s with
  | action a => simp [strip, isNop]
  | nop => simp [strip, isNop]
  | loop first rest =>
      rw [strip_loop]
      split <;> simp [isNop]

/-- Nothing is left of a list exactly if it consists of `nop`s only. -/
theorem stripList_eq_nil_iff (ss : List Statement) :
    stripList ss = [] ↔ ss.any (!·.isNop) = false := by
  induction ss with
  | nil => simp [stripList]
  | cons s ss ih =>
      simp only [stripList, List.append_eq_nil_iff, strip_eq_nil_iff, ih,
        List.any_cons, Bool.or_eq_false_iff, Bool.not_eq_false']

mutual

theorem tokensList_strip : (s : Statement) → tokensList s.strip = s.tokens
  | .action a => rfl
  | .loop first rest => by
      have h := tokensList_stripList (first :: rest)
      rw [strip_loop, tokens_loop, ← h]
      split
      · next heq => simp [heq, tokensList, tokens]
      · next heq => simp [heq, tokensList, tokens]
  | .nop => rfl

/-- Stripping does not change the tokens. -/
theorem tokensList_stripList : (ss : List Statement) →
    tokensList (stripList ss) = tokensList ss
  | [] => rfl
  | s :: rest => by
      rw [stripList, tokensList_append, tokensList_strip s,
        tokensList_stripList rest, tokensList]

end

mutual

theorem nopFreeList_strip : (s : Statement) → s.filled = true →
    nopFreeList s.strip = true
  | .action a, _ => rfl
  | .loop first rest, h => by
      rw [filled_loop, Bool.and_eq_true] at h
      have hstrip := nopFreeList_stripList (first :: rest) h.2
      rw [strip_loop]
      split
      · next heq =>
        rw [stripList_eq_nil_iff, h.1] at heq
        cases heq
      · next heq =>
        rw [heq] at hstrip
        simpa [nopFreeList, nopFree] using hstrip
  | .nop, _ => rfl

/-- In filled statements stripping leaves no `nop`. -/
theorem nopFreeList_stripList : (ss : List Statement) → filledList ss = true →
    nopFreeList (stripList ss) = true
  | [], _ => rfl
  | s :: rest, h => by
      rw [filledList, Bool.and_eq_true] at h
      rw [stripList, nopFreeList_append, nopFreeList_strip s h.1,
        nopFreeList_stripList rest h.2]
      rfl

end

mutual

theorem strip_of_nopFree : (s : Statement) → s.nopFree = true → s.strip = [s]
  | .action a, _ => rfl
  | .loop first rest, h => by
      rw [strip_loop, stripList_of_nopFree (first :: rest) h]

/-- Statements without a `nop` are left as they are. -/
theorem stripList_of_nopFree : (ss : List Statement) →
    nopFreeList ss = true → stripList ss = ss
  | [], _ => rfl
  | s :: rest, h => by
      rw [nopFreeList, Bool.and_eq_true] at h
      rw [stripList, strip_of_nopFree s h.1, stripList_of_nopFree rest h.2]
      rfl

end

theorem isNop_of_nopFree {s : Statement} (h : s.nopFree = true) :
    s.isNop = false := by
  cases s with
  | action a => rfl
  | loop first rest => rfl
  | nop => cases h

mutual

theorem filled_of_nopFree : (s : Statement) → s.nopFree = true →
    s.filled = true
  | .action a, _ => rfl
  | .loop first rest, h => by
      have hlist := filledList_of_nopFree (first :: rest) h
      rw [nopFree, Bool.and_eq_true] at h
      rw [filled_loop, hlist, List.any_cons, isNop_of_nopFree h.1]
      rfl

/-- Statements without a `nop` are filled. -/
theorem filledList_of_nopFree : (ss : List Statement) →
    nopFreeList ss = true → filledList ss = true
  | [], _ => rfl
  | s :: rest, h => by
      rw [nopFreeList, Bool.and_eq_true] at h
      rw [filledList, filled_of_nopFree s h.1, filledList_of_nopFree rest h.2]
      rfl

end

end Statement

namespace Program

/-- The tokens a program is written with. -/
def tokens (p : Program) : List Token :=
  Statement.tokensList p.statements

/-- The largest number of loops that a statement of the program lies in. -/
def nesting (p : Program) : Nat :=
  Statement.nestingList p.statements

/-- Whether there is no `nop` in a program. -/
def nopFree (p : Program) : Bool :=
  Statement.nopFreeList p.statements

/-- Whether every block in a program has a statement other than `nop`. -/
def filled (p : Program) : Bool :=
  Statement.filledList p.statements

/-- A program without its `nop`s. -/
def strip (p : Program) : Program :=
  ⟨Statement.stripList p.statements⟩

end Program

end RobotScript
