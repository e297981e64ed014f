import RobotScript.Program.Basic
import RobotScript.Reading.Cursor

/-!
# Reading statements

The grammar has four productions below the whole script:

* an action is its keyword and `;`;
* a block is `{`, at least one statement, and `}`;
* a loop is `loop` and a block;
* a statement is a loop or an action, told apart by the next token.

Blocks nest, and the body of a block is read without recursion into the inner
blocks: the unfinished statements of the blocks around the innermost one are
kept in a list, innermost first.  `Reading.bodyFrom` is then a single pass over
the lexemes, structurally recursive on them.  That it reads what the recursive
productions read, and opens and closes blocks as they do, is
`Reading.block_descends`.
-/

namespace RobotScript

namespace Reading

/-- Takes the keyword of an action. -/
def actionKeyword : Reading Action := fun c =>
  match c.rest with
  | ⟨.action a, line⟩ :: rest => .ok a { c with rest := rest, line := line }
  | _ => fail (.missing "an action") c

/-- Reads an action with its semicolon. -/
def action : Reading Statement := do
  let a ← actionKeyword
  require .semicolon
  return .action a

/-- Reads the body of a block up to and including its closing brace.

`done` holds the statements of the innermost open block so far, last one first,
and `outer` those of the blocks around it that were opened here.  `line` and
`depth` are the cursor's. -/
def bodyFrom (outer : List (List Statement)) (done : List Statement)
    (line depth : Nat) :
    List Lexeme → EStateM.Result SyntaxError Cursor Block
  | [] => fail (.missing "'\x7d'") ⟨[], line, depth⟩
  | ⟨.closeBrace, here⟩ :: rest =>
    match done.reverse, outer with
    | [], _ => fail .emptyBlock ⟨⟨.closeBrace, here⟩ :: rest, line, depth⟩
    | first :: more, [] => .ok ⟨first, more⟩ ⟨rest, here, depth - 1⟩
    | first :: more, around :: outer =>
      bodyFrom outer (.loop first more :: around) here (depth - 1) rest
  | ⟨.loop, _⟩ :: ⟨.openBrace, here⟩ :: rest =>
    if maxDepth ≤ depth then
      fail (.tooDeep maxDepth) ⟨rest, here, depth⟩
    else
      bodyFrom (done :: outer) [] here (depth + 1) rest
  | ⟨.loop, here⟩ :: rest => fail (.missing "'\x7b'") ⟨rest, here, depth⟩
  | ⟨.action a, _⟩ :: ⟨.semicolon, here⟩ :: rest =>
    bodyFrom outer (.action a :: done) here depth rest
  | ⟨.action _, here⟩ :: rest => fail (.missing "';'") ⟨rest, here, depth⟩
  | rest => fail .invalidStatement ⟨rest, line, depth⟩

/-- Reads the body of the block that was just opened. -/
def body : Reading Block := fun c =>
  bodyFrom [] [] c.line c.depth c.rest

/-- Reads a block in braces. -/
def block : Reading Block := do
  require .openBrace
  enterBlock
  body

/-- Reads a loop. -/
def loop : Reading Statement := do
  require .loop
  return (← block).looped

/-- Reads one statement. -/
def statement : Reading Statement := fun c =>
  match c.peek? with
  | some .loop => loop c
  | some (.action _) => action c
  | _ => fail .invalidStatement c

/-! ## Every statement takes a token -/

theorem accept_length_lt {t : Token} {c c' : Cursor}
    (h : accept t c = .ok true c') : c'.rest.length < c.rest.length := by
  unfold accept at h
  split at h
  · cases h
  · next hr =>
    split at h <;> cases h
    simp [hr]

theorem require_length_lt {t : Token} {u : Unit} {c c' : Cursor}
    (h : require t c = .ok u c') : c'.rest.length < c.rest.length := by
  simp only [require, bind, EStateM.bind] at h
  split at h
  · next b c₁ hb =>
    cases b
    · simp [fail] at h
    · cases h
      exact accept_length_lt hb
  · cases h

theorem actionKeyword_length_lt {a : Action} {c c' : Cursor}
    (h : actionKeyword c = .ok a c') : c'.rest.length < c.rest.length := by
  unfold actionKeyword at h
  split at h
  · next hr =>
    cases h
    simp [hr]
  · cases h

theorem bodyFrom_length_lt {outer : List (List Statement)}
    {done : List Statement} {line depth : Nat} {ls : List Lexeme} {b : Block}
    {c : Cursor} (h : bodyFrom outer done line depth ls = .ok b c) :
    c.rest.length < ls.length := by
  fun_induction bodyFrom outer done line depth ls <;>
    grind [fail, List.length_cons]

theorem block_length_lt {b : Block} {c c' : Cursor}
    (h : block c = .ok b c') : c'.rest.length < c.rest.length := by
  simp only [block, bind, EStateM.bind] at h
  split at h
  · next h₁ =>
    have := require_length_lt h₁
    split at h
    · next h₂ =>
      have := bodyFrom_length_lt h
      simp only [enterBlock, fail] at h₂
      split at h₂ <;> cases h₂
      simp only at this
      omega
    · cases h
  · cases h

/-- A statement that was read is at least one token long. -/
theorem statement_length_lt {s : Statement} {c c' : Cursor}
    (h : statement c = .ok s c') : c'.rest.length < c.rest.length := by
  unfold statement at h
  split at h
  · simp only [loop, bind, EStateM.bind] at h
    split at h
    · next h₁ =>
      have := require_length_lt h₁
      split at h
      · next h₂ =>
        have := block_length_lt h₂
        cases h
        omega
      · cases h
    · cases h
  · simp only [action, bind, EStateM.bind] at h
    split at h
    · next h₁ =>
      have := actionKeyword_length_lt h₁
      split at h
      · next h₂ =>
        have := require_length_lt h₂
        cases h
        omega
      · cases h
    · cases h
  · cases h

end Reading

end RobotScript
