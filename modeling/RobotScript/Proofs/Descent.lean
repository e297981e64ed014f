import RobotScript.Proofs.Acceptance

/-!
# Reading by recursive descent

The grammar is recursive: a block is made of statements, and a statement may be
a loop around a block.  The body of a block is read in one pass nevertheless,
and the statements of the blocks around the innermost one wait in a list.

Here this pass is shown to be the descent that the grammar tells.  `blockBody`
reads one statement after the other and goes into an inner block by reading it
as a statement.  The block is opened before and closed behind it, by the
operations of the cursor.  Every statement takes a token, so the equation
`block_descends`, together with the productions of a loop and of a statement,
leaves nothing open.

## Main results

* `bodyFrom_append` — blocks that wait do not matter to the block inside.
* `bodyFrom_statement_first` — the body of a block begins with a statement.
* `block_descends` — a block is read by descent, at every cursor.
-/

namespace RobotScript

namespace Reading

/-! ## The productions -/

/-- Reads the statements of a block up to its closing brace, which is not taken,
behind those in `done`, the last one first. -/
def blockStatements (done : List Statement) (c : Cursor) :
    EStateM.Result SyntaxError Cursor (List Statement) :=
  match c.peek? with
  | some .closeBrace => .ok done.reverse c
  | some _ =>
    match _h : statement c with
    | .ok s c' => blockStatements (s :: done) c'
    | .error e c' => .error e c'
  | none => fail (.missing "'\x7d'") c
termination_by c.rest.length
decreasing_by exact statement_length_lt _h

/-- Makes a block of the statements and takes its closing brace. -/
def closeBrace (ss : List Statement) : Reading Block := do
  let some b := Block.ofList? ss | fail .emptyBlock
  unless ← accept .closeBrace do
    fail (.missing "'\x7d'")
  return b

/-- Reads the body of a block behind the statements in `done`, one statement
after the other.  The block stays open. -/
def blockBody (done : List Statement) : Reading Block := do
  closeBrace (← blockStatements done)

/-! ## Blocks that wait -/

/-- **Blocks that wait** do not matter to the block inside.  When it has been
read, the block around it goes on behind it. -/
theorem bodyFrom_append (inner : List (List Statement))
    (around : List Statement) (outer : List (List Statement))
    (done : List Statement) (line depth : Nat) (ls : List Lexeme) :
    bodyFrom (inner ++ around :: outer) done line depth ls =
      match bodyFrom inner done line depth ls with
      | .ok b c => bodyFrom outer (b.looped :: around) c.line c.depth c.rest
      | .error e c => .error e c := by
  fun_induction bodyFrom inner done line depth ls with
  | case1 => simp only [bodyFrom, fail]
  | case2 => simp only [bodyFrom, fail, *]
  | case3 => simp only [bodyFrom, List.nil_append, Block.looped, *]
  | case4 =>
      next ih =>
      rw [← ih]
      simp only [bodyFrom, List.cons_append, *]
  | case5 => simp only [bodyFrom, fail, if_pos, *]
  | case6 =>
      next hroom ih =>
      rw [← ih]
      simp only [bodyFrom, List.cons_append, if_neg hroom]
  | case7 => simp only [bodyFrom, fail, *]
  | case8 =>
      next ih =>
      rw [← ih]
      simp only [bodyFrom]
  | case9 => simp only [bodyFrom, fail, *]
  | case10 => simp only [bodyFrom, fail, *]

/-! ## One statement after the other -/

/-- The body of a block begins with a statement, unless the block is closed. -/
theorem bodyFrom_statement_first (done : List Statement) (line depth : Nat)
    {l : Lexeme} (rest : List Lexeme) (hopen : l.token ≠ .closeBrace) :
    bodyFrom [] done line depth (l :: rest) =
      match statement ⟨l :: rest, line, depth⟩ with
      | .ok s c => bodyFrom [] (s :: done) c.line c.depth c.rest
      | .error e c => .error e c := by
  obtain ⟨t, here⟩ := l
  cases t with
  | closeBrace => exact absurd rfl hopen
  | loop =>
      cases rest with
      | nil => rfl
      | cons l rest =>
          obtain ⟨t, openLine⟩ := l
          cases t with
          | openBrace =>
              rw [statement_loop, block_openBrace]
              by_cases hdeep : maxDepth ≤ depth
              · simp only [bodyFrom, if_pos hdeep, fail, wrap]
              · -- The block waits in the list while the inner one is read.
                have hinner :=
                  bodyFrom_append [] done [] [] openLine (depth + 1) rest
                rw [List.nil_append] at hinner
                simp only [bodyFrom, if_neg hdeep, hinner]
                cases bodyFrom [] [] openLine (depth + 1) rest with
                | ok b c => rfl
                | error e c => rfl
          | _ => rfl
  | action a =>
      cases rest with
      | nil => rfl
      | cons l rest =>
          obtain ⟨t, semicolonLine⟩ := l
          cases t <;> rfl
  | _ => rfl

/-- The closing brace ends the body of a block, which may not be empty. -/
theorem bodyFrom_closeBrace (done : List Statement) (line depth here : Nat)
    (rest : List Lexeme) :
    bodyFrom [] done line depth (⟨.closeBrace, here⟩ :: rest) =
      match closeBrace done.reverse
        ⟨⟨.closeBrace, here⟩ :: rest, line, depth⟩ with
      | .ok b c => .ok b c.leaveBlock
      | .error e c => .error e c := by
  cases hdone : done.reverse with
  | nil =>
      simp only [bodyFrom, hdone]
      rfl
  | cons first more =>
      simp only [bodyFrom, hdone]
      rfl

/-- Unless the block is closed, its body begins with a statement. -/
theorem blockBody_statement_first (done : List Statement) (line depth : Nat)
    {l : Lexeme} (rest : List Lexeme) (hopen : l.token ≠ .closeBrace) :
    blockBody done ⟨l :: rest, line, depth⟩ =
      match statement ⟨l :: rest, line, depth⟩ with
      | .ok s c => blockBody (s :: done) c
      | .error e c => .error e c := by
  have hnext : blockStatements done ⟨l :: rest, line, depth⟩ =
      match statement ⟨l :: rest, line, depth⟩ with
      | .ok s c => blockStatements (s :: done) c
      | .error e c => .error e c := by
    rw [blockStatements]
    split
    · next hpeek => exact absurd (Option.some.inj hpeek) hopen
    · cases statement ⟨l :: rest, line, depth⟩ with
      | ok s c => rfl
      | error e c => rfl
    · next hpeek => cases hpeek
  simp only [blockBody, bind, EStateM.bind, hnext]
  cases statement ⟨l :: rest, line, depth⟩ with
  | ok s c => rfl
  | error e c => rfl

/-- **The pass over a body** reads one statement after the other, and closes the
block at its end. -/
theorem bodyFrom_eq_blockBody (done : List Statement) (c : Cursor) :
    bodyFrom [] done c.line c.depth c.rest =
      match blockBody done c with
      | .ok b c' => .ok b c'.leaveBlock
      | .error e c' => .error e c' := by
  -- The induction is on the lexemes that are left: a statement takes some.
  match c with
  | ⟨[], line, depth⟩ =>
      simp only [blockBody, bind, EStateM.bind]
      rw [blockStatements]
      rfl
  | ⟨l :: rest, line, depth⟩ =>
      by_cases hclose : l.token = .closeBrace
      · obtain ⟨t, here⟩ := l
        obtain rfl : t = .closeBrace := hclose
        have hbody : blockBody done ⟨⟨.closeBrace, here⟩ :: rest, line, depth⟩ =
            closeBrace done.reverse
              ⟨⟨.closeBrace, here⟩ :: rest, line, depth⟩ := by
          simp only [blockBody, bind, EStateM.bind]
          rw [blockStatements]
          rfl
        rw [hbody]
        exact bodyFrom_closeBrace done line depth here rest
      · rw [bodyFrom_statement_first done line depth rest hclose,
          blockBody_statement_first done line depth rest hclose]
        cases hs : statement ⟨l :: rest, line, depth⟩ with
        | ok s c' => exact bodyFrom_eq_blockBody (s :: done) c'
        | error e c' => rfl
termination_by c.rest.length
decreasing_by exact statement_length_lt hs

/-- **A block is read by descent.**  Its brace is taken and it is opened, its
statements are read up to the other brace, and it is closed. -/
theorem block_descends :
    block = do
      require .openBrace
      enterBlock
      let b ← blockBody []
      modify Cursor.leaveBlock
      return b := by
  have hbody : body = do
      let b ← blockBody []
      modify Cursor.leaveBlock
      return b := by
    funext c
    rw [body, bodyFrom_eq_blockBody]
    simp only [bind, EStateM.bind]
    cases blockBody [] c with
    | ok b c' => rfl
    | error e c' => rfl
  rw [block, hbody]

end Reading

end RobotScript
