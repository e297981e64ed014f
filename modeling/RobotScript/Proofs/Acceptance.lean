import RobotScript.Proofs.Draft
import RobotScript.Proofs.Lexing
import RobotScript.Reading.Program

/-!
# What can be read

Reading statement by statement comes to the same as pushing token by token.
`Reads` is the relation between the two: it tells how a reading that begins
with some draft ends, by pushing the lexemes one after the other until the
result is there or a lexeme cannot come next.  Every production is related to
its drafts in this way, whatever comes behind it and however many blocks are
open around it.

The two sides differ in where they leave the cursor only for a block that is
too deep: its brace has been taken when the fault is found.

## Main results

* `bodyFrom_reads`, `statement_reads`, `program_reads` — the productions push
  their tokens.
* `verdict_of_program` — a script is read as its tokens tell.
* `program_accepts_grammar` — the scripts that can be read are exactly the
  tokens of programs without `nop` that keep to the limit on nesting, and each
  is read as that program.
-/

namespace RobotScript

open Reading

/-- `Stops d line ls fault c` tells that the lexemes `ls` do not go on behind
the draft `d`, the last token of which stands on `line`: what is wrong, and
where the cursor is left. -/
inductive Stops : Draft → Nat → List Lexeme → SyntaxFault → Cursor → Prop
  /-- The next token cannot come here and is not taken. -/
  | refuse {d : Draft} {line : Nat} {l : Lexeme} {rest : List Lexeme}
      {fault : SyntaxFault} (h : d.push maxDepth l.token = .error fault)
      (hne : fault ≠ .tooDeep maxDepth) :
      Stops d line (l :: rest) fault ⟨l :: rest, line, d.depth⟩
  /-- The next token opens a block too many and is taken. -/
  | overflow {d : Draft} {line : Nat} {l : Lexeme} {rest : List Lexeme}
      (h : d.push maxDepth l.token = .error (.tooDeep maxDepth)) :
      Stops d line (l :: rest) (.tooDeep maxDepth) ⟨rest, l.line, d.depth⟩
  /-- There is no further token, but the draft is not complete. -/
  | breakOff {d : Draft} {line : Nat} {fault : SyntaxFault}
      (h : d.finish = .error fault) :
      Stops d line [] fault ⟨[], line, d.depth⟩

/-- `Reads target d line ls r` tells that `r` is what becomes of the lexemes
`ls` behind the draft `d`, the last token of which stands on `line`.  A result
`a` is there when the draft is `target a`. -/
inductive Reads {α : Type} (target : α → Draft) :
    Draft → Nat → List Lexeme → EStateM.Result SyntaxError Cursor α → Prop
  /-- The result is there. -/
  | done (a : α) (line : Nat) (rest : List Lexeme) :
      Reads target (target a) line rest
        (.ok a ⟨rest, line, (target a).depth⟩)
  /-- The next token is taken. -/
  | shift {d d' : Draft} {line : Nat} {l : Lexeme} {rest : List Lexeme}
      {r : EStateM.Result SyntaxError Cursor α}
      (h : d.push maxDepth l.token = .ok d')
      (hr : Reads target d' l.line rest r) :
      Reads target d line (l :: rest) r
  /-- The reading stops. -/
  | stop {d : Draft} {line : Nat} {ls : List Lexeme} {fault : SyntaxFault}
      {c : Cursor} (h : Stops d line ls fault c) :
      Reads target d line ls (fail fault c)

/-! ## Productions push their tokens -/

section Productions

variable {α β : Type} {target : α → Draft} {target' : β → Draft}

/-- A reading goes on where another one has ended. -/
theorem Reads.trans {d : Draft} {line : Nat} {ls : List Lexeme} {a : α}
    {c : Cursor} {r : EStateM.Result SyntaxError Cursor β}
    (h : Reads target d line ls (.ok a c))
    (hr : Reads target' (target a) c.line c.rest r) :
    Reads target' d line ls r := by
  generalize hok : EStateM.Result.ok a c = r' at h
  induction h with
  | done b line rest =>
      cases hok
      exact hr
  | shift hpush _ ih => exact .shift hpush (ih hok)
  | stop => cases hok

/-- A reading that fails does so whatever result it was to give. -/
theorem Reads.error {d : Draft} {line : Nat} {ls : List Lexeme}
    {e : SyntaxError} {c : Cursor}
    (h : Reads target d line ls (.error e c)) :
    Reads target' d line ls (.error e c) := by
  generalize herror : EStateM.Result.error e c = r' at h
  induction h with
  | done => cases herror
  | shift hpush _ ih => exact .shift hpush (ih herror)
  | stop hstop =>
      cases herror
      exact .stop hstop

/-- Behind `loop` nothing but an opening brace can come. -/
theorem reads_loop_without_block {outer : List (List Statement)}
    {done : List Statement} {line here : Nat} {rest : List Lexeme}
    (h : ∀ here rest', rest = ⟨.openBrace, here⟩ :: rest' → False) :
    Reads target ⟨outer, done, .nothing⟩ line (⟨.loop, here⟩ :: rest)
      (fail (.missing "'\x7b'") ⟨rest, here, outer.length⟩) := by
  refine .shift (Draft.Takes.loop outer done).push ?_
  cases rest with
  | nil => exact .stop (.breakOff rfl)
  | cons l rest =>
      obtain ⟨t, here'⟩ := l
      refine .stop (.refuse ?_ (by simp))
      cases t with
      | openBrace => exact (h here' rest rfl).elim
      | _ => rfl

/-- Behind the keyword of an action nothing but a semicolon can come. -/
theorem reads_action_without_semicolon {outer : List (List Statement)}
    {done : List Statement} {line here : Nat} {a : Action}
    {rest : List Lexeme}
    (h : ∀ here rest', rest = ⟨.semicolon, here⟩ :: rest' → False) :
    Reads target ⟨outer, done, .nothing⟩ line (⟨.action a, here⟩ :: rest)
      (fail (.missing "';'") ⟨rest, here, outer.length⟩) := by
  refine .shift (Draft.Takes.action outer done a).push ?_
  cases rest with
  | nil => exact .stop (.breakOff rfl)
  | cons l rest =>
      obtain ⟨t, here'⟩ := l
      refine .stop (.refuse ?_ (by simp))
      cases t with
      | semicolon => exact (h here' rest rfl).elim
      | _ => rfl

/-- **The body of a block** pushes its tokens, in whatever blocks it lies. -/
theorem bodyFrom_reads (outer : List (List Statement)) (done : List Statement)
    (line depth : Nat) (ls : List Lexeme) (around : List Statement)
    (context : List (List Statement))
    (hdepth : depth = (outer ++ around :: context).length) :
    Reads (fun b : Block => ⟨context, b.looped :: around, .nothing⟩)
      ⟨outer ++ around :: context, done, .nothing⟩ line ls
      (bodyFrom outer done line depth ls) := by
  fun_induction bodyFrom outer done line depth ls with
  | case1 outer done line depth =>
      subst hdepth
      refine .stop (.breakOff ?_)
      cases outer <;> rfl
  | case2 outer done line depth here rest hdone =>
      subst hdepth
      refine .stop (.refuse ?_ (by simp))
      cases outer <;> simp [Draft.push, hdone]
  | case3 done line depth here rest first more hdone =>
      subst hdepth
      exact .shift (Draft.Takes.closeBrace context around hdone).push
        (.done (⟨first, more⟩ : Block) here rest)
  | case4 done line depth here rest first more inner outer hdone ih =>
      subst hdepth
      exact .shift
        (Draft.Takes.closeBrace (outer ++ around :: context) inner hdone).push
        (ih rfl)
  | case5 outer done line depth loopLine here rest hdeep =>
      subst hdepth
      refine .shift (Draft.Takes.loop _ done).push ?_
      exact .stop (.overflow (if_pos hdeep))
  | case6 outer done line depth loopLine here rest hdeep ih =>
      subst hdepth
      refine .shift (Draft.Takes.loop _ done).push ?_
      exact .shift (if_neg hdeep) (ih rfl)
  | case7 outer done line depth here rest hrest =>
      subst hdepth
      exact reads_loop_without_block hrest
  | case8 outer done line depth a keywordLine here rest ih =>
      subst hdepth
      refine .shift (Draft.Takes.action _ done a).push ?_
      exact .shift rfl (ih rfl)
  | case9 outer done line depth a here rest hrest =>
      subst hdepth
      exact reads_action_without_semicolon hrest
  | case10 outer done line depth rest hnil hclose _ hloop _ haction =>
      subst hdepth
      cases rest with
      | nil => exact (hnil rfl).elim
      | cons l rest =>
          obtain ⟨t, here⟩ := l
          refine .stop (.refuse ?_ (by simp))
          cases t with
          | closeBrace => exact (hclose here rest rfl).elim
          | loop => exact (hloop here rest rfl).elim
          | action a => exact (haction a here rest rfl).elim
          | _ => rfl

/-- The same outcome with its result wrapped. -/
def wrap (f : β → α) : EStateM.Result SyntaxError Cursor β →
    EStateM.Result SyntaxError Cursor α
  | .ok b c => .ok (f b) c
  | .error e c => .error e c

/-- The token that is required is taken. -/
theorem require_of_eq (t : Token) (here line depth : Nat)
    (rest : List Lexeme) :
    require t ⟨⟨t, here⟩ :: rest, line, depth⟩ =
      .ok () ⟨rest, here, depth⟩ := by
  simp [require, accept, bind, EStateM.bind, pure, EStateM.pure]

/-- Any other token, or none, is a fault. -/
theorem require_of_ne (t : Token) (c : Cursor)
    (h : ∀ here rest, c.rest = ⟨t, here⟩ :: rest → False) :
    require t c = fail (.missing s!"'{t.text}'") c := by
  have haccept : accept t c = .ok false c := by
    rw [accept]
    split
    · rfl
    · next l rest hrest =>
      rw [if_neg]
      intro heq
      exact h l.line rest (by rw [hrest, ← heq])
  simp [require, haccept, bind, EStateM.bind]

theorem statement_loop (loopLine line depth : Nat) (rest : List Lexeme) :
    statement ⟨⟨.loop, loopLine⟩ :: rest, line, depth⟩ =
      wrap Block.looped (block ⟨rest, loopLine, depth⟩) := by
  simp only [statement, Cursor.peek?, List.head?_cons, Option.map_some, loop,
    bind, EStateM.bind, require_of_eq]
  cases block ⟨rest, loopLine, depth⟩ with
  | ok b c => rfl
  | error e c => rfl

theorem block_openBrace (here line depth : Nat) (rest : List Lexeme) :
    block ⟨⟨.openBrace, here⟩ :: rest, line, depth⟩ =
      if maxDepth ≤ depth then
        fail (.tooDeep maxDepth) ⟨rest, here, depth⟩
      else
        bodyFrom [] [] here (depth + 1) rest := by
  simp only [block, bind, EStateM.bind, require_of_eq, enterBlock]
  by_cases h : maxDepth ≤ depth
  · simp [h, fail]
  · simp [h, body]

theorem statement_action (keywordLine line depth : Nat) (a : Action)
    (rest : List Lexeme) :
    statement ⟨⟨.action a, keywordLine⟩ :: rest, line, depth⟩ =
      wrap (fun _ => .action a)
        (require .semicolon ⟨rest, keywordLine, depth⟩) := by
  simp only [statement, Cursor.peek?, List.head?_cons, Option.map_some, action,
    bind, EStateM.bind, actionKeyword]
  cases require .semicolon ⟨rest, keywordLine, depth⟩ with
  | ok _ c => rfl
  | error e c => rfl

/-- A result that is only wrapped has been read in the same way. -/
theorem Reads.wrap (target : α → Draft) (f : β → α) {d : Draft} {line : Nat}
    {ls : List Lexeme} {r : EStateM.Result SyntaxError Cursor β}
    (h : Reads (fun b => target (f b)) d line ls r) :
    Reads target d line ls (wrap f r) := by
  induction h with
  | done b line rest => exact .done (f b) line rest
  | shift hpush _ ih => exact .shift hpush ih
  | stop hstop => exact .stop hstop

/-- **A statement** pushes its tokens.  Where a block could be closed instead,
this holds unless it is. -/
theorem statement_reads (context : List (List Statement))
    (around : List Statement) (line : Nat) (l : Lexeme) (rest : List Lexeme)
    (hclose : l.token = .closeBrace → context = []) :
    Reads (fun s => ⟨context, s :: around, .nothing⟩)
      ⟨context, around, .nothing⟩ line (l :: rest)
      (statement ⟨l :: rest, line, context.length⟩) := by
  obtain ⟨t, here⟩ := l
  cases t with
  | loop =>
      rw [statement_loop]
      by_cases hopen : ∃ here rest', rest = ⟨.openBrace, here⟩ :: rest'
      · obtain ⟨here', rest', rfl⟩ := hopen
        rw [block_openBrace]
        refine .shift (Draft.Takes.loop context around).push ?_
        by_cases hdeep : maxDepth ≤ context.length
        · rw [if_pos hdeep]
          exact .stop (.overflow (if_pos hdeep))
        · rw [if_neg hdeep]
          refine .shift (if_neg hdeep) ?_
          exact Reads.wrap (fun s => ⟨context, s :: around, .nothing⟩)
            Block.looped
            (bodyFrom_reads [] [] here' _ rest' around context rfl)
      · have hne : ∀ here rest', rest = ⟨.openBrace, here⟩ :: rest' → False :=
          fun here' rest' h => hopen ⟨here', rest', h⟩
        have hblock : block ⟨rest, here, context.length⟩ =
            fail (.missing "'\x7b'") ⟨rest, here, context.length⟩ := by
          simp only [block, bind, EStateM.bind,
            require_of_ne .openBrace ⟨rest, here, context.length⟩ hne]
          rfl
        rw [hblock]
        exact reads_loop_without_block hne
  | action a =>
      rw [statement_action]
      by_cases hsemi : ∃ here rest', rest = ⟨.semicolon, here⟩ :: rest'
      · obtain ⟨here', rest', rfl⟩ := hsemi
        rw [require_of_eq]
        refine .shift (Draft.Takes.action context around a).push ?_
        exact .shift rfl (.done (Statement.action a) here' rest')
      · have hne : ∀ here rest', rest = ⟨.semicolon, here⟩ :: rest' → False :=
          fun here' rest' h => hsemi ⟨here', rest', h⟩
        rw [require_of_ne .semicolon ⟨rest, here, context.length⟩ hne]
        exact reads_action_without_semicolon hne
  | closeBrace =>
      obtain rfl := hclose rfl
      exact .stop (.refuse rfl (by simp))
  | _ => exact .stop (.refuse rfl (by simp))

/-- A result leaves as many blocks open as its draft. -/
theorem Reads.depth_eq {d : Draft} {line : Nat} {ls : List Lexeme} {a : α}
    {c : Cursor} (h : Reads target d line ls (.ok a c)) :
    c.depth = (target a).depth := by
  generalize hok : EStateM.Result.ok a c = r at h
  induction h with
  | done b line rest =>
      cases hok
      rfl
  | shift _ _ ih => exact ih hok
  | stop => cases hok

theorem statement_reads_of_ne_nil (done : List Statement) {c : Cursor}
    (hdepth : c.depth = 0) (hne : ¬c.rest.isEmpty = true) :
    Reads (fun s => ⟨[], s :: done, .nothing⟩) ⟨[], done, .nothing⟩ c.line
      c.rest (statement c) := by
  obtain ⟨rest, line, depth⟩ := c
  subst hdepth
  cases rest with
  | nil => exact absurd rfl hne
  | cons l rest =>
      exact statement_reads [] done line l rest (fun _ => rfl)

/-- **Statements up to the end** push all their tokens. -/
theorem statementsFrom_reads (done : List Statement) (c : Cursor)
    (hdepth : c.depth = 0) :
    Reads (fun ss : List Statement => ⟨[], ss.reverse, .nothing⟩)
      ⟨[], done, .nothing⟩ c.line c.rest (statementsFrom done c) := by
  fun_induction statementsFrom done c with
  | case1 done c hempty =>
      obtain ⟨rest, line, depth⟩ := c
      subst hdepth
      have hdone : Reads (fun ss : List Statement => ⟨[], ss.reverse, .nothing⟩)
          ⟨[], done.reverse.reverse, .nothing⟩ line rest
          (.ok done.reverse ⟨rest, line, 0⟩) := .done done.reverse line rest
      rw [List.reverse_reverse] at hdone
      exact hdone
  | case2 done c hne s c' hs ih =>
      have hread := statement_reads_of_ne_nil done hdepth hne
      rw [hs] at hread
      exact hread.trans (ih hread.depth_eq)
  | case3 done c hne e c' hs =>
      have hread := statement_reads_of_ne_nil done hdepth hne
      rw [hs] at hread
      exact hread.error

end Productions

/-! ## Whole scripts -/

/-- **A script** pushes all its tokens. -/
theorem program_reads (ls : List Lexeme) :
    Reads Draft.ofProgram .blank 1 ls (program { rest := ls }) := by
  have h := (statementsFrom_reads [] { rest := ls } rfl).wrap Draft.ofProgram
    Program.mk
  simp only [program, bind, EStateM.bind]
  cases hss : statementsFrom [] { rest := ls } with
  | ok ss c =>
      rw [hss] at h
      exact h
  | error e c =>
      rw [hss] at h
      exact h

theorem statementsFrom_rest {done ss : List Statement} {c c' : Cursor}
    (h : statementsFrom done c = .ok ss c') : c'.rest = [] := by
  fun_induction statementsFrom done c with
  | case1 done c hempty =>
      cases h
      exact List.isEmpty_iff.1 hempty
  | case2 _ _ _ _ _ _ ih => exact ih h
  | case3 => cases h

/-- A script that is read is read to its end. -/
theorem program_rest {ls : List Lexeme} {p : Program} {c : Cursor}
    (h : program { rest := ls } = .ok p c) : c.rest = [] := by
  simp only [program, bind, EStateM.bind] at h
  cases hss : statementsFrom [] { rest := ls } with
  | ok ss c' =>
      rw [hss] at h
      cases h
      exact statementsFrom_rest hss
  | error e c' =>
      rw [hss] at h
      cases h

/-- The line of the last of some lexemes, or `line` if there are none. -/
def lineBehind (line : Nat) : List Lexeme → Nat
  | [] => line
  | l :: rest => lineBehind l.line rest

/-- A reading that gives a result has taken the tokens that lead to it. -/
theorem Reads.extend_of_ok {α : Type} {target : α → Draft} {d : Draft}
    {line : Nat} {ls : List Lexeme} {a : α} {c : Cursor}
    (h : Reads target d line ls (.ok a c)) :
    ∃ used, ls = used ++ c.rest ∧ c.line = lineBehind line used ∧
      d.extend maxDepth (tokensOf used) = .ok (target a) := by
  generalize hok : EStateM.Result.ok a c = r at h
  induction h with
  | done b line rest =>
      cases hok
      exact ⟨[], rfl, rfl, rfl⟩
  | @shift d d' line l rest r hpush _ ih =>
      obtain ⟨used, rfl, hline, hextend⟩ := ih hok
      refine ⟨l :: used, rfl, hline, ?_⟩
      simp only [tokensOf_cons, Draft.extend, hpush]
      exact hextend
  | stop => cases hok

/-- A reading that fails has taken tokens up to a draft where it stops. -/
theorem Reads.stops_of_error {α : Type} {target : α → Draft} {d : Draft}
    {line : Nat} {ls : List Lexeme} {e : SyntaxError} {c : Cursor}
    (h : Reads target d line ls (.error e c)) :
    ∃ used rest d', ls = used ++ rest ∧
      d.extend maxDepth (tokensOf used) = .ok d' ∧
      Stops d' (lineBehind line used) rest e.fault c ∧ e = c.error e.fault := by
  generalize herror : EStateM.Result.error e c = r at h
  induction h with
  | done => cases herror
  | @shift d d' line l rest r hpush _ ih =>
      obtain ⟨used, rest', d'', rfl, hextend, hstops, he⟩ := ih herror
      refine ⟨l :: used, rest', d'', rfl, ?_, hstops, he⟩
      simp only [tokensOf_cons, Draft.extend, hpush]
      exact hextend
  | @stop d line ls fault c' hstop =>
      cases herror
      exact ⟨[], ls, d, rfl, rfl, hstop, rfl⟩

/-- Where a reading stops, the tokens up to the end are at fault. -/
theorem Stops.verdict {d : Draft} {line : Nat} {used rest : List Lexeme}
    {fault : SyntaxFault} {c : Cursor} (h : Stops d line rest fault c)
    (hd : Draft.blank.extend maxDepth (tokensOf used) = .ok d) :
    Draft.verdict maxDepth (tokensOf (used ++ rest)) = .error fault := by
  rw [tokensOf_append, Draft.verdict, Draft.extend_append_of_ok hd]
  cases h with
  | refuse hpush => simp [Draft.extend, hpush]
  | overflow hpush => simp [Draft.extend, hpush]
  | breakOff hfinish => exact hfinish

/-- A script is read as its tokens tell. -/
theorem verdict_of_program {ls : List Lexeme} :
    Draft.verdict maxDepth (tokensOf ls) =
      match program { rest := ls } with
      | .ok p _ => .ok p
      | .error e _ => .error e.fault := by
  have h := program_reads ls
  cases hprogram : program { rest := ls } with
  | ok p c =>
      rw [hprogram] at h
      obtain ⟨used, hused, _, hextend⟩ := h.extend_of_ok
      rw [program_rest hprogram, List.append_nil] at hused
      rw [hused, Draft.verdict, hextend]
      exact Draft.finish_eq_ok_iff.2 rfl
  | error e c =>
      rw [hprogram] at h
      obtain ⟨used, rest, d, rfl, hextend, hstops, _⟩ := h.stops_of_error
      exact hstops.verdict hextend

/-- So is the text of a script. -/
theorem verdict_of_parse (source : String) :
    Draft.verdict maxDepth (tokensOf (Lexeme.split source)) =
      match Program.parse source with
      | .ok p => .ok p
      | .error e => .error e.fault := by
  rw [verdict_of_program, Program.parse, Cursor.ofSource]
  cases program { rest := Lexeme.split source } with
  | ok p c => rfl
  | error e c => rfl

theorem parse_eq_ok_iff_verdict {source : String} {p : Program} :
    Program.parse source = .ok p ↔
      Draft.verdict maxDepth (tokensOf (Lexeme.split source)) = .ok p := by
  rw [verdict_of_parse]
  cases Program.parse source with
  | ok q => simp
  | error e => simp

theorem parse_error_of_verdict {source : String} {fault : SyntaxFault}
    (h : Draft.verdict maxDepth (tokensOf (Lexeme.split source)) =
      .error fault) :
    ∃ e, Program.parse source = .error e ∧ e.fault = fault := by
  rw [verdict_of_parse] at h
  cases hparse : Program.parse source with
  | ok q =>
      rw [hparse] at h
      cases h
  | error e =>
      rw [hparse] at h
      exact ⟨e, rfl, Except.error.inj h⟩

/-- A text is read as a program exactly if it is split into its tokens. -/
theorem parse_eq_ok_iff {source : String} {p : Program} :
    Program.parse source = .ok p ↔
      tokensOf (Lexeme.split source) = p.tokens ∧ p.nopFree = true ∧
        p.nesting ≤ maxDepth := by
  rw [parse_eq_ok_iff_verdict, Draft.verdict_eq_ok_iff]

/-- **Acceptance.**  A list of lexemes is read as the program `p` exactly if
its tokens are those of `p`, `p` has no `nop` and no statement of `p` lies in
more loops than may be nested.  So no list is read as two programs, and the
lists that are refused are those outside the grammar or beyond the limit. -/
theorem program_accepts_grammar (ls : List Lexeme) :
    (∀ p : Program, (∃ c, program { rest := ls } = .ok p c) ↔
      tokensOf ls = p.tokens ∧ p.nopFree = true ∧ p.nesting ≤ maxDepth) ∧
    (∀ p q : Program, tokensOf ls = p.tokens ∧ p.nopFree = true →
      tokensOf ls = q.tokens ∧ q.nopFree = true → p = q) ∧
    ((∃ e c, program { rest := ls } = .error e c) ↔
      ∀ p : Program, tokensOf ls = p.tokens ∧ p.nopFree = true →
        maxDepth < p.nesting) := by
  have hok : ∀ p : Program, (∃ c, program { rest := ls } = .ok p c) ↔
      tokensOf ls = p.tokens ∧ p.nopFree = true ∧ p.nesting ≤ maxDepth := by
    intro p
    rw [← Draft.verdict_eq_ok_iff, verdict_of_program]
    cases program { rest := ls } with
    | ok q c => simp
    | error e c => simp
  refine ⟨hok, ?_, ?_⟩
  · rintro p q ⟨hp, hpnop⟩ ⟨hq, hqnop⟩
    exact Draft.eq_of_tokens_eq hpnop hqnop (hp.symm.trans hq)
  · constructor
    · rintro ⟨e, c, he⟩ p ⟨hp, hpnop⟩
      apply Nat.lt_of_not_le
      intro hle
      obtain ⟨c', hc'⟩ := (hok p).2 ⟨hp, hpnop, hle⟩
      rw [he] at hc'
      cases hc'
    · intro h
      cases hprogram : program { rest := ls } with
      | ok p c =>
          obtain ⟨hp, hpnop, hle⟩ := (hok p).1 ⟨c, hprogram⟩
          exact absurd hle (Nat.not_le.2 (h p ⟨hp, hpnop⟩))
      | error e c => exact ⟨e, c, rfl⟩

end RobotScript
