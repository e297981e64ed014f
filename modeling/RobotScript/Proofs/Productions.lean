import RobotScript.Proofs.Diagnostics
import RobotScript.Reading.Journal

/-!
# Productions on their own

The productions below the whole script can be called on any cursor: in the
middle of a script, with lexemes behind the tree that do not belong to it, and
with blocks open around it that were entered by whoever calls.  What they take,
and what becomes of the number of open blocks, does not depend on the
surroundings but for the limit on nesting, and that counts the blocks around as
well.

* A production gives a tree exactly if the lexemes begin with its tokens and
  the limit is kept.  It takes these and no others, and leaves as many blocks
  open as there were.
* A production that fails leaves the blocks open that it has opened and not
  closed.  A block too many is taken, but not entered.

That a tree is read whatever follows it is shown by going through the tree,
`bodyFrom_statement`; that nothing else is read, by way of the drafts.  All
productions are reduced to that of a statement: a loop and an action are
statements of their kind, and a block is a loop without its keyword.

## Main results

* `bodyFrom_statements` — the tokens of statements are read, whatever follows.
* `statement_eq_ok_iff`, `Selects.eq_ok_iff`, `block_eq_ok_iff` — what the
  productions give.
* `Reads.abandons`, `abandons_of_program` — the open blocks behind a failure.
* `Cursor.Operation.depth_le`, `Cursor.depth_afterAll_le` — no operations open
  too many blocks.
* `productions_exact` — all this, for every cursor.
-/

namespace RobotScript

open Reading
open Statement (tokensList nestingList nopFreeList)

/-! ## Blocks -/

namespace Block

/-- The tokens a block is written with. -/
def tokens (b : Block) : List Token :=
  .openBrace :: (tokensList b.toList ++ [.closeBrace])

/-- The largest number of blocks that a statement inside `b` lies in, `b`
itself counted. -/
def nesting (b : Block) : Nat :=
  nestingList b.toList + 1

/-- Whether there is no `nop` in a block. -/
def nopFree (b : Block) : Bool :=
  nopFreeList b.toList

theorem tokens_looped (b : Block) : b.looped.tokens = .loop :: b.tokens :=
  Statement.tokens_loop b.first b.rest

theorem nesting_looped (b : Block) : b.looped.nesting = b.nesting := rfl

theorem nopFree_looped (b : Block) : b.looped.nopFree = b.nopFree := rfl

end Block

/-! ## What is read, whatever follows -/

theorem lineBehind_append (line : Nat) (ls ls' : List Lexeme) :
    lineBehind line (ls ++ ls') = lineBehind (lineBehind line ls) ls' := by
  induction ls generalizing line with
  | nil => rfl
  | cons l ls ih => exact ih l.line

theorem exists_append_of_tokensOf {used : List Lexeme} {ts us : List Token}
    (h : tokensOf used = ts ++ us) :
    ∃ ls ls', used = ls ++ ls' ∧ tokensOf ls = ts ∧ tokensOf ls' = us :=
  List.map_eq_append_iff.1 h

theorem exists_cons_of_tokensOf {used : List Lexeme} {t : Token}
    {ts : List Token} (h : tokensOf used = t :: ts) :
    ∃ here ls, used = ⟨t, here⟩ :: ls ∧ tokensOf ls = ts := by
  obtain ⟨l, ls, rfl, rfl, hls⟩ := List.map_eq_cons_iff.1 h
  exact ⟨l.line, ls, rfl, hls⟩

/-- The lexemes of a loop. -/
theorem exists_of_tokensOf_loop {used : List Lexeme} {first : Statement}
    {rest : List Statement}
    (h : tokensOf used = (Statement.loop first rest).tokens) :
    ∃ loopLine openLine closeLine body,
      used = ⟨.loop, loopLine⟩ :: ⟨.openBrace, openLine⟩ ::
        (body ++ [⟨.closeBrace, closeLine⟩]) ∧
      tokensOf body = tokensList (first :: rest) := by
  rw [Statement.tokens_loop, List.append_assoc] at h
  obtain ⟨loopLine, _, rfl, hblock⟩ := exists_cons_of_tokensOf h
  obtain ⟨openLine, ls, rfl, hls⟩ := exists_cons_of_tokensOf hblock
  have hinside : tokensOf ls = tokensList (first :: rest) ++ [.closeBrace] :=
    hls
  obtain ⟨body, last, rfl, hbody, hlast⟩ := exists_append_of_tokensOf hinside
  obtain ⟨closeLine, _, rfl, hnil⟩ := exists_cons_of_tokensOf hlast
  obtain rfl := List.map_eq_nil_iff.1 hnil
  exact ⟨loopLine, openLine, closeLine, body, rfl, hbody⟩

/-- The lexemes of an action. -/
theorem exists_of_tokensOf_action {used : List Lexeme} {a : Action}
    (h : tokensOf used = (Statement.action a).tokens) :
    ∃ here line, used = [⟨.action a, here⟩, ⟨.semicolon, line⟩] := by
  obtain ⟨here, _, rfl, hlast⟩ := exists_cons_of_tokensOf h
  obtain ⟨line, _, rfl, hnil⟩ := exists_cons_of_tokensOf hlast
  obtain rfl := List.map_eq_nil_iff.1 hnil
  exact ⟨here, line, rfl⟩

/-- Closing a block that has statements. -/
theorem bodyFrom_close (outer : List (List Statement)) (first : Statement)
    (rest : List Statement) (line depth here : Nat) (ls : List Lexeme) :
    bodyFrom outer (first :: rest).reverse line depth
        (⟨.closeBrace, here⟩ :: ls) =
      match outer with
      | [] => .ok ⟨first, rest⟩ ⟨ls, here, depth - 1⟩
      | around :: outer =>
        bodyFrom outer (.loop first rest :: around) here (depth - 1) ls := by
  have hdone : (first :: rest).reverse.reverse = first :: rest :=
    List.reverse_reverse _
  cases outer with
  | nil => simp only [bodyFrom, hdone]
  | cons around outer => simp only [bodyFrom, hdone]

mutual

/-- A statement in the body of a block is read, whatever follows. -/
theorem bodyFrom_statement : (s : Statement) → s.nopFree = true →
    (outer : List (List Statement)) → (done : List Statement) →
    (line depth : Nat) → (used rest : List Lexeme) →
    tokensOf used = s.tokens → depth + s.nesting ≤ maxDepth →
    bodyFrom outer done line depth (used ++ rest) =
      bodyFrom outer (s :: done) (lineBehind line used) depth rest
  | .action a, _, outer, done, line, depth, used, rest, hused, _ => by
      obtain ⟨here, semicolonLine, rfl⟩ := exists_of_tokensOf_action hused
      rfl
  | .loop first more, hnop, outer, done, line, depth, used, rest, hused,
      hnesting => by
      obtain ⟨loopLine, openLine, closeLine, body, rfl, hbody⟩ :=
        exists_of_tokensOf_loop hused
      rw [Statement.nesting_loop] at hnesting
      have hroom : ¬maxDepth ≤ depth := by omega
      have hinner := bodyFrom_statements (first :: more) hnop (done :: outer)
        [] openLine (depth + 1) body (⟨.closeBrace, closeLine⟩ :: rest) hbody
        (by omega)
      rw [List.append_nil, bodyFrom_close] at hinner
      simp only [List.cons_append, List.append_assoc, List.nil_append,
        bodyFrom, if_neg hroom, hinner, lineBehind, lineBehind_append,
        Nat.add_sub_cancel]
termination_by s => (sizeOf s, 1)

/-- So are statements. -/
theorem bodyFrom_statements : (ss : List Statement) →
    nopFreeList ss = true → (outer : List (List Statement)) →
    (done : List Statement) → (line depth : Nat) →
    (used rest : List Lexeme) → tokensOf used = tokensList ss →
    depth + nestingList ss ≤ maxDepth →
    bodyFrom outer done line depth (used ++ rest) =
      bodyFrom outer (ss.reverse ++ done) (lineBehind line used) depth rest
  | [], _, outer, done, line, depth, used, rest, hused, _ => by
      obtain rfl := List.map_eq_nil_iff.1 hused
      rfl
  | s :: ss, hnop, outer, done, line, depth, used, rest, hused, hnesting => by
      rw [nopFreeList, Bool.and_eq_true] at hnop
      rw [nestingList] at hnesting
      obtain ⟨ls, ls', rfl, hls, hls'⟩ := exists_append_of_tokensOf hused
      rw [List.append_assoc,
        bodyFrom_statement s hnop.1 outer done line depth ls (ls' ++ rest) hls
          (by omega),
        bodyFrom_statements ss hnop.2 outer (s :: done) (lineBehind line ls)
          depth ls' rest hls' (by omega),
        lineBehind_append, List.reverse_cons, List.append_assoc]
      rfl
termination_by ss => (sizeOf ss, 0)

end

/-- **A statement is read**, whatever follows. -/
theorem statement_of_tokens {s : Statement} (hnop : s.nopFree = true)
    {c : Cursor} {used rest : List Lexeme} (hrest : c.rest = used ++ rest)
    (hused : tokensOf used = s.tokens)
    (hnesting : c.depth + s.nesting ≤ maxDepth) :
    statement c = .ok s ⟨rest, lineBehind c.line used, c.depth⟩ := by
  obtain ⟨_, line, depth⟩ := c
  subst hrest
  cases s with
  | nop => cases hnop
  | action a =>
      obtain ⟨here, semicolonLine, rfl⟩ := exists_of_tokensOf_action hused
      show statement ⟨⟨.action a, here⟩ :: ⟨.semicolon, semicolonLine⟩ :: rest,
        line, depth⟩ = _
      rw [statement_action, require_of_eq]
      rfl
  | loop first more =>
      obtain ⟨loopLine, openLine, closeLine, body, rfl, hbody⟩ :=
        exists_of_tokensOf_loop hused
      have hfits : depth + (nestingList (first :: more) + 1) ≤ maxDepth :=
        hnesting
      have hroom : ¬maxDepth ≤ depth := by omega
      have hinner := bodyFrom_statements (first :: more) hnop [] [] openLine
        (depth + 1) body (⟨.closeBrace, closeLine⟩ :: rest) hbody (by omega)
      rw [List.append_nil, bodyFrom_close] at hinner
      show statement ⟨⟨.loop, loopLine⟩ :: ⟨.openBrace, openLine⟩ ::
        (body ++ [⟨.closeBrace, closeLine⟩] ++ rest), line, depth⟩ = _
      rw [statement_loop, block_openBrace, if_neg hroom, List.append_assoc,
        List.singleton_append, hinner]
      simp only [lineBehind, lineBehind_append, Nat.add_sub_cancel]
      rfl

/-! ## Nothing else is read -/

namespace Draft

variable {limit depth : Nat} {ts : List Token}

/-- A draft in which a number of blocks have been opened, and statements stand
in the innermost of them only. -/
def inside (depth : Nat) (done : List Statement) : Draft :=
  ⟨List.replicate depth [], done, .nothing⟩

theorem depth_inside (depth : Nat) (done : List Statement) :
    (inside depth done).depth = depth :=
  List.length_replicate

/-- The tokens that lead from no statement to one are those of the
statement. -/
theorem statement_of_extend {s : Statement} (hdepth : depth ≤ limit)
    (h : (inside depth []).extend limit ts = .ok (inside depth [s])) :
    ts = s.tokens ∧ s.nopFree = true ∧ depth + s.nesting ≤ limit := by
  have htokens : ts = s.tokens := by
    have hgained := extend_tokens h
    simp only [tokens, inside, Begun.tokens, List.reverse_nil,
      List.reverse_singleton, Statement.tokensList, List.append_nil] at hgained
    exact (List.append_cancel_left hgained).symm
  have hnop : (inside depth [s]).NopFree := by
    refine extend_preserves Takes.nopFree h ?_
    intro ss hss
    rcases List.mem_cons.1 hss with rfl | hss
    · rfl
    · rw [List.eq_of_mem_replicate hss]
      rfl
  have hone := hnop [s] List.mem_cons_self
  rw [nopFreeList, Bool.and_eq_true] at hone
  refine ⟨htokens, hone.1, ?_⟩
  have hlength : (List.replicate depth ([] : List Statement)).length = depth :=
    List.length_replicate
  have htaken := extend_statement s (List.replicate depth []) []
    (hlength.symm ▸ hdepth)
  rw [← htokens, hlength] at htaken
  rcases htaken with ⟨hfits, _⟩ | ⟨_, herror⟩
  · exact hfits.2
  · have hok : extend limit ⟨List.replicate depth [], [], .nothing⟩ ts =
        .ok (inside depth [s]) := h
    rw [hok] at herror
    rcases herror with herror | herror <;> cases herror

/-- The blocks that are open behind more tokens. -/
theorem depth_of_extend {d d' : Draft} (h : d.extend limit ts = .ok d') :
    d'.depth + ts.count .closeBrace = d.depth + ts.count .openBrace := by
  have hbefore := d.count_tokens
  have hafter := d'.count_tokens
  rw [extend_tokens h, List.count_append, List.count_append] at hafter
  omega

end Draft

/-- A statement pushes its tokens wherever it stands, unless what follows
cannot begin one. -/
theorem statement_reads_inside (c : Cursor) :
    statement c = fail .invalidStatement c ∨
      Reads (fun s => Draft.inside c.depth [s]) (Draft.inside c.depth [])
        c.line c.rest (statement c) := by
  obtain ⟨rest, line, depth⟩ := c
  cases rest with
  | nil => exact .inl rfl
  | cons l rest =>
      by_cases hclose : l.token = .closeBrace
      · left
        obtain ⟨t, here⟩ := l
        obtain rfl : t = .closeBrace := hclose
        rfl
      · right
        have hreads := statement_reads (List.replicate depth []) [] line l rest
          fun h => absurd h hclose
        rw [List.length_replicate] at hreads
        exact hreads

section Given

variable {c c' : Cursor} {s : Statement} {b : Block}

/-- **What a statement takes.** -/
theorem statement_eq_ok_iff (hc : c.depth ≤ maxDepth) :
    statement c = .ok s c' ↔
      s.nopFree = true ∧ c.depth + s.nesting ≤ maxDepth ∧
        ∃ used, c.rest = used ++ c'.rest ∧ tokensOf used = s.tokens ∧
          c' = ⟨c'.rest, lineBehind c.line used, c.depth⟩ := by
  constructor
  · intro h
    rcases statement_reads_inside c with hfail | hreads
    · rw [hfail] at h
      cases h
    · rw [h] at hreads
      have hdepth := hreads.depth_eq
      rw [Draft.depth_inside] at hdepth
      obtain ⟨used, hrest, hline, hextend⟩ := hreads.extend_of_ok
      obtain ⟨htokens, hnop, hnesting⟩ := Draft.statement_of_extend hc hextend
      exact ⟨hnop, hnesting, used, hrest, htokens, by rw [← hline, ← hdepth]⟩
  · rintro ⟨hnop, hnesting, used, hrest, hused, hc'⟩
    rw [hc']
    exact statement_of_tokens hnop hrest hused hnesting

/-- A statement closes the blocks it opens. -/
theorem depth_of_statement (hc : c.depth ≤ maxDepth)
    (h : statement c = .ok s c') : c'.depth = c.depth := by
  obtain ⟨_, _, _, _, _, hc'⟩ := (statement_eq_ok_iff hc).1 h
  rw [hc']

theorem tokens_ne_nil_of_nopFree (h : s.nopFree = true) : s.tokens ≠ [] := by
  cases s with
  | nop => cases h
  | action a => nofun
  | loop first rest => nofun

/-- A statement that is given begins with the next token. -/
theorem peek?_of_statement (hc : c.depth ≤ maxDepth)
    (h : statement c = .ok s c') : c.peek? = s.tokens.head? := by
  obtain ⟨hnop, _, used, hrest, hused, _⟩ := (statement_eq_ok_iff hc).1 h
  have hne : used ≠ [] := by
    rintro rfl
    exact tokens_ne_nil_of_nopFree hnop hused.symm
  obtain ⟨l, ls, rfl⟩ := List.exists_cons_of_ne_nil hne
  rw [Cursor.peek?, hrest, ← hused]
  rfl

/-- Whether `reading` is the production of the statements that begin with
certain tokens: it reads a statement if there is such a token, and otherwise
fails at once. -/
structure Selects (reading : Reading Statement)
    (Begins : Option Token → Prop) : Prop where
  reads {c : Cursor} (h : Begins c.peek?) : reading c = statement c
  fails {c : Cursor} (h : ¬Begins c.peek?) :
    ∃ fault, fault ≠ .tooDeep maxDepth ∧ reading c = fail fault c

/-- Such a production gives the statements of its kind. -/
theorem Selects.eq_ok_iff {reading : Reading Statement}
    {Begins : Option Token → Prop} (h : Selects reading Begins)
    (hc : c.depth ≤ maxDepth) :
    reading c = .ok s c' ↔
      Begins s.tokens.head? ∧ statement c = .ok s c' := by
  by_cases hpeek : Begins c.peek?
  · rw [h.reads hpeek]
    refine ⟨fun hok => ⟨?_, hok⟩, And.right⟩
    rw [← peek?_of_statement hc hok]
    exact hpeek
  · obtain ⟨fault, _, hfail⟩ := h.fails hpeek
    rw [hfail]
    refine iff_of_false nofun ?_
    rintro ⟨hbegins, hok⟩
    rw [← peek?_of_statement hc hok] at hbegins
    exact hpeek hbegins

theorem selects_loop : Selects loop (· = some .loop) where
  reads := by
    intro c h
    simp only [statement, h]
  fails := by
    intro c h
    have hne : ∀ here rest, c.rest = ⟨.loop, here⟩ :: rest → False := by
      intro here rest hrest
      apply h
      rw [Cursor.peek?, hrest]
      rfl
    refine ⟨.missing "'loop'", by simp, ?_⟩
    simp only [loop, bind, EStateM.bind, require_of_ne .loop c hne]
    rfl

theorem selects_action : Selects action (fun t => ∃ a, t = some (.action a))
    where
  reads := by
    rintro c ⟨a, h⟩
    simp only [statement, h]
  fails := by
    intro c h
    have hkeyword : actionKeyword c = fail (.missing "an action") c := by
      rw [actionKeyword]
      split
      · next a line rest hrest =>
        refine absurd ⟨a, ?_⟩ h
        rw [Cursor.peek?, hrest]
        rfl
      · rfl
    refine ⟨.missing "an action", by simp, ?_⟩
    simp only [action, bind, EStateM.bind, hkeyword]
    rfl

theorem head?_tokens_eq_loop_iff :
    s.tokens.head? = some .loop ↔ s.isLoop = true := by
  cases s with
  | action a => exact iff_of_false nofun nofun
  | loop first rest => exact iff_of_true rfl rfl
  | nop => exact iff_of_false nofun nofun

theorem head?_tokens_eq_action_iff :
    (∃ a, s.tokens.head? = some (.action a)) ↔ ∃ a, s = .action a := by
  cases s with
  | action a => exact iff_of_true ⟨a, rfl⟩ ⟨a, rfl⟩
  | loop first rest => exact iff_of_false nofun nofun
  | nop => exact iff_of_false nofun nofun

/-- **A block** is a loop whose keyword has been taken. -/
theorem block_eq_ok_iff :
    block c = .ok b c' ↔
      statement ⟨⟨.loop, c.line⟩ :: c.rest, c.line, c.depth⟩ =
        .ok b.looped c' := by
  rw [statement_loop]
  show block c = _ ↔ wrap Block.looped (block c) = _
  cases block c with
  | error e after => exact iff_of_false nofun nofun
  | ok found after =>
      constructor
      · intro h
        cases h
        rfl
      · intro h
        obtain ⟨first, rest⟩ := b
        obtain ⟨first', rest'⟩ := found
        cases h
        rfl

end Given

/-! ## The blocks that a failure leaves open -/

/-- What becomes of the number of open blocks when a reading that began at `c`
fails and leaves `c'`: the blocks it has opened and not closed stay open.  The
brace of a block too many is taken, but the block is not entered. -/
structure Abandons (c : Cursor) (e : SyntaxError) (c' : Cursor) : Prop where
  balance : ∃ used, c.rest = used ++ c'.rest ∧
    c'.depth + (tokensOf used).count .closeBrace +
        (if e.fault = .tooDeep maxDepth then 1 else 0) =
      c.depth + (tokensOf used).count .openBrace
  depth_le : c'.depth ≤ maxDepth

section Failures

variable {α : Type} {c c' : Cursor} {e : SyntaxError} {s : Statement}

/-- A fault that is found at once changes nothing. -/
theorem abandons_of_fail {fault : SyntaxFault} (hc : c.depth ≤ maxDepth)
    (hne : fault ≠ .tooDeep maxDepth)
    (h : (fail fault c : EStateM.Result SyntaxError Cursor α) = .error e c') :
    Abandons c e c' := by
  cases h
  refine ⟨⟨[], rfl, ?_⟩, hc⟩
  show c.depth + 0 + (if fault = .tooDeep maxDepth then 1 else 0) = c.depth + 0
  rw [if_neg hne]

/-- Where a reading stops, no more than the brace of a block too many is
taken. -/
theorem Stops.balance {d : Draft} {line : Nat} {ls : List Lexeme}
    {fault : SyntaxFault} (h : Stops d line ls fault c) :
    c.depth = d.depth ∧ ∃ taken, ls = taken ++ c.rest ∧
      (tokensOf taken).count .closeBrace = 0 ∧
      (tokensOf taken).count .openBrace =
        if fault = .tooDeep maxDepth then 1 else 0 := by
  cases h with
  | refuse _ hne => exact ⟨rfl, [], rfl, rfl, by rw [if_neg hne]; rfl⟩
  | @overflow l rest hpush =>
      obtain ⟨_, htoken, _⟩ := Draft.push_eq_tooDeep hpush
      have htokens : tokensOf [l] = [.openBrace] := by
        rw [tokensOf_cons, tokensOf_nil, htoken]
      refine ⟨rfl, [l], rfl, ?_, ?_⟩
      · rw [htokens]
        rfl
      · rw [htokens, if_pos rfl]
        rfl
  | breakOff hfinish =>
      have hne : fault ≠ .tooDeep maxDepth := Draft.finish_ne_tooDeep hfinish
      exact ⟨rfl, [], rfl, rfl, by rw [if_neg hne]; rfl⟩

/-- A reading that pushes its tokens and fails. -/
theorem Reads.abandons {target : α → Draft} {d : Draft}
    (hc : c.depth ≤ maxDepth) (hd : d.depth = c.depth)
    (h : Reads target d c.line c.rest (.error e c')) : Abandons c e c' := by
  obtain ⟨used, rest, d', hrest, hextend, hstops, _⟩ := h.stops_of_error
  have hinner := Draft.depth_of_extend hextend
  have hle : d'.depth ≤ maxDepth :=
    Draft.extend_preserves (P := fun d => d.depth ≤ maxDepth)
      Draft.Takes.depth_le hextend (hd ▸ hc)
  obtain ⟨hdepth, taken, rfl, hclose, hopen⟩ := hstops.balance
  refine ⟨⟨used ++ taken, ?_, ?_⟩, hdepth ▸ hle⟩
  · rw [hrest, List.append_assoc]
  · rw [tokensOf_append, List.count_append, List.count_append, hclose, hopen]
    omega

theorem abandons_of_statement (hc : c.depth ≤ maxDepth)
    (h : statement c = .error e c') : Abandons c e c' := by
  rcases statement_reads_inside c with hfail | hreads
  · exact abandons_of_fail hc (by simp) (hfail.symm.trans h)
  · rw [h] at hreads
    exact hreads.abandons hc (Draft.depth_inside c.depth [])

theorem Selects.abandons {reading : Reading Statement}
    {Begins : Option Token → Prop} (h : Selects reading Begins)
    (hc : c.depth ≤ maxDepth) (herror : reading c = .error e c') :
    Abandons c e c' := by
  by_cases hpeek : Begins c.peek?
  · rw [h.reads hpeek] at herror
    exact abandons_of_statement hc herror
  · obtain ⟨fault, hne, hfail⟩ := h.fails hpeek
    rw [hfail] at herror
    exact abandons_of_fail hc hne herror

/-- The keyword of the loop opens nothing, so it does not matter that a block
begins behind it. -/
theorem abandons_of_block (hc : c.depth ≤ maxDepth)
    (h : block c = .error e c') : Abandons c e c' := by
  have hreads := statement_reads (List.replicate c.depth []) [] c.line
    ⟨.loop, c.line⟩ c.rest nofun
  rw [List.length_replicate, statement_loop] at hreads
  have hblock : block ⟨c.rest, c.line, c.depth⟩ = .error e c' := h
  rw [hblock] at hreads
  cases hreads with
  | shift hpush hr =>
      cases hpush
      have hdepth : Draft.depth ⟨List.replicate c.depth [], [], .loop⟩ =
          c.depth := List.length_replicate
      exact hr.abandons hc hdepth
  | stop hstops =>
      cases hstops with
      | refuse hpush => cases hpush
      | overflow hpush => cases hpush

/-- A failure behind a statement that has been read. -/
theorem Abandons.behind {c₁ : Cursor} (hc : c.depth ≤ maxDepth)
    (hs : statement c = .ok s c₁) (h : Abandons c₁ e c') :
    Abandons c e c' := by
  obtain ⟨_, _, read, hread, htokens, _⟩ := (statement_eq_ok_iff hc).1 hs
  have hdepth := depth_of_statement hc hs
  have heven := s.count_openBrace_tokens
  obtain ⟨⟨used, hused, hbalance⟩, hle⟩ := h
  refine ⟨⟨read ++ used, ?_, ?_⟩, hle⟩
  · rw [hread, hused, List.append_assoc]
  · rw [tokensOf_append, List.count_append, List.count_append, htokens]
    omega

/-- **Statements up to the end** leave open what the statement in which they
fail does. -/
theorem abandons_of_statementsFrom {done : List Statement}
    (hc : c.depth ≤ maxDepth) (h : statementsFrom done c = .error e c') :
    Abandons c e c' := by
  fun_induction statementsFrom done c with
  | case1 => cases h
  | case2 done c hne s c₁ hs ih =>
      have hdepth := depth_of_statement hc hs
      exact (ih (hdepth ▸ hc) h).behind hc hs
  | case3 done c hne e c₁ hs =>
      cases h
      exact abandons_of_statement hc hs

theorem program_eq_wrap (c : Cursor) :
    program c = wrap Program.mk (statementsFrom [] c) := by
  simp only [program, bind, EStateM.bind]
  cases statementsFrom [] c with
  | ok ss c₁ => rfl
  | error e c₁ => rfl

theorem abandons_of_program (hc : c.depth ≤ maxDepth)
    (h : program c = .error e c') : Abandons c e c' := by
  rw [program_eq_wrap] at h
  cases hss : statementsFrom [] c with
  | ok ss c₁ =>
      rw [hss] at h
      cases h
  | error e₁ c₁ =>
      rw [hss] at h
      cases h
      exact abandons_of_statementsFrom hc hss

end Failures

/-! ## The productions -/

/-- What a production `reading` does at `c`, when its trees are those that
`Fits` tells, with these `tokens` and this `nesting`. -/
structure Exact {α : Type} (reading : Reading α) (tokens : α → List Token)
    (nesting : α → Nat) (Fits : α → Prop) (c : Cursor) : Prop where
  /-- A tree is given, and `rest` left, exactly if the tokens of the tree come
  before `rest` and fit into the blocks that are open. -/
  ok_iff (a : α) (rest : List Lexeme) :
    (∃ c', reading c = .ok a c' ∧ c'.rest = rest) ↔
      Fits a ∧ c.depth + nesting a ≤ maxDepth ∧
        ∃ used, c.rest = used ++ rest ∧ tokensOf used = tokens a
  /-- Then as many blocks are open as before, and the cursor is on the line of
  the last token of the tree. -/
  after_ok {a : α} {c' : Cursor} (h : reading c = .ok a c') :
    c'.depth = c.depth ∧ ∃ used, c.rest = used ++ c'.rest ∧
      tokensOf used = tokens a ∧
      used.getLast?.map (·.line) = some c'.line
  /-- Otherwise the blocks that have not been closed stay open. -/
  after_error {e : SyntaxError} {c' : Cursor} (h : reading c = .error e c') :
    Abandons c e c'

section Exactness

variable {α : Type} {reading : Reading α} {tokens : α → List Token}
  {nesting : α → Nat} {Fits : α → Prop} {c : Cursor}

/-- It is enough to know the cursor that is left behind a tree. -/
theorem exact_of_eq_ok_iff (hne : ∀ a, Fits a → tokens a ≠ [])
    (hok : ∀ {a c'}, reading c = .ok a c' ↔
      Fits a ∧ c.depth + nesting a ≤ maxDepth ∧
        ∃ used, c.rest = used ++ c'.rest ∧ tokensOf used = tokens a ∧
          c' = ⟨c'.rest, lineBehind c.line used, c.depth⟩)
    (herror : ∀ {e c'}, reading c = .error e c' → Abandons c e c') :
    Exact reading tokens nesting Fits c where
  ok_iff a rest := by
    constructor
    · rintro ⟨c', h, rfl⟩
      obtain ⟨hfits, hnesting, used, hrest, hused, _⟩ := hok.1 h
      exact ⟨hfits, hnesting, used, hrest, hused⟩
    · rintro ⟨hfits, hnesting, used, hrest, hused⟩
      exact ⟨⟨rest, lineBehind c.line used, c.depth⟩,
        hok.2 ⟨hfits, hnesting, used, hrest, hused, rfl⟩, rfl⟩
  after_ok := by
    intro a c' h
    obtain ⟨hfits, _, used, hrest, hused, hc'⟩ := hok.1 h
    have hdepth : c'.depth = c.depth := by rw [hc']
    have hline : c'.line = lineBehind c.line used := by rw [hc']
    refine ⟨hdepth, used, hrest, hused, ?_⟩
    have hsome : used ≠ [] := by
      rintro rfl
      exact hne a hfits hused.symm
    rw [hline, lineBehind_eq, List.getLast?_eq_some_getLast hsome]
    rfl
  after_error := herror

theorem exact_statement (hc : c.depth ≤ maxDepth) :
    Exact statement Statement.tokens Statement.nesting
      (fun s => s.nopFree = true) c :=
  exact_of_eq_ok_iff (fun _ => tokens_ne_nil_of_nopFree)
    (statement_eq_ok_iff hc) (abandons_of_statement hc)

theorem exact_loop (hc : c.depth ≤ maxDepth) :
    Exact loop Statement.tokens Statement.nesting
      (fun s => s.isLoop = true ∧ s.nopFree = true) c := by
  refine exact_of_eq_ok_iff (fun _ h => tokens_ne_nil_of_nopFree h.2) ?_
    (selects_loop.abandons hc)
  intro s c'
  rw [selects_loop.eq_ok_iff hc, statement_eq_ok_iff hc,
    head?_tokens_eq_loop_iff, and_assoc]

theorem exact_action (hc : c.depth ≤ maxDepth) :
    Exact action Statement.tokens Statement.nesting
      (fun s => ∃ a, s = .action a) c := by
  refine exact_of_eq_ok_iff ?_ ?_ (selects_action.abandons hc)
  · rintro _ ⟨a, rfl⟩
    nofun
  · intro s c'
    rw [selects_action.eq_ok_iff hc, statement_eq_ok_iff hc,
      head?_tokens_eq_action_iff]
    constructor
    · rintro ⟨haction, _, hused⟩
      exact ⟨haction, hused⟩
    · rintro ⟨⟨a, rfl⟩, hused⟩
      exact ⟨⟨a, rfl⟩, rfl, hused⟩

theorem exact_block (hc : c.depth ≤ maxDepth) :
    Exact block Block.tokens Block.nesting (fun b => b.nopFree = true) c := by
  refine exact_of_eq_ok_iff nofun ?_ (abandons_of_block hc)
  intro b c'
  have hdepth : Cursor.depth ⟨⟨.loop, c.line⟩ :: c.rest, c.line, c.depth⟩ ≤
      maxDepth := hc
  rw [block_eq_ok_iff, statement_eq_ok_iff hdepth, Block.nopFree_looped,
    Block.nesting_looped, Block.tokens_looped]
  refine and_congr_right fun _ => and_congr_right fun _ => ?_
  -- The keyword is the first of the lexemes taken, and stands on the line
  -- where the cursor is.
  constructor
  · rintro ⟨taken, hrest, htaken, hc'⟩
    obtain ⟨here, used, rfl, hused⟩ := exists_cons_of_tokensOf htaken
    injection hrest with hkeyword hrest
    cases hkeyword
    exact ⟨used, hrest, hused, hc'⟩
  · rintro ⟨used, hrest, hused, hc'⟩
    refine ⟨⟨.loop, c.line⟩ :: used, ?_, ?_, hc'⟩
    · rw [hrest]
      rfl
    · rw [tokensOf_cons, hused]

end Exactness

/-! ## The limit on nesting -/

namespace Cursor

/-- What can be done with a cursor. -/
inductive Operation where
  | peek
  | next
  | require (expected : Token)
  | accept (expected : Token)
  | enterBlock
  | leaveBlock
  | statement
  | loop
  | action
  | block
  | program
  deriving DecidableEq, Repr

/-- The cursor behind an operation, whether it succeeds or not. -/
def Operation.after : Operation → Cursor → Cursor
  | .peek, c => c
  | .next, c => c.next?.2
  | .require t, c => cursorAfter (Reading.require t c)
  | .accept t, c => cursorAfter (Reading.accept t c)
  | .enterBlock, c => cursorAfter (Reading.enterBlock c)
  | .leaveBlock, c => c.leaveBlock
  | .statement, c => cursorAfter (Reading.statement c)
  | .loop, c => cursorAfter (Reading.loop c)
  | .action, c => cursorAfter (Reading.action c)
  | .block, c => cursorAfter (Reading.block c)
  | .program, c => cursorAfter (Reading.program c)

/-- The cursor behind some operations, one after the other. -/
def afterAll (c : Cursor) (ops : List Operation) : Cursor :=
  ops.foldl (fun c op => op.after c) c

end Cursor

section Limit

variable {c : Cursor}

/-- A production keeps to the limit, whether it succeeds or not. -/
theorem Exact.depth_le {α : Type} {reading : Reading α}
    {tokens : α → List Token} {nesting : α → Nat} {Fits : α → Prop}
    (hc : c.depth ≤ maxDepth) (h : Exact reading tokens nesting Fits c) :
    (cursorAfter (reading c)).depth ≤ maxDepth := by
  cases hresult : reading c with
  | ok a c' =>
      have hdepth := (h.after_ok hresult).1
      exact hdepth ▸ hc
  | error e c' => exact (h.after_error hresult).depth_le

theorem depth_of_statementsFrom {done ss : List Statement} {c c' : Cursor}
    (hc : c.depth ≤ maxDepth) (h : statementsFrom done c = .ok ss c') :
    c'.depth = c.depth := by
  fun_induction statementsFrom done c with
  | case1 =>
      cases h
      rfl
  | case2 done c hne s c₁ hs ih =>
      have hdepth := depth_of_statement hc hs
      rw [ih (hdepth ▸ hc) h, hdepth]
  | case3 => cases h

theorem depth_program_le (hc : c.depth ≤ maxDepth) :
    (cursorAfter (program c)).depth ≤ maxDepth := by
  rw [program_eq_wrap]
  cases hss : statementsFrom [] c with
  | ok ss c₁ =>
      have hdepth := depth_of_statementsFrom hc hss
      exact hdepth ▸ hc
  | error e c₁ => exact (abandons_of_statementsFrom hc hss).depth_le

theorem depth_accept (t : Token) (c : Cursor) :
    (cursorAfter (accept t c)).depth = c.depth := by
  rw [accept]
  split
  · rfl
  · split <;> rfl

theorem depth_require (t : Token) (c : Cursor) :
    (cursorAfter (require t c)).depth = c.depth := by
  by_cases h : ∃ here rest, c.rest = ⟨t, here⟩ :: rest
  · obtain ⟨here, rest, hrest⟩ := h
    obtain ⟨_, line, depth⟩ := c
    subst hrest
    rw [require_of_eq]
    rfl
  · rw [require_of_ne t c fun here rest hrest => h ⟨here, rest, hrest⟩]
    rfl

/-- No operation opens too many blocks. -/
theorem Cursor.Operation.depth_le (op : Operation) (hc : c.depth ≤ maxDepth) :
    (op.after c).depth ≤ maxDepth := by
  cases op with
  | peek => exact hc
  | next =>
      show c.next?.2.depth ≤ maxDepth
      rw [Cursor.next?]
      split <;> exact hc
  | require t => exact (depth_require t c).symm ▸ hc
  | accept t => exact (depth_accept t c).symm ▸ hc
  | enterBlock =>
      show (cursorAfter (Reading.enterBlock c)).depth ≤ maxDepth
      rw [Reading.enterBlock]
      by_cases hdeep : maxDepth ≤ c.depth
      · rw [if_pos hdeep]
        exact hc
      · rw [if_neg hdeep]
        exact Nat.lt_of_not_le hdeep
  | leaveBlock => exact Nat.le_trans (Nat.sub_le c.depth 1) hc
  | statement => exact (exact_statement hc).depth_le hc
  | loop => exact (exact_loop hc).depth_le hc
  | action => exact (exact_action hc).depth_le hc
  | block => exact (exact_block hc).depth_le hc
  | program => exact depth_program_le hc

/-- No operations open too many blocks, in whatever order they come. -/
theorem Cursor.depth_afterAll_le (ops : List Operation)
    (hc : c.depth ≤ maxDepth) : (c.afterAll ops).depth ≤ maxDepth := by
  induction ops generalizing c with
  | nil => exact hc
  | cons op ops ih => exact ih (op.depth_le hc)

end Limit

/-- **Productions are exact.**  At every cursor with no more blocks open than
may be, and for every production below the whole script:

* it gives a tree and leaves the lexemes `rest` exactly if the lexemes are those
  of the tree and then `rest`, there is no `nop` in the tree, and the blocks
  around it and in it are together no more than may be open;
* then as many blocks are open as before, and the cursor is on the line of the
  last token of the tree;
* otherwise the blocks are open that were, and those that were opened and not
  closed, but not the one too many.  This holds for the whole script as well.

From the beginning of a script no operations, in any number and order, open
more blocks than may be. -/
theorem productions_exact (c : Cursor) (hc : c.depth ≤ maxDepth) :
    Exact statement Statement.tokens Statement.nesting
      (fun s => s.nopFree = true) c ∧
    Exact loop Statement.tokens Statement.nesting
      (fun s => s.isLoop = true ∧ s.nopFree = true) c ∧
    Exact action Statement.tokens Statement.nesting
      (fun s => ∃ a, s = .action a) c ∧
    Exact block Block.tokens Block.nesting (fun b => b.nopFree = true) c ∧
    (∀ e c', program c = .error e c' → Abandons c e c') ∧
    ∀ (ls : List Lexeme) (ops : List Cursor.Operation),
      (Cursor.afterAll { rest := ls } ops).depth ≤ maxDepth := by
  refine ⟨exact_statement hc, exact_loop hc, exact_action hc, exact_block hc,
    fun _ _ => abandons_of_program hc, fun ls ops => ?_⟩
  exact Cursor.depth_afterAll_le ops (Nat.zero_le maxDepth)

/-- With all blocks but one open there is room for one more: the loop is read
up to its own brace, on line 3. -/
theorem productions_exact_at_limit :
    (⟨[⟨.loop, 1⟩, ⟨.openBrace, 1⟩, ⟨.action .move, 2⟩, ⟨.semicolon, 2⟩,
        ⟨.closeBrace, 3⟩, ⟨.closeBrace, 4⟩], 1, 255⟩ : Cursor).depth ≤
      maxDepth ∧
    ∃ c', statement ⟨[⟨.loop, 1⟩, ⟨.openBrace, 1⟩, ⟨.action .move, 2⟩,
        ⟨.semicolon, 2⟩, ⟨.closeBrace, 3⟩, ⟨.closeBrace, 4⟩], 1, 255⟩ =
      .ok (.loop (.action .move) []) c' ∧ c'.rest = [⟨.closeBrace, 4⟩] :=
  ⟨by decide, ((productions_exact _ (by decide)).1.ok_iff _ _).2
    ⟨rfl, by decide, [⟨.loop, 1⟩, ⟨.openBrace, 1⟩, ⟨.action .move, 2⟩,
      ⟨.semicolon, 2⟩, ⟨.closeBrace, 3⟩], rfl, rfl⟩⟩

end RobotScript
