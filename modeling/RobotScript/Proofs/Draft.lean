import RobotScript.Proofs.Grammar
import RobotScript.Reading.Cursor

/-!
# Drafts

A draft is a script that breaks off somewhere: the statements finished so far
in each of the blocks that are still open, and the keyword that has been begun
with, if any.  Drafts grow by one token at a time, and whether a token can come
next depends on nothing but the draft.  So a list of tokens is read by pushing
one after the other, `Draft.extend`, and closing the book at the end,
`Draft.finish`.

This is the grammar seen from the left.  It knows for every token that cannot
come next what is wrong with it, and it takes the number of blocks that may be
open at once as a parameter, so that it can also speak of the grammar without
a limit.

## Main results

* `Draft.extend_tokens` — a draft is extended by exactly the tokens it gains.
* `Draft.extend_tokensList` — what becomes of the tokens of any list of
  statements: they are taken, up to `nop`s, exactly if no block in it consists
  of `nop`s only and the limit is kept.
* `Draft.extend_of_le` — a higher limit does not change what was taken.
* `Draft.verdict_tokens` — the verdict on the tokens of any program.
* `Draft.verdict_eq_ok_iff` — the lists of tokens that can be read.
* `Draft.eq_of_tokens_eq` — programs without a `nop` are determined by their
  tokens.
* `Draft.exists_completion` — every draft can be completed.
-/

namespace RobotScript

open Statement (tokensList nestingList nopFreeList filledList stripList)

/-- What a draft has begun with behind its last finished statement. -/
inductive Begun where
  | nothing
  /-- The keyword of an action, without its semicolon. -/
  | action (a : Action)
  /-- The keyword `loop`, without its block. -/
  | loop
  deriving DecidableEq

/-- A script up to some token. -/
structure Draft where
  /-- The statements of the sequences around the innermost open block, the
  innermost of them first and in each the last statement first. -/
  outer : List (List Statement)
  /-- The statements of the innermost open block, last one first. -/
  done : List Statement
  begun : Begun := .nothing
  deriving DecidableEq

namespace Draft

/-- The draft without a token. -/
def blank : Draft := ⟨[], [], .nothing⟩

/-- The number of open blocks. -/
def depth (d : Draft) : Nat :=
  d.outer.length

/-- The draft with one more token, or what is wrong with the token.  No more
than `limit` blocks may be open at once. -/
def push (limit : Nat) (d : Draft) (t : Token) : Except SyntaxFault Draft :=
  match d.begun, t with
  | .nothing, .action a => .ok { d with begun := .action a }
  | .nothing, .loop => .ok { d with begun := .loop }
  | .nothing, .closeBrace =>
    match d.outer, d.done.reverse with
    | [], _ => .error .invalidStatement
    | _ :: _, [] => .error .emptyBlock
    | around :: outer, first :: more =>
      .ok ⟨outer, .loop first more :: around, .nothing⟩
  | .nothing, _ => .error .invalidStatement
  | .action a, .semicolon => .ok ⟨d.outer, .action a :: d.done, .nothing⟩
  | .action _, _ => .error (.missing "';'")
  | .loop, .openBrace =>
    if limit ≤ d.depth then
      .error (.tooDeep limit)
    else
      .ok ⟨d.done :: d.outer, [], .nothing⟩
  | .loop, _ => .error (.missing "'\x7b'")

/-- The draft with more tokens, or what is wrong with the first token that
cannot come next. -/
def extend (limit : Nat) (d : Draft) : List Token → Except SyntaxFault Draft
  | [] => .ok d
  | t :: ts =>
    match d.push limit t with
    | .ok d => d.extend limit ts
    | .error fault => .error fault

/-- The program of a draft that is complete, or what it lacks. -/
def finish (d : Draft) : Except SyntaxFault Program :=
  match d.begun, d.outer with
  | .action _, _ => .error (.missing "';'")
  | .loop, _ => .error (.missing "'\x7b'")
  | .nothing, _ :: _ => .error (.missing "'\x7d'")
  | .nothing, [] => .ok ⟨d.done.reverse⟩

/-- The program written in a list of tokens, or what is wrong with the list. -/
def verdict (limit : Nat) (ts : List Token) : Except SyntaxFault Program :=
  match blank.extend limit ts with
  | .ok d => d.finish
  | .error fault => .error fault

/-- The draft of a complete program. -/
def ofProgram (p : Program) : Draft :=
  ⟨[], p.statements.reverse, .nothing⟩

/-! ## Pushing one token -/

/-- The ways in which a token is taken. -/
inductive Takes (limit : Nat) : Draft → Token → Draft → Prop
  | action (outer : List (List Statement)) (done : List Statement)
      (a : Action) :
      Takes limit ⟨outer, done, .nothing⟩ (.action a) ⟨outer, done, .action a⟩
  | semicolon (outer : List (List Statement)) (done : List Statement)
      (a : Action) :
      Takes limit ⟨outer, done, .action a⟩ .semicolon
        ⟨outer, .action a :: done, .nothing⟩
  | loop (outer : List (List Statement)) (done : List Statement) :
      Takes limit ⟨outer, done, .nothing⟩ .loop ⟨outer, done, .loop⟩
  | openBrace {outer : List (List Statement)} (done : List Statement)
      (h : outer.length < limit) :
      Takes limit ⟨outer, done, .loop⟩ .openBrace ⟨done :: outer, [], .nothing⟩
  | closeBrace {done : List Statement} {first : Statement}
      {more : List Statement} (outer : List (List Statement))
      (around : List Statement) (h : done.reverse = first :: more) :
      Takes limit ⟨around :: outer, done, .nothing⟩ .closeBrace
        ⟨outer, .loop first more :: around, .nothing⟩

theorem Takes.push {limit : Nat} {d d' : Draft} {t : Token}
    (h : Takes limit d t d') : d.push limit t = .ok d' := by
  cases h with
  | action => rfl
  | semicolon => rfl
  | loop => rfl
  | openBrace done h => simp [Draft.push, depth, Nat.not_le.2 h]
  | closeBrace outer around h => simp [Draft.push, h]

theorem takes_of_push {limit : Nat} {d d' : Draft} {t : Token}
    (h : d.push limit t = .ok d') : Takes limit d t d' := by
  obtain ⟨outer, done, begun⟩ := d
  cases begun with
  | nothing =>
      cases t with
      | action a =>
          cases h
          exact .action outer done a
      | loop =>
          cases h
          exact .loop outer done
      | closeBrace =>
          cases outer with
          | nil => cases h
          | cons around outer =>
              cases hdone : done.reverse with
              | nil => simp [Draft.push, hdone] at h
              | cons first more =>
                  simp only [Draft.push, hdone] at h
                  cases h
                  exact .closeBrace outer around hdone
      | _ => cases h
  | action a =>
      cases t with
      | semicolon =>
          cases h
          exact .semicolon outer done a
      | _ => cases h
  | loop =>
      cases t with
      | openBrace =>
          simp only [Draft.push] at h
          split at h
          · cases h
          · next hlt =>
            cases h
            exact .openBrace done (Nat.lt_of_not_le hlt)
      | _ => cases h

/-- A token that is taken under one limit is taken under any higher one. -/
theorem push_of_le {limit limit' : Nat} {d d' : Draft} {t : Token}
    (h : d.push limit t = .ok d') (hle : limit ≤ limit') :
    d.push limit' t = .ok d' := by
  apply Takes.push
  cases takes_of_push h with
  | action => exact .action _ _ _
  | semicolon => exact .semicolon _ _ _
  | loop => exact .loop _ _
  | openBrace done hlt => exact .openBrace done (Nat.lt_of_lt_of_le hlt hle)
  | closeBrace outer around hdone => exact .closeBrace outer around hdone

/-- Whatever is wrong with a token but for the limit is so under any limit. -/
theorem push_error_of_ne_tooDeep {limit : Nat} {d : Draft} {t : Token}
    {fault : SyntaxFault} (h : d.push limit t = .error fault)
    (hne : fault ≠ .tooDeep limit) (limit' : Nat) :
    d.push limit' t = .error fault := by
  obtain ⟨outer, done, begun⟩ := d
  cases begun with
  | nothing => cases t <;> exact h
  | action a => cases t <;> exact h
  | loop =>
      cases t with
      | openBrace =>
          simp only [push] at h
          split at h
          · cases h
            exact absurd rfl hne
          · cases h
      | _ => exact h

/-! ## Pushing many tokens -/

theorem extend_append_of_ok {limit : Nat} {d d' : Draft} {ts : List Token}
    (h : d.extend limit ts = .ok d') (us : List Token) :
    d.extend limit (ts ++ us) = d'.extend limit us := by
  induction ts generalizing d with
  | nil =>
      cases h
      rfl
  | cons t ts ih =>
      rw [List.cons_append]
      simp only [extend] at h ⊢
      split at h
      · exact ih h
      · cases h

theorem extend_append_of_error {limit : Nat} {d : Draft} {ts : List Token}
    {fault : SyntaxFault} (h : d.extend limit ts = .error fault)
    (us : List Token) : d.extend limit (ts ++ us) = .error fault := by
  induction ts generalizing d with
  | nil => cases h
  | cons t ts ih =>
      rw [List.cons_append]
      simp only [extend] at h ⊢
      split at h
      · exact ih h
      · exact h

/-- A list that is taken has been taken up to each of its places. -/
theorem extend_of_append {limit : Nat} {d d' : Draft} {ts us : List Token}
    (h : d.extend limit (ts ++ us) = .ok d') :
    ∃ e, d.extend limit ts = .ok e ∧ e.extend limit us = .ok d' := by
  cases hts : d.extend limit ts with
  | ok e => exact ⟨e, rfl, by rw [← extend_append_of_ok hts, h]⟩
  | error fault =>
      rw [extend_append_of_error hts] at h
      cases h

/-- A higher limit does not change what was taken. -/
theorem extend_of_le {limit limit' : Nat} {d d' : Draft} {ts : List Token}
    (h : d.extend limit ts = .ok d') (hle : limit ≤ limit') :
    d.extend limit' ts = .ok d' := by
  induction ts generalizing d with
  | nil => exact h
  | cons t ts ih =>
      simp only [extend] at h ⊢
      split at h
      · next hpush =>
        rw [push_of_le hpush hle]
        exact ih h
      · cases h

/-! ## The tokens of a draft -/

end Draft

/-- The tokens of what has been begun. -/
def Begun.tokens : Begun → List Token
  | .nothing => []
  | .action a => [.action a]
  | .loop => [.loop]

namespace Draft

/-- The tokens up to the brace that opens the innermost block. -/
def outerTokens : List (List Statement) → List Token
  | [] => []
  | around :: outer =>
    outerTokens outer ++ (tokensList around.reverse ++ [.loop, .openBrace])

/-- The tokens of a draft. -/
def tokens (d : Draft) : List Token :=
  outerTokens d.outer ++ (tokensList d.done.reverse ++ d.begun.tokens)

/-- Whether the draft holds no `nop`. -/
def NopFree (d : Draft) : Prop :=
  ∀ ss ∈ d.done :: d.outer, nopFreeList ss = true

theorem nopFree_blank : blank.NopFree := by
  intro ss hss
  rw [List.mem_singleton.1 hss]
  rfl

theorem Takes.tokens {limit : Nat} {d d' : Draft} {t : Token}
    (h : Takes limit d t d') : d'.tokens = d.tokens ++ [t] := by
  cases h with
  | action => simp [Draft.tokens, Begun.tokens]
  | semicolon =>
      simp [Draft.tokens, Begun.tokens, Statement.tokensList_append, tokensList,
        Statement.tokens]
  | loop => simp [Draft.tokens, Begun.tokens]
  | openBrace => simp [Draft.tokens, Begun.tokens, outerTokens, tokensList]
  | closeBrace outer around h =>
      simp [Draft.tokens, Begun.tokens, outerTokens, tokensList, h,
        Statement.tokensList_append, Statement.tokens]

theorem Takes.nopFree {limit : Nat} {d d' : Draft} {t : Token}
    (h : Takes limit d t d') (hd : d.NopFree) : d'.NopFree := by
  cases h with
  | action => exact hd
  | semicolon =>
      simpa [NopFree, nopFreeList, Statement.nopFree] using hd
  | loop => exact hd
  | openBrace => simpa [NopFree, nopFreeList] using hd
  | closeBrace outer around h =>
      obtain ⟨hdone, hrest⟩ := List.forall_mem_cons.1 hd
      rw [← Statement.nopFreeList_reverse, h] at hdone
      simpa [NopFree, nopFreeList, Statement.nopFree, and_assoc] using
        And.intro hdone hrest

theorem Takes.depth_le {limit : Nat} {d d' : Draft} {t : Token}
    (h : Takes limit d t d') (hd : d.depth ≤ limit) : d'.depth ≤ limit := by
  cases h with
  | action => exact hd
  | semicolon => exact hd
  | loop => exact hd
  | openBrace done h => exact h
  | closeBrace outer around h => exact Nat.le_of_succ_le hd

/-- What one token preserves, a list of tokens preserves. -/
theorem extend_preserves {limit : Nat} {P : Draft → Prop}
    (hstep : ∀ {d d' t}, Takes limit d t d' → P d → P d') {d d' : Draft}
    {ts : List Token} (h : d.extend limit ts = .ok d') (hd : P d) : P d' := by
  induction ts generalizing d with
  | nil =>
      cases h
      exact hd
  | cons t ts ih =>
      simp only [extend] at h
      split at h
      · next hpush => exact ih h (hstep (takes_of_push hpush) hd)
      · cases h

/-- A draft is extended by exactly the tokens it gains. -/
theorem extend_tokens {limit : Nat} {d d' : Draft} {ts : List Token}
    (h : d.extend limit ts = .ok d') : d'.tokens = d.tokens ++ ts := by
  induction ts generalizing d with
  | nil =>
      cases h
      simp
  | cons t ts ih =>
      simp only [extend] at h
      split at h
      · next hpush =>
        rw [ih h, (takes_of_push hpush).tokens]
        simp
      · cases h

/-- The tokens from the beginning are those of the draft they lead to. -/
theorem tokens_of_extend_blank {limit : Nat} {d : Draft} {ts : List Token}
    (h : blank.extend limit ts = .ok d) : d.tokens = ts :=
  extend_tokens h

theorem nopFree_of_extend_blank {limit : Nat} {d : Draft} {ts : List Token}
    (h : blank.extend limit ts = .ok d) : d.NopFree :=
  extend_preserves Takes.nopFree h nopFree_blank

theorem depth_le_of_extend_blank {limit : Nat} {d : Draft} {ts : List Token}
    (h : blank.extend limit ts = .ok d) : d.depth ≤ limit :=
  extend_preserves Takes.depth_le h (Nat.zero_le limit)

/-! ## The tokens of a tree -/

/-- The tokens of a tree that can be taken if `fits` are all taken and lead to
`d`; otherwise they are stopped at a block that is empty or too deep. -/
def TakenIf (limit : Nat) (fits : Prop) (r : Except SyntaxFault Draft)
    (d : Draft) : Prop :=
  (fits ∧ r = .ok d) ∨
    (¬fits ∧ (r = .error .emptyBlock ∨ r = .error (.tooDeep limit)))

theorem extend_openBlock {limit : Nat} {outer : List (List Statement)}
    (h : outer.length < limit) (done : List Statement) :
    extend limit ⟨outer, done, .nothing⟩ [.loop, .openBrace] =
      .ok ⟨done :: outer, [], .nothing⟩ := by
  simp [extend, push, depth, Nat.not_le.2 h]

theorem extend_closeBlock (limit : Nat) (outer : List (List Statement))
    (around ss : List Statement) :
    extend limit ⟨around :: outer, ss.reverse, .nothing⟩ [.closeBrace] =
      match ss with
      | [] => .error .emptyBlock
      | first :: rest => .ok ⟨outer, .loop first rest :: around, .nothing⟩ := by
  cases ss with
  | nil => rfl
  | cons first rest => simp [extend, push]

mutual

theorem extend_statement {limit : Nat} : (s : Statement) →
    (outer : List (List Statement)) → (done : List Statement) →
    outer.length ≤ limit →
    TakenIf limit (s.filled = true ∧ outer.length + s.nesting ≤ limit)
      (extend limit ⟨outer, done, .nothing⟩ s.tokens)
      ⟨outer, s.strip.reverse ++ done, .nothing⟩
  | .action a, outer, done, h => .inl ⟨⟨rfl, h⟩, rfl⟩
  | .loop first rest, outer, done, h => by
      have hlist := @extend_tokensList limit (first :: rest)
      generalize hbody : first :: rest = body at hlist
      rw [Statement.tokens_loop, Statement.filled_loop, Statement.nesting_loop,
        Statement.strip_loop, hbody, List.append_assoc]
      by_cases hlt : outer.length < limit
      · rw [extend_append_of_ok (extend_openBlock hlt done)]
        have hdepth : outer.length + (nestingList body + 1) =
            (done :: outer).length + nestingList body := by
          rw [List.length_cons]
          omega
        rw [hdepth]
        rcases hlist (done :: outer) [] hlt with ⟨hfits, hok⟩ | ⟨hfits, herror⟩
        · rw [List.append_nil] at hok
          rw [extend_append_of_ok hok, extend_closeBlock]
          cases hstrip : stripList body with
          | nil =>
              have hnops := (Statement.stripList_eq_nil_iff body).1 hstrip
              exact .inr ⟨by simp [hnops], .inl rfl⟩
          | cons first' rest' =>
              have hany : body.any (!·.isNop) = true := by
                rw [← Bool.not_eq_false, ← Statement.stripList_eq_nil_iff,
                  hstrip]
                exact List.cons_ne_nil _ _
              exact .inl ⟨⟨by rw [hany, hfits.1]; rfl, hfits.2⟩, rfl⟩
        · have hnot : ¬((body.any (!·.isNop) && filledList body) = true ∧
              (done :: outer).length + nestingList body ≤ limit) := by
            rintro ⟨hfilled, hle⟩
            exact hfits ⟨(Bool.and_eq_true_iff.1 hfilled).2, hle⟩
          refine .inr ⟨hnot, ?_⟩
          rcases herror with herror | herror
          · exact .inl (extend_append_of_error herror _)
          · exact .inr (extend_append_of_error herror _)
      · have hstop : extend limit ⟨outer, done, .nothing⟩ [.loop, .openBrace] =
            .error (.tooDeep limit) := by
          simp [extend, push, depth, Nat.le_of_not_lt hlt]
        refine .inr ⟨?_, .inr (extend_append_of_error hstop _)⟩
        rintro ⟨_, hle⟩
        omega
  | .nop, outer, done, h => .inl ⟨⟨rfl, h⟩, rfl⟩

/-- The tokens of any list of statements. -/
theorem extend_tokensList {limit : Nat} : (ss : List Statement) →
    (outer : List (List Statement)) → (done : List Statement) →
    outer.length ≤ limit →
    TakenIf limit (filledList ss = true ∧ outer.length + nestingList ss ≤ limit)
      (extend limit ⟨outer, done, .nothing⟩ (tokensList ss))
      ⟨outer, (stripList ss).reverse ++ done, .nothing⟩
  | [], outer, done, h => .inl ⟨⟨rfl, h⟩, rfl⟩
  | s :: rest, outer, done, h => by
      have hboth : (filledList (s :: rest) = true ∧
            outer.length + nestingList (s :: rest) ≤ limit) ↔
          (s.filled = true ∧ outer.length + s.nesting ≤ limit) ∧
            (filledList rest = true ∧
              outer.length + nestingList rest ≤ limit) := by
        have hmax : outer.length + max s.nesting (nestingList rest) ≤ limit ↔
            outer.length + s.nesting ≤ limit ∧
              outer.length + nestingList rest ≤ limit := by omega
        rw [filledList, nestingList, Bool.and_eq_true, hmax, and_and_and_comm]
      rw [hboth, tokensList]
      rcases extend_statement s outer done h with ⟨hfits, hok⟩ | ⟨hfits, herror⟩
      · rw [extend_append_of_ok hok]
        rcases extend_tokensList rest outer (s.strip.reverse ++ done) h with
          ⟨hrest, hok'⟩ | ⟨hrest, herror'⟩
        · refine .inl ⟨⟨hfits, hrest⟩, ?_⟩
          rw [hok', stripList, List.reverse_append, List.append_assoc]
        · exact .inr ⟨fun hboth => hrest hboth.2, herror'⟩
      · refine .inr ⟨fun hboth => hfits hboth.1, ?_⟩
        rcases herror with herror | herror
        · exact .inl (extend_append_of_error herror _)
        · exact .inr (extend_append_of_error herror _)

end

/-- The tokens of any program, from the beginning. -/
theorem extend_program (limit : Nat) (p : Program) :
    TakenIf limit (p.filled = true ∧ p.nesting ≤ limit)
      (blank.extend limit p.tokens) (ofProgram p.strip) := by
  have h := extend_tokensList p.statements [] [] (Nat.zero_le limit)
  rw [List.length_nil, Nat.zero_add, List.append_nil] at h
  exact h

/-- The tokens of a program without a `nop` lead to its draft. -/
theorem extend_of_nopFree {limit : Nat} {p : Program} (hp : p.nopFree = true)
    (hle : p.nesting ≤ limit) :
    blank.extend limit p.tokens = .ok (ofProgram p) := by
  have hfilled : p.filled = true := Statement.filledList_of_nopFree _ hp
  have hstrip : p.strip = p := by
    rw [Program.strip, Statement.stripList_of_nopFree _ hp]
  rcases extend_program limit p with ⟨_, hok⟩ | ⟨hnot, _⟩
  · rw [hok, hstrip]
  · exact absurd ⟨hfilled, hle⟩ hnot

theorem ofProgram_injective {p q : Program} (h : ofProgram p = ofProgram q) :
    p = q := by
  have hstatements := List.reverse_inj.1 (congrArg done h)
  cases p
  cases q
  exact congrArg Program.mk hstatements

/-- Programs without a `nop` are determined by their tokens, however deep they
are. -/
theorem eq_of_tokens_eq {p q : Program} (hp : p.nopFree = true)
    (hq : q.nopFree = true) (h : p.tokens = q.tokens) : p = q := by
  have hp' := extend_of_nopFree hp (Nat.le_max_left p.nesting q.nesting)
  have hq' := extend_of_nopFree hq (Nat.le_max_right p.nesting q.nesting)
  rw [h, hq'] at hp'
  exact (ofProgram_injective (Except.ok.inj hp')).symm

/-- A draft is complete exactly if it is that of a program. -/
theorem finish_eq_ok_iff {d : Draft} {p : Program} :
    d.finish = .ok p ↔ d = ofProgram p := by
  constructor
  · intro h
    obtain ⟨outer, done, begun⟩ := d
    cases begun with
    | nothing =>
        cases outer with
        | nil =>
            cases h
            rw [ofProgram, List.reverse_reverse]
        | cons around outer => cases h
    | action a => cases h
    | loop => cases h
  · rintro rfl
    rw [finish, ofProgram, List.reverse_reverse]

/-- The verdict on the tokens of any program: it is taken without its `nop`s if
it is filled and keeps to the limit, and otherwise one of the two is at
fault. -/
theorem verdict_tokens (limit : Nat) (p : Program) :
    (p.filled = true ∧ p.nesting ≤ limit) ∧
        verdict limit p.tokens = .ok p.strip ∨
      ¬(p.filled = true ∧ p.nesting ≤ limit) ∧
        (verdict limit p.tokens = .error .emptyBlock ∨
          verdict limit p.tokens = .error (.tooDeep limit)) := by
  rcases extend_program limit p with ⟨hfits, hok⟩ | ⟨hfits, herror⟩
  · left
    refine ⟨hfits, ?_⟩
    rw [verdict, hok]
    exact finish_eq_ok_iff.2 rfl
  · right
    refine ⟨hfits, ?_⟩
    rcases herror with herror | herror
    · left
      rw [verdict, herror]
    · right
      rw [verdict, herror]

/-- **The grammar.**  The lists of tokens that can be read under a limit are
those of the programs without a `nop` that keep to it. -/
theorem verdict_eq_ok_iff {limit : Nat} {ts : List Token} {p : Program} :
    verdict limit ts = .ok p ↔
      ts = p.tokens ∧ p.nopFree = true ∧ p.nesting ≤ limit := by
  constructor
  · intro h
    rw [verdict] at h
    split at h
    · next d hd =>
      obtain rfl := finish_eq_ok_iff.1 h
      have htokens : p.tokens = ts := by
        rw [← tokens_of_extend_blank hd]
        simp [tokens, ofProgram, outerTokens, Begun.tokens, Program.tokens]
      have hnop : p.nopFree = true := by
        rw [Program.nopFree, ← Statement.nopFreeList_reverse]
        exact nopFree_of_extend_blank hd _ List.mem_cons_self
      refine ⟨htokens.symm, hnop, ?_⟩
      rcases extend_program limit p with ⟨hfits, _⟩ | ⟨_, herror⟩
      · exact hfits.2
      · rw [htokens, hd] at herror
        rcases herror with herror | herror <;> cases herror
    · cases h
  · rintro ⟨rfl, hnop, hle⟩
    rw [verdict, extend_of_nopFree hnop hle]
    exact finish_eq_ok_iff.2 rfl

/-! ## Completing a draft -/

/-- A draft whose innermost block can be closed is completed by closing all its
blocks. -/
theorem exists_completion_of_cons (outer : List (List Statement))
    (s : Statement) (done : List Statement)
    (h : NopFree ⟨outer, s :: done, .nothing⟩) :
    ∃ p : Program, p.nopFree = true ∧
      tokens ⟨outer, s :: done, .nothing⟩ <+: p.tokens := by
  induction outer generalizing s done with
  | nil =>
      have hdone := h (s :: done) (List.mem_cons_self)
      rw [← Statement.nopFreeList_reverse] at hdone
      refine ⟨⟨(s :: done).reverse⟩, hdone, ?_⟩
      simp [tokens, outerTokens, Begun.tokens, Program.tokens]
  | cons around outer ih =>
      obtain ⟨first, more, hfirst⟩ :=
        List.exists_cons_of_ne_nil (l := (s :: done).reverse) (by simp)
      have htakes : Takes 0 ⟨around :: outer, s :: done, .nothing⟩ .closeBrace
          ⟨outer, .loop first more :: around, .nothing⟩ :=
        .closeBrace outer around hfirst
      obtain ⟨p, hp, hprefix⟩ := ih _ _ (htakes.nopFree h)
      rw [htakes.tokens] at hprefix
      exact ⟨p, hp, (List.prefix_append _ _).trans hprefix⟩

/-- **Completion.**  Every draft without a `nop` is the beginning of a program
without one. -/
theorem exists_completion (d : Draft) (h : d.NopFree) :
    ∃ p : Program, p.nopFree = true ∧ d.tokens <+: p.tokens := by
  obtain ⟨outer, done, begun⟩ := d
  have hcomplete : ∀ s : Statement, s.nopFree = true →
      tokens ⟨outer, done, begun⟩ <+: tokens ⟨outer, s :: done, .nothing⟩ →
      ∃ p : Program, p.nopFree = true ∧
        tokens ⟨outer, done, begun⟩ <+: p.tokens := by
    intro s hs hprefix
    have hcons : NopFree ⟨outer, s :: done, .nothing⟩ := by
      simpa [NopFree, nopFreeList, hs] using h
    obtain ⟨p, hp, hp'⟩ := exists_completion_of_cons outer s done hcons
    exact ⟨p, hp, hprefix.trans hp'⟩
  cases begun with
  | nothing =>
      apply hcomplete (.action .wait) rfl
      simp [tokens, Begun.tokens, Statement.tokensList_append]
  | action a =>
      apply hcomplete (.action a) rfl
      simp [tokens, Begun.tokens, Statement.tokensList_append, tokensList,
        Statement.tokens]
  | loop =>
      apply hcomplete (.loop (.action .wait) []) rfl
      simp [tokens, Begun.tokens, Statement.tokensList_append, tokensList,
        Statement.tokens]

/-! ## Open blocks -/

end Draft

/-- The number of blocks that are opened and not closed in a list of tokens. -/
def openBlocks (ts : List Token) : Nat :=
  ts.count .openBrace - ts.count .closeBrace

namespace Draft

theorem count_outerTokens (outer : List (List Statement)) :
    (outerTokens outer).count .openBrace =
      (outerTokens outer).count .closeBrace + outer.length := by
  induction outer with
  | nil => rfl
  | cons around outer ih =>
      have h := Statement.count_openBrace_tokensList around.reverse
      simp only [outerTokens, List.count_append, ih, h, List.length_cons]
      simp [Nat.add_assoc, Nat.add_comm, Nat.add_left_comm]

/-- A draft has a brace too many for every open block. -/
theorem count_tokens (d : Draft) :
    d.tokens.count .openBrace = d.tokens.count .closeBrace + d.depth := by
  have houter := count_outerTokens d.outer
  have hdone := Statement.count_openBrace_tokensList d.done.reverse
  have hbegun : d.begun.tokens.count .openBrace =
      d.begun.tokens.count .closeBrace := by
    cases d.begun with
    | nothing => rfl
    | action a => simp [Begun.tokens]
    | loop => simp [Begun.tokens]
  simp only [tokens, List.count_append, depth]
  omega

/-- The blocks that are open in a draft are those its tokens leave open. -/
theorem openBlocks_tokens (d : Draft) : openBlocks d.tokens = d.depth := by
  have hcount := d.count_tokens
  unfold openBlocks
  omega

end Draft

end RobotScript
