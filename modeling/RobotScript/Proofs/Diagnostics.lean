import RobotScript.Proofs.Acceptance

/-!
# Errors point at the first violation

Reading a script stops at the first token that no script could have there.
What comes before it can be completed to a script, and together with it cannot,
both in the grammar without a limit on nesting.  There is one exception: a
brace that opens a block too many is taken before the fault is found, so it
belongs to the part that can be completed.

Which fault is reported can be told from the last token before the place, the
token behind it and the number of open blocks; `faultAfter` is the table.

## Main results

* `viable_of_extend`, `not_viable_of_push_error`, `not_sentence_of_finish_error`
  — drafts and what can be completed.
* `Draft.fault_eq_of_push_error`, `Draft.fault_eq_of_finish_error` — the fault
  a draft finds is the one its tokens tell.
* `firstViolation_of_program` — a reading that fails does so at the first
  violation.
* `error_at_first_violation` — where a reading fails, with what fault, and what
  the error shows of the place.
-/

namespace RobotScript

open Reading
open Statement (tokensList nopFreeList)

/-- Whether a list of tokens is a script of the grammar without a limit on
nesting. -/
def Sentence (ts : List Token) : Prop :=
  ∃ p : Program, p.nopFree = true ∧ ts = p.tokens

/-- Whether a list of tokens can be completed to such a script. -/
def Viable (ts : List Token) : Prop :=
  ∃ us, ts <+: us ∧ Sentence us

/-- The fault at a place in a script, told from the last token before the
place, the token behind it and the number of blocks that are open.  The first
line that fits counts. -/
def faultBetween : Option Token → Option Token → Nat → SyntaxFault
  | some (.action _), _, _ => .missing "';'"
  | some .loop, _, _ => .missing "'\x7b'"
  | some .openBrace, some .closeBrace, _ => .emptyBlock
  | _, none, _ + 1 => .missing "'\x7d'"
  | _, _, _ => .invalidStatement

/-- The fault at a place in a script, told from the tokens before the place and
the token behind it. -/
def faultAfter (before : List Token) (next : Option Token) : SyntaxFault :=
  faultBetween before.getLast? next (openBlocks before)

/-! ## Drafts and what can be completed -/

section Completion

variable {limit : Nat} {d : Draft} {ts : List Token}

/-- Tokens that have been taken can be completed. -/
theorem viable_of_extend (h : Draft.blank.extend limit ts = .ok d) :
    Viable ts := by
  obtain ⟨p, hp, hprefix⟩ :=
    d.exists_completion (Draft.nopFree_of_extend_blank h)
  rw [Draft.tokens_of_extend_blank h] at hprefix
  exact ⟨p.tokens, hprefix, p, hp, rfl⟩

/-- The beginning of a script is taken under a limit that is high enough. -/
theorem exists_extend_of_viable (h : Viable ts) (limit : Nat) :
    ∃ limit' d', limit ≤ limit' ∧ Draft.blank.extend limit' ts = .ok d' := by
  obtain ⟨_, ⟨us, rfl⟩, p, hp, htokens⟩ := h
  have hextend := Draft.extend_of_nopFree hp (Nat.le_max_right limit p.nesting)
  rw [← htokens] at hextend
  obtain ⟨d', hd', _⟩ := Draft.extend_of_append hextend
  exact ⟨_, d', Nat.le_max_left limit p.nesting, hd'⟩

/-- With a token that cannot come next no script begins, whatever the limit. -/
theorem not_viable_of_push_error {t : Token} {fault : SyntaxFault}
    (h : Draft.blank.extend limit ts = .ok d)
    (hpush : d.push limit t = .error fault) (hne : fault ≠ .tooDeep limit) :
    ¬Viable (ts ++ [t]) := by
  intro hviable
  obtain ⟨limit', d', hle, hd'⟩ := exists_extend_of_viable hviable limit
  rw [Draft.extend_append_of_ok (Draft.extend_of_le h hle), Draft.extend,
    Draft.push_error_of_ne_tooDeep hpush hne limit'] at hd'
  cases hd'

/-- A draft that is not complete is not a script. -/
theorem not_sentence_of_finish_error {fault : SyntaxFault}
    (h : Draft.blank.extend limit ts = .ok d)
    (hfinish : d.finish = .error fault) : ¬Sentence ts := by
  rintro ⟨p, hp, rfl⟩
  have hextend := Draft.extend_of_nopFree hp (Nat.le_max_right limit p.nesting)
  rw [Draft.extend_of_le h (Nat.le_max_left limit p.nesting)] at hextend
  rw [Draft.finish_eq_ok_iff.2 (Except.ok.inj hextend)] at hfinish
  cases hfinish

/-- Under a limit no beginning of the tokens taken has more blocks open. -/
theorem openBlocks_take_le (h : Draft.blank.extend limit ts = .ok d)
    (j : Nat) : openBlocks (ts.take j) ≤ limit := by
  rw [← List.take_append_drop j ts] at h
  obtain ⟨d', hd', _⟩ := Draft.extend_of_append h
  rw [← Draft.tokens_of_extend_blank hd', Draft.openBlocks_tokens]
  exact Draft.depth_le_of_extend_blank hd'

theorem openBlocks_of_extend (h : Draft.blank.extend limit ts = .ok d) :
    openBlocks ts = d.depth := by
  rw [← Draft.openBlocks_tokens, Draft.tokens_of_extend_blank h]

end Completion

/-! ## The last token of a draft -/

/-- A statement ends with a semicolon or a brace. -/
theorem getLast?_tokens_of_nopFree {s : Statement} (h : s.nopFree = true) :
    s.tokens.getLast? = some .semicolon ∨
      s.tokens.getLast? = some .closeBrace := by
  cases s with
  | action a => exact .inl rfl
  | loop first rest =>
      right
      rw [Statement.tokens_loop]
      exact List.getLast?_concat
  | nop => cases h

namespace Draft

theorem tokens_blank : tokens ⟨[], [], .nothing⟩ = [] := rfl

/-- Directly behind an opening brace. -/
theorem getLast?_tokens_open (around : List Statement)
    (outer : List (List Statement)) :
    (tokens ⟨around :: outer, [], .nothing⟩).getLast? = some .openBrace := by
  simp [tokens, outerTokens, tokensList, Begun.tokens, List.getLast?_append]

/-- Behind a finished statement. -/
theorem getLast?_tokens_cons (outer : List (List Statement)) {s : Statement}
    (done : List Statement) (h : s.nopFree = true) :
    (tokens ⟨outer, s :: done, .nothing⟩).getLast? = some .semicolon ∨
      (tokens ⟨outer, s :: done, .nothing⟩).getLast? = some .closeBrace := by
  have hlast := getLast?_tokens_of_nopFree h
  have htokens : tokens ⟨outer, s :: done, .nothing⟩ =
      (outerTokens outer ++ tokensList done.reverse) ++ s.tokens := by
    simp [tokens, Begun.tokens, Statement.tokensList_append, tokensList]
  rw [htokens, List.getLast?_append]
  rcases hlast with hlast | hlast
  · exact .inl (by rw [hlast]; rfl)
  · exact .inr (by rw [hlast]; rfl)

theorem getLast?_tokens_begun {outer : List (List Statement)}
    {done : List Statement} {begun : Begun} {t : Token}
    (h : begun.tokens = [t]) :
    (tokens ⟨outer, done, begun⟩).getLast? = some t := by
  rw [tokens, h, ← List.append_assoc]
  exact List.getLast?_concat

/-! ## The fault of a draft -/

/-- Behind a finished statement it does not matter which statement that was. -/
theorem faultAfter_tokens_cons (outer : List (List Statement)) {s : Statement}
    (done : List Statement) (hd : NopFree ⟨outer, s :: done, .nothing⟩)
    (next : Option Token) :
    faultAfter (tokens ⟨outer, s :: done, .nothing⟩) next =
      faultBetween (some .semicolon) next outer.length := by
  have hs : s.nopFree = true := by
    have hall := hd (s :: done) List.mem_cons_self
    rw [nopFreeList, Bool.and_eq_true] at hall
    exact hall.1
  rw [faultAfter, openBlocks_tokens]
  rcases getLast?_tokens_cons outer done hs with hlast | hlast
  · rw [hlast]
    rfl
  · rw [hlast]
    cases next <;> cases outer <;> rfl

/-- A token that cannot come behind a finished statement begins no
statement. -/
theorem fault_of_push_cons {limit : Nat} {outer : List (List Statement)}
    {s : Statement} {done : List Statement} {t : Token} {fault : SyntaxFault}
    (h : push limit ⟨outer, s :: done, .nothing⟩ t = .error fault) :
    fault = .invalidStatement := by
  cases t with
  | closeBrace =>
      cases outer with
      | nil =>
          cases h
          rfl
      | cons around outer =>
          simp only [push] at h
          split at h
          · cases h
            rfl
          · next hreverse => simp at hreverse
          · cases h
  | action a => cases h
  | loop => cases h
  | _ =>
      cases h
      rfl

/-- The fault found at a token is the one that the tokens tell. -/
theorem fault_eq_of_push_error {limit : Nat} {d : Draft} {t : Token}
    {fault : SyntaxFault} (hd : d.NopFree)
    (h : d.push limit t = .error fault) (hne : fault ≠ .tooDeep limit) :
    fault = faultAfter d.tokens (some t) := by
  obtain ⟨outer, done, begun⟩ := d
  cases begun with
  | nothing =>
      cases done with
      | nil =>
          cases outer with
          | nil =>
              rw [tokens_blank]
              cases t <;> cases h <;> rfl
          | cons around outer =>
              rw [faultAfter, getLast?_tokens_open]
              cases t <;> cases h <;> rfl
      | cons s done =>
          rw [faultAfter_tokens_cons outer done hd, fault_of_push_cons h]
          rfl
  | action a =>
      rw [faultAfter, getLast?_tokens_begun rfl]
      cases t <;> cases h <;> rfl
  | loop =>
      rw [faultAfter, getLast?_tokens_begun rfl]
      cases t with
      | openBrace =>
          simp only [push] at h
          split at h
          · cases h
            exact absurd rfl hne
          · cases h
      | _ =>
          cases h
          rfl

/-- The fault found at the end is the one that the tokens tell. -/
theorem fault_eq_of_finish_error {d : Draft} {fault : SyntaxFault}
    (hd : d.NopFree) (h : d.finish = .error fault) :
    fault = faultAfter d.tokens none := by
  obtain ⟨outer, done, begun⟩ := d
  cases begun with
  | nothing =>
      cases outer with
      | nil => cases h
      | cons around outer =>
          cases h
          cases done with
          | nil =>
              rw [faultAfter, openBlocks_tokens, getLast?_tokens_open]
              rfl
          | cons s done =>
              rw [faultAfter_tokens_cons (around :: outer) done hd]
              rfl
  | action a =>
      cases h
      rw [faultAfter, getLast?_tokens_begun rfl]
      rfl
  | loop =>
      cases h
      rw [faultAfter, getLast?_tokens_begun rfl]
      rfl

/-- A block too many is opened by the brace behind `loop` only. -/
theorem push_eq_tooDeep {limit : Nat} {d : Draft} {t : Token}
    (h : d.push limit t = .error (.tooDeep limit)) :
    d.begun = .loop ∧ t = .openBrace ∧ limit ≤ d.depth := by
  obtain ⟨outer, done, begun⟩ := d
  cases begun with
  | nothing =>
      cases t with
      | closeBrace =>
          simp only [push] at h
          split at h <;> cases h
      | _ => cases h
  | action a => cases t <;> cases h
  | loop =>
      cases t with
      | openBrace =>
          simp only [push] at h
          split at h
          · next hle => exact ⟨rfl, rfl, hle⟩
          · cases h
      | _ => cases h

theorem finish_ne_tooDeep {d : Draft} {fault : SyntaxFault} {limit : Nat}
    (h : d.finish = .error fault) : fault ≠ .tooDeep limit := by
  rintro rfl
  simp only [finish] at h
  split at h <;> cases h

/-- With a higher limit the block that was one too many is opened. -/
theorem extend_succ_of_tooDeep {limit : Nat} {d : Draft} {t : Token}
    {ts : List Token} (h : blank.extend limit ts = .ok d)
    (hpush : d.push limit t = .error (.tooDeep limit)) :
    ∃ d', blank.extend (limit + 1) (ts ++ [t]) = .ok d' ∧
      d'.depth = limit + 1 ∧ t = .openBrace := by
  have hle := depth_le_of_extend_blank h
  have hextend := extend_of_le h (Nat.le_succ limit)
  obtain ⟨hbegun, rfl, hge⟩ := push_eq_tooDeep hpush
  obtain ⟨outer, done, begun⟩ := d
  obtain rfl : begun = .loop := hbegun
  have hlength : outer.length = limit := Nat.le_antisymm hle hge
  have htakes : Takes (limit + 1) ⟨outer, done, .loop⟩ .openBrace
      ⟨done :: outer, [], .nothing⟩ := .openBrace done (by omega)
  refine ⟨⟨done :: outer, [], .nothing⟩, ?_, ?_, rfl⟩
  · rw [extend_append_of_ok hextend, extend, htakes.push]
    rfl
  · show outer.length + 1 = limit + 1
    rw [hlength]

end Draft

/-! ## The place of an error -/

/-- What makes a place the first violation, given the lexemes taken before it,
those left behind it and the fault that is reported. -/
structure FirstViolation (taken rest : List Lexeme) (fault : SyntaxFault) :
    Prop where
  /-- What has been taken can be completed. -/
  viable : Viable (tokensOf taken)
  /-- Blocks are nested too deep exactly if the last token taken opens the
  first block beyond the limit. -/
  tooDeep_iff : fault = .tooDeep maxDepth ↔
    (tokensOf taken).getLast? = some .openBrace ∧
      openBlocks (tokensOf taken) = maxDepth + 1 ∧
      ∀ j < taken.length, openBlocks ((tokensOf taken).take j) < maxDepth + 1
  /-- If blocks are not nested too deep, no script goes on with the next
  token. -/
  not_viable : fault ≠ .tooDeep maxDepth → ∀ l rest', rest = l :: rest' →
    ¬Viable (tokensOf taken ++ [l.token])
  /-- If they are not and there is no next token, what has been taken is no
  script. -/
  not_sentence : fault ≠ .tooDeep maxDepth → rest = [] →
    ¬Sentence (tokensOf taken)
  /-- If they are not, the fault is the one that the tokens tell. -/
  fault_eq : fault ≠ .tooDeep maxDepth →
    fault = faultAfter (tokensOf taken) (tokensOf rest).head?

section Place

variable {d : Draft} {used rest : List Lexeme} {fault : SyntaxFault}
  {c : Cursor}

/-- Where no block is opened too many, the limit plays no part. -/
theorem FirstViolation.of_ne_tooDeep
    (hd : Draft.blank.extend maxDepth (tokensOf used) = .ok d)
    (hne : fault ≠ .tooDeep maxDepth)
    (hviable : ∀ l rest', rest = l :: rest' →
      ¬Viable (tokensOf used ++ [l.token]))
    (hsentence : rest = [] → ¬Sentence (tokensOf used))
    (hfault : fault = faultAfter (tokensOf used) (tokensOf rest).head?) :
    FirstViolation used rest fault where
  viable := viable_of_extend hd
  tooDeep_iff := by
    refine ⟨fun heq => absurd heq hne, ?_⟩
    rintro ⟨_, hopen, _⟩
    have hle := Draft.depth_le_of_extend_blank hd
    rw [← openBlocks_of_extend hd, hopen] at hle
    exact absurd hle (Nat.not_succ_le_self maxDepth)
  not_viable _ := hviable
  not_sentence _ := hsentence
  fault_eq _ := hfault

/-- The brace of a block too many belongs to what has been taken. -/
theorem FirstViolation.of_tooDeep {l : Lexeme} (rest : List Lexeme)
    (hd : Draft.blank.extend maxDepth (tokensOf used) = .ok d)
    (hpush : d.push maxDepth l.token = .error (.tooDeep maxDepth)) :
    FirstViolation (used ++ [l]) rest (.tooDeep maxDepth) := by
  obtain ⟨d', hextend, hdepth, htoken⟩ := Draft.extend_succ_of_tooDeep hd hpush
  have htokens : tokensOf (used ++ [l]) = tokensOf used ++ [l.token] := by
    rw [tokensOf_append, tokensOf_cons, tokensOf_nil]
  refine ⟨?_, ⟨fun _ => ⟨?_, ?_, ?_⟩, fun _ => rfl⟩, fun hne => ?_,
    fun hne => ?_, fun hne => ?_⟩
  · rw [htokens]
    exact viable_of_extend hextend
  · rw [htokens, htoken]
    exact List.getLast?_concat
  · rw [htokens, openBlocks_of_extend hextend, hdepth]
  · intro j hj
    have hj' : j ≤ (tokensOf used).length := by
      rw [List.length_append, List.length_singleton] at hj
      rw [tokensOf, List.length_map]
      omega
    rw [htokens, List.take_append_of_le_length hj']
    exact Nat.lt_succ_of_le (openBlocks_take_le hd j)
  · exact absurd rfl hne
  · exact absurd rfl hne
  · exact absurd rfl hne

/-- A reading stops at the first violation. -/
theorem Stops.firstViolation {line : Nat} (h : Stops d line rest fault c)
    (hd : Draft.blank.extend maxDepth (tokensOf used) = .ok d) :
    ∃ taken, used ++ rest = taken ++ c.rest ∧
      FirstViolation taken c.rest fault := by
  have hnop := Draft.nopFree_of_extend_blank hd
  have htokens := Draft.tokens_of_extend_blank hd
  cases h with
  | refuse hpush hne =>
      refine ⟨used, rfl, .of_ne_tooDeep hd hne ?_ nofun ?_⟩
      · rintro l rest' ⟨⟩
        exact not_viable_of_push_error hd hpush hne
      · rw [← htokens]
        exact Draft.fault_eq_of_push_error hnop hpush hne
  | @overflow l rest hpush =>
      refine ⟨used ++ [l], ?_, .of_tooDeep rest hd hpush⟩
      rw [List.append_assoc, List.singleton_append]
  | breakOff hfinish =>
      have hne : fault ≠ .tooDeep maxDepth := Draft.finish_ne_tooDeep hfinish
      refine ⟨used, rfl, .of_ne_tooDeep hd hne nofun ?_ ?_⟩
      · exact fun _ => not_sentence_of_finish_error hd hfinish
      · rw [← htokens]
        exact Draft.fault_eq_of_finish_error hnop hfinish

/-- The line behind some lexemes is that of the last one. -/
theorem lineBehind_eq (line : Nat) (ls : List Lexeme) :
    lineBehind line ls = ls.getLast?.elim line (·.line) := by
  induction ls generalizing line with
  | nil => rfl
  | cons l ls ih =>
      rw [lineBehind, ih, List.getLast?_cons]
      cases ls.getLast? <;> rfl

/-- A fault is reported on the line of the token behind it, or else of the last
token. -/
theorem Stops.currentLine (h : Stops d (lineBehind 1 used) rest fault c) :
    c.currentLine =
      (c.rest.head?.or (used ++ rest).getLast?).elim 1 (·.line) := by
  cases h with
  | refuse => rfl
  | @overflow l rest hpush =>
      cases rest with
      | nil => simp [Cursor.currentLine]
      | cons l' rest => rfl
  | breakOff =>
      rw [List.append_nil]
      exact lineBehind_eq 1 used

end Place

/-- The table names no action and no `loop` as missing, and a closing brace at
the end only. -/
theorem faultAfter_ne (before : List Token) (next : Option Token) :
    faultAfter before next ≠ .missing "an action" ∧
      faultAfter before next ≠ .missing "'loop'" ∧
      (faultAfter before next = .missing "'\x7d'" → next = none) := by
  rw [faultAfter, faultBetween.eq_def]
  split <;> simp

/-- The faults that are never reported. -/
theorem FirstViolation.fault_ne {taken rest : List Lexeme}
    {fault : SyntaxFault} (h : FirstViolation taken rest fault) :
    fault ≠ .missing "an action" ∧ fault ≠ .missing "'loop'" ∧
      (fault = .missing "'\x7d'" → rest = []) := by
  by_cases hdeep : fault = .tooDeep maxDepth
  · simp [hdeep]
  · obtain ⟨haction, hloop, hclose⟩ :=
      faultAfter_ne (tokensOf taken) (tokensOf rest).head?
    rw [← h.fault_eq hdeep] at haction hloop hclose
    refine ⟨haction, hloop, fun heq => ?_⟩
    simpa [tokensOf] using hclose heq

/-- A reading that fails does so at the first violation. -/
theorem firstViolation_of_program {ls : List Lexeme} {e : SyntaxError}
    {c : Cursor} (h : program { rest := ls } = .error e c) :
    ∃ taken, ls = taken ++ c.rest ∧ FirstViolation taken c.rest e.fault ∧
      e.context = c.context ∧
      e.line = (c.rest.head?.or ls.getLast?).elim 1 (·.line) := by
  have hreads := program_reads ls
  rw [h] at hreads
  obtain ⟨used, rest, d, rfl, hextend, hstops, he⟩ := hreads.stops_of_error
  obtain ⟨taken, htaken, hviolation⟩ := hstops.firstViolation hextend
  refine ⟨taken, htaken, hviolation, ?_, ?_⟩
  · rw [he]
    rfl
  · rw [← hstops.currentLine, he]
    rfl

/-- **Errors point at the first violation.**  Let `k` be the number of lexemes
taken when a reading fails.

* The first `k` tokens can be completed to a script of the grammar without a
  limit on nesting.
* The fault is that blocks are nested too deep exactly if token number `k` is
  the brace that opens the first block beyond the limit.
* Otherwise the first `k + 1` tokens cannot be completed, or there are only `k`
  and they are not a script; and the fault is told by token number `k`, the
  token behind it and the blocks that are open.
* The error shows the next few tokens, and the line of the next token or, at
  the end, of the last one. -/
theorem error_at_first_violation (ls : List Lexeme) (e : SyntaxError)
    (c : Cursor) (h : program { rest := ls } = .error e c) :
    ∃ k, k = ls.length - c.rest.length ∧ c.rest = ls.drop k ∧
      Viable ((tokensOf ls).take k) ∧
      (e.fault = .tooDeep maxDepth ↔
        ((tokensOf ls).take k).getLast? = some .openBrace ∧
          openBlocks ((tokensOf ls).take k) = maxDepth + 1 ∧
          ∀ j < k, openBlocks ((tokensOf ls).take j) < maxDepth + 1) ∧
      (e.fault ≠ .tooDeep maxDepth →
        (k < ls.length ∧ ¬Viable ((tokensOf ls).take (k + 1)) ∨
          k = ls.length ∧ ¬Sentence (tokensOf ls)) ∧
        e.fault = faultAfter ((tokensOf ls).take k) (tokensOf ls)[k]?) ∧
      (e.fault ≠ .missing "an action" ∧ e.fault ≠ .missing "'loop'" ∧
        (e.fault = .missing "'\x7d'" → c.rest = [])) ∧
      e.context = " ".intercalate
        ((((tokensOf ls).drop k).take contextLength).map Token.text) ∧
      e.line = (ls[k]?.or ls.getLast?).elim 1 (·.line) := by
  obtain ⟨taken, hsplit, hviolation, hcontext, hline⟩ :=
    firstViolation_of_program h
  have hlength : (tokensOf taken).length = taken.length := List.length_map _
  have hts : tokensOf ls = tokensOf taken ++ tokensOf c.rest := by
    rw [hsplit, tokensOf_append]
  have htake : (tokensOf ls).take taken.length = tokensOf taken := by
    rw [hts, ← hlength, List.take_left]
  have hdrop : (tokensOf ls).drop taken.length = tokensOf c.rest := by
    rw [hts, ← hlength, List.drop_left]
  have hnext : ls[taken.length]? = c.rest.head? := by
    rw [hsplit, List.getElem?_append_right (Nat.le_refl _), Nat.sub_self,
      List.head?_eq_getElem?]
  have hnext' : (tokensOf ls)[taken.length]? = (tokensOf c.rest).head? := by
    rw [tokensOf, List.getElem?_map, hnext, tokensOf, List.head?_map]
  refine ⟨taken.length, ?_, ?_, ?_, ?_, ?_, hviolation.fault_ne, ?_, ?_⟩
  · rw [hsplit, List.length_append]
    omega
  · rw [hsplit, List.drop_left]
  · rw [htake]
    exact hviolation.viable
  · have hbefore : ∀ j < taken.length,
        (tokensOf ls).take j = (tokensOf taken).take j := by
      intro j hj
      rw [hts, List.take_append_of_le_length (by omega)]
    rw [htake, hviolation.tooDeep_iff]
    simp +contextual only [hbefore]
  · intro hne
    refine ⟨?_, by rw [htake, hnext', hviolation.fault_eq hne]⟩
    cases hrest : c.rest with
    | nil =>
        right
        rw [hrest, List.append_nil] at hsplit
        refine ⟨by rw [hsplit], ?_⟩
        rw [hsplit]
        exact hviolation.not_sentence hne hrest
    | cons l rest =>
        left
        rw [hrest, tokensOf_cons] at hts
        refine ⟨?_, ?_⟩
        · rw [hsplit, hrest, List.length_append, List.length_cons]
          omega
        · rw [hts, ← hlength, List.take_length_add_append]
          exact hviolation.not_viable hne l rest hrest
  · rw [hcontext, hdrop, Cursor.context, tokensOf, ← List.map_take,
      List.map_map]
    rfl
  · rw [hline, hnext]

/-- The block of the inner loop is empty: its brace is the first violation. -/
theorem error_at_first_violation_empty_block :
    program { rest := [⟨.loop, 1⟩, ⟨.openBrace, 1⟩, ⟨.loop, 2⟩,
        ⟨.openBrace, 2⟩, ⟨.closeBrace, 3⟩, ⟨.closeBrace, 4⟩] } =
      .error ⟨.emptyBlock, "\x7d \x7d", 3⟩
        ⟨[⟨.closeBrace, 3⟩, ⟨.closeBrace, 4⟩], 2, 2⟩ ∧
    Viable [.loop, .openBrace, .loop, .openBrace] ∧
    ¬Viable [.loop, .openBrace, .loop, .openBrace, .closeBrace] := by
  have h : program { rest := [⟨.loop, 1⟩, ⟨.openBrace, 1⟩, ⟨.loop, 2⟩,
        ⟨.openBrace, 2⟩, ⟨.closeBrace, 3⟩, ⟨.closeBrace, 4⟩] } =
      .error ⟨.emptyBlock, "\x7d \x7d", 3⟩
        ⟨[⟨.closeBrace, 3⟩, ⟨.closeBrace, 4⟩], 2, 2⟩ := by cbv
  obtain ⟨k, hk, _, hviable, _, hviolation, _⟩ :=
    error_at_first_violation _ _ _ h
  obtain rfl : k = 4 := hk
  obtain ⟨⟨_, hnot⟩ | ⟨habsurd, _⟩, _⟩ := hviolation (by simp)
  · exact ⟨h, hviable, hnot⟩
  · cases habsurd

end RobotScript
