import RobotScript.Proofs.Placement
import RobotScript.Proofs.Verdict

/-!
# Layout does not matter

Two texts with the same tokens are the same script, wherever their blanks and
line feeds are.  They are read as the same program, or not read for the same
reason at the same token.  What can differ is the line the error is reported on,
which is 1 more than the number of line feeds in front of that token.

That the tokens decide what is wrong and how many tokens are left is known from
`Draft.read`.  Here the place is found again in the text.  `InFront` is the part
of a text in front of a token: it ends where the token begins, and without white
space it is what the earlier tokens write.  There is exactly one such part, so
counting its line feeds gives exactly one number.

## Main results

* `Placed.exists_passed` — what is in front of a token that stands in a text.
* `InFront.unique` — there is one part in front of a token.
* `program_eq_error_of_read` — where a reading fails is decided by the tokens.
* `foundAt_of_read` — the line of an error, counted in the text.
* `parse_of_same_tokens` — texts with the same tokens are read alike.
-/

namespace RobotScript

open Reading
open Lexeme (split)

/-! ## In front of a token -/

/-- Whether `before` is the part of a text in front of the token with the number
`i`, counted from 0. -/
structure InFront (source : String) (i : Nat) (before : List Char) : Prop where
  /-- The token begins where the part ends. -/
  begins : ∃ l after, (split source)[i]? = some l ∧
    source.toList = before ++ (l.token.text.toList ++ after)
  /-- Without white space, the part is what the tokens before it write. -/
  written : before.filter (!isBlank ·) =
    ((split source).take i).flatMap (·.token.text.toList)

/-- In front of a token that stands in a text are the tokens before it, and
white space. -/
theorem Placed.exists_passed {before rest : List Char} {ls : List Lexeme}
    {i : Nat} {l : Lexeme} (h : Placed before ls rest)
    (hl : ls[i]? = some l) :
    ∃ passed after, rest = passed ++ (l.token.text.toList ++ after) ∧
      passed.filter (!isBlank ·) =
        (ls.take i).flatMap (·.token.text.toList) ∧
      Stands (before ++ passed) l after := by
  induction ls generalizing before rest i with
  | nil => cases hl
  | cons first ls ih =>
      obtain ⟨gap, after, rfl, hgap, hstands, hplaced⟩ := h
      have hblanks : gap.filter (!isBlank ·) = [] := by simpa using hgap
      cases i with
      | zero =>
          cases hl
          exact ⟨gap, after, rfl, hblanks, hstands⟩
      | succ i =>
          obtain ⟨passed, after, rfl, hpassed, hlast⟩ := ih hplaced hl
          have hsolid : first.token.text.toList.filter (!isBlank ·) =
              first.token.text.toList := by simpa using hstands.solid
          refine ⟨gap ++ (first.token.text.toList ++ passed), after, ?_, ?_, ?_⟩
          · simp only [List.append_assoc]
          · rw [List.filter_append, List.filter_append, hblanks, hsolid,
              hpassed, List.nil_append, List.take_succ_cons, List.flatMap_cons]
          · simpa only [List.append_assoc] using hlast

/-- In front of every token is a part of the text, and the line feeds in it tell
the line of the token. -/
theorem exists_inFront {source : String} {i : Nat} {l : Lexeme}
    (hl : (split source)[i]? = some l) :
    ∃ before after, InFront source i before ∧ Stands before l after := by
  have hplaced : Placed [] (split source) source.toList :=
    placedFrom_of_edge [] source.toList nofun
  obtain ⟨before, after, htext, hwritten, hstands⟩ :=
    hplaced.exists_passed hl
  exact ⟨before, after, ⟨⟨l, after, hl, htext⟩, hwritten⟩, hstands⟩

/-- Two parts of one text are the same if each ends before a character that is
kept and as much is kept of both. -/
theorem eq_of_filter_eq {keep : Char → Bool} {as bs cs ds : List Char}
    {c d : Char} (hc : keep c = true) (hd : keep d = true)
    (htext : as ++ c :: cs = bs ++ d :: ds)
    (hkept : as.filter keep = bs.filter keep) : as = bs := by
  induction as generalizing bs with
  | nil =>
      cases bs with
      | nil => rfl
      | cons b bs =>
          cases htext
          rw [List.filter_cons_of_pos hc] at hkept
          cases hkept
  | cons a as ih =>
      cases bs with
      | nil =>
          cases htext
          rw [List.filter_cons_of_pos hd] at hkept
          cases hkept
      | cons b bs =>
          obtain ⟨rfl, htail⟩ := List.cons.inj htext
          have hrest : as.filter keep = bs.filter keep := by
            cases ha : keep a with
            | true => simpa [ha] using hkept
            | false => simpa [ha] using hkept
          rw [ih htail hrest]

/-- **In front of a token** there is one part of the text only. -/
theorem InFront.unique {source : String} {i : Nat} {before before' : List Char}
    (h : InFront source i before) (h' : InFront source i before') :
    before = before' := by
  obtain ⟨l, after, hl, htext⟩ := h.begins
  obtain ⟨l', after', hl', htext'⟩ := h'.begins
  obtain rfl : l = l' := Option.some.inj (hl.symm.trans hl')
  -- The token begins with a character that is not white space.
  obtain ⟨_, _, _, hstands⟩ := exists_inFront hl
  obtain ⟨c, cs, hcs⟩ : ∃ c cs, l.token.text.toList = c :: cs :=
    List.exists_cons_of_ne_nil (by simpa using hstands.text_ne)
  have hc : (!isBlank c) = true := by
    rw [hstands.solid c (by rw [hcs]; exact List.mem_cons_self)]
    rfl
  rw [hcs] at htext htext'
  exact eq_of_filter_eq hc hc (htext.symm.trans htext')
    (h.written.trans h'.written.symm)

/-! ## Where reading stops -/

/-- Where the tokens tell that a reading fails, it leaves the cursor so that as
many tokens are left as they tell. -/
theorem program_eq_error_of_read {ls : List Lexeme} {fault : SyntaxFault}
    {left : Nat}
    (h : Draft.blank.read maxDepth (tokensOf ls) = .error (fault, left)) :
    ∃ c, program { rest := ls } = .error (errorAt ls fault left) c ∧
      c.rest = ls.drop (ls.length - left) := by
  have hreads := program_reads ls
  cases hprogram : program { rest := ls } with
  | ok p c =>
      have hread := program_eq_read ls
      rw [hprogram, h] at hread
      cases hread
  | error e c =>
      rw [hprogram] at hreads
      obtain ⟨used, rest, d, rfl, hextend, hstops, he⟩ := hreads.stops_of_error
      rw [tokensOf_append, Draft.read_append hextend, hstops.read] at h
      obtain ⟨taken, htaken, _⟩ := hstops.firstViolation hextend
      cases h
      refine ⟨c, ?_, ?_⟩
      · exact congrArg (EStateM.Result.error · c) (he.trans hstops.error_eq)
      · rw [htaken, List.length_append, Nat.add_sub_cancel, List.drop_left]

/-- The tokens that an error shows do not depend on lines. -/
theorem context_errorAt (ls : List Lexeme) (fault : SyntaxFault) (left : Nat) :
    (errorAt ls fault left).context =
      " ".intercalate ((((tokensOf ls).drop
        ((tokensOf ls).length - left)).take contextLength).map (·.text)) := by
  simp only [errorAt, tokensOf, List.length_map, ← List.map_drop,
    ← List.map_take, List.map_map]
  rfl

/-- The element at a place, or the last one if the place is behind it. -/
theorem head?_drop_or_getLast? {α : Type} (xs : List α) (k : Nat) :
    (xs.drop k).head?.or xs.getLast? = xs[min k (xs.length - 1)]? := by
  rw [List.head?_drop, List.getLast?_eq_getElem?]
  by_cases hk : k < xs.length
  · rw [Nat.min_eq_left (by omega), List.getElem?_eq_getElem hk]
    rfl
  · rw [Nat.min_eq_right (by omega), List.getElem?_eq_none (by omega)]
    rfl

/-- An error is reported on the line of the next token, or else of the last
one. -/
theorem line_errorAt (ls : List Lexeme) (fault : SyntaxFault) (left : Nat) :
    (errorAt ls fault left).line =
      ls[min (ls.length - left) (ls.length - 1)]?.elim 1 (·.line) := by
  rw [← head?_drop_or_getLast?]
  rfl

/-- Whether an error is found where reading a text has taken `k` tokens. -/
structure FoundAt (source : String) (k : Nat) (e : SyntaxError) : Prop where
  /-- Reading stops there: the tokens behind the first `k` are left. -/
  stops : ∃ c, program (Cursor.ofSource source) = .error e c ∧
    c.rest = (split source).drop k
  /-- The next token, or else the last one, has its place in the text. -/
  place : ∃ before, InFront source (min k ((split source).length - 1)) before
  /-- The line is 1 more than the line feeds in front of that token. -/
  line : ∀ before, InFront source (min k ((split source).length - 1)) before →
    e.line = 1 + before.count '\n'

/-- **The line of an error**, counted in the text. -/
theorem foundAt_of_read {source : String} {fault : SyntaxFault} {left : Nat}
    (h : Draft.blank.read maxDepth (tokensOf (split source)) =
      .error (fault, left)) :
    FoundAt source ((split source).length - left)
      (errorAt (split source) fault left) := by
  -- Nothing is wrong with a text that has no token.
  have hne : split source ≠ [] := by
    intro hnil
    rw [hnil] at h
    cases h
  have hlt : min ((split source).length - left) ((split source).length - 1) <
      (split source).length := by
    have hpos := List.length_pos_iff.2 hne
    omega
  have hl := List.getElem?_eq_getElem hlt
  obtain ⟨before, after, hbefore, hstands⟩ := exists_inFront hl
  refine ⟨program_eq_error_of_read h, ⟨before, hbefore⟩, ?_⟩
  intro before' hbefore'
  rw [hbefore'.unique hbefore, line_errorAt, hl]
  exact hstands.line

/-- **Layout does not matter.**  Let two texts have the same tokens.  Either
both are read, as the same program, or neither is.  Then what is wrong is the
same and the same tokens are shown, and both errors are found where as many
tokens have been taken: their lines are those of the same token, the next one
or at the end the last one, each counted in its own text. -/
theorem parse_of_same_tokens (source source' : String)
    (h : tokensOf (split source) = tokensOf (split source')) :
    (∃ p, Program.parse source = .ok p ∧ Program.parse source' = .ok p) ∨
    ∃ k e e', Program.parse source = .error e ∧
      Program.parse source' = .error e' ∧
      e'.fault = e.fault ∧ e'.context = e.context ∧
      FoundAt source k e ∧ FoundAt source' k e' := by
  have hparse := parse_eq_read source
  have hparse' := parse_eq_read source'
  rw [← h] at hparse'
  cases hread : Draft.blank.read maxDepth (tokensOf (split source)) with
  | ok p =>
      rw [hread] at hparse hparse'
      exact .inl ⟨p, hparse, hparse'⟩
  | error stop =>
      obtain ⟨fault, left⟩ := stop
      rw [hread] at hparse hparse'
      have hcontext : (errorAt (split source') fault left).context =
          (errorAt (split source) fault left).context := by
        rw [context_errorAt, context_errorAt, h]
      have hlength : (split source').length = (split source).length := by
        simpa [tokensOf] using congrArg List.length h.symm
      have hfound := foundAt_of_read hread
      rw [h] at hread
      have hfound' := foundAt_of_read hread
      rw [hlength] at hfound'
      exact .inr ⟨_, _, _, hparse, hparse', rfl, hcontext, hfound, hfound'⟩

/-- A block on one line and on five, with a semicolon missing before the brace
at its end. -/
theorem parse_of_same_tokens_unended :
    let source := "loop\x7bmove;turnL\x7d"
    let source' := "loop\n\x7b\n\tmove;\u2003\n\n turnL \x7d "
    tokensOf (split source) = tokensOf (split source') ∧
      ∃ k, FoundAt source k ⟨.missing "';'", "\x7d", 1⟩ ∧
        FoundAt source' k ⟨.missing "';'", "\x7d", 5⟩ := by
  intro source source'
  let ts : List Token := [.loop, .openBrace, .action .move, .semicolon,
    .action .turnLeft, .closeBrace]
  have htokens : tokensOf (split source) = ts := by decide
  have htokens' : tokensOf (split source') = ts := by decide
  have hread : Draft.blank.read maxDepth ts = .error (.missing "';'", 1) := rfl
  have hparse : Program.parse source =
      .error (errorAt (split source) (.missing "';'") 1) := by
    rw [parse_eq_read, htokens, hread]
  have hparse' : Program.parse source' =
      .error (errorAt (split source') (.missing "';'") 1) := by
    rw [parse_eq_read, htokens', hread]
  have hsame := htokens.trans htokens'.symm
  refine ⟨hsame, ?_⟩
  rcases parse_of_same_tokens source source' hsame with
    ⟨p, hp, _⟩ | ⟨k, e, e', he, he', _, _, hfound, hfound'⟩
  · rw [hparse] at hp
    cases hp
  · obtain rfl := Except.error.inj (hparse.symm.trans he)
    obtain rfl := Except.error.inj (hparse'.symm.trans he')
    have herror : errorAt (split source) (.missing "';'") 1 =
        ⟨.missing "';'", "\x7d", 1⟩ := by decide
    have herror' : errorAt (split source') (.missing "';'") 1 =
        ⟨.missing "';'", "\x7d", 5⟩ := by decide
    rw [herror] at hfound
    rw [herror'] at hfound'
    exact ⟨k, hfound, hfound'⟩

end RobotScript
