import RobotScript.Program.Render
import RobotScript.Proofs.Acceptance

/-!
# Canonical text, read back

The canonical text of a tree is split into the tokens of the tree: each line
ends in a mark, so no word runs into the next line, and the blanks in front of
the lines write nothing.  What becomes of the text is then a matter of the
tokens alone.  A `nop` leaves none, so the program that comes back has lost its
`nop`s, and a block of `nop`s comes back as an empty one, which is a fault.

## Main results

* `Program.writes_render` — the text of a program writes its tokens.
* `parse_render` — which programs can be read back from their text, as what,
  and what is wrong with the others.
-/

namespace RobotScript

/-! ## Lines -/

/-- A line is a text behind blanks. -/
theorem writes_indent {text : String} {ts : List Token} (depth : Nat)
    (h : Writes text ts) : Writes (indent depth ++ text) ts := by
  have hblanks : Writes (indent depth) [] := by
    refine Writes.blanks (List.all_eq_true.2 fun c hc => ?_)
    rw [indent, String.toList_ofList] at hc
    rw [List.eq_of_mem_replicate hc]
    decide
  exact hblanks.append h

/-- An action is its keyword and the semicolon. -/
theorem writes_action (a : Action) :
    Writes a.text [.action a, .semicolon] := by
  have hmark : Writes ";" [.semicolon] := Writes.mark ';' rfl
  have hkeyword : Token.ofKeyword? a.keyword = some (.action a) := by
    cases a <;> decide
  have hhead : ";".toList = [';'] := by decide
  exact Writes.keyword a.keyword hkeyword hhead (by decide) (by decide) hmark

/-- The first line of a loop. -/
theorem writes_loop : Writes "loop \x7b" [.loop, .openBrace] := by
  have hblank : Writes " " [] := Writes.blanks (by decide)
  have hmark : Writes "\x7b" [.openBrace] := Writes.mark '{' rfl
  have hhead : (" " ++ "\x7b").toList = [' ', '{'] := by decide
  have hline : "loop \x7b" = "loop" ++ (" " ++ "\x7b") := by decide
  rw [hline]
  exact Writes.keyword "loop" rfl hhead (by decide) (by decide)
    (hblank.append hmark)

/-- The last line of a loop. -/
theorem writes_closeBrace : Writes "\x7d" [.closeBrace] :=
  Writes.mark '}' rfl

namespace Statement

theorem lines_loop (first : Statement) (rest : List Statement) (depth : Nat) :
    (Statement.loop first rest).lines depth =
      [indent depth ++ "loop \x7b"] ++ linesList (depth + 1) (first :: rest) ++
        [indent depth ++ "\x7d"] := rfl

/-- A line by itself writes what it writes among others. -/
theorem writes_line {text : String} {ts : List Token} (depth : Nat)
    (h : Writes text ts) :
    Writes ("\n".intercalate [indent depth ++ text]) ts := by
  rw [String.intercalate_singleton]
  exact writes_indent depth h

mutual

/-- The lines of a statement write its tokens, however deep it lies. -/
theorem writes_lines : (s : Statement) → (depth : Nat) →
    Writes ("\n".intercalate (s.lines depth)) s.tokens
  | .action a, depth => writes_line depth (writes_action a)
  | .loop first rest, depth => by
      have hopen := writes_line depth writes_loop
      have hbody := writes_linesList (first :: rest) (depth + 1)
      have hclose := writes_line depth writes_closeBrace
      rw [lines_loop, tokens_loop]
      exact (hopen.intercalate_append hbody).intercalate_append hclose
  | .nop, _ => Writes.intercalate_nil

/-- The lines of statements write their tokens. -/
theorem writes_linesList : (ss : List Statement) → (depth : Nat) →
    Writes ("\n".intercalate (linesList depth ss)) (tokensList ss)
  | [], _ => Writes.intercalate_nil
  | s :: rest, depth =>
      (writes_lines s depth).intercalate_append (writes_linesList rest depth)

end

end Statement

/-- **The text of a program** writes its tokens. -/
theorem Program.writes_render (p : Program) : Writes p.render p.tokens :=
  Statement.writes_linesList p.statements 0

/-! ## Reading back -/

/-- **Reading the text of a program back**, whatever the program.

* It succeeds exactly if every block has a statement other than `nop` and no
  statement lies in more loops than may be nested, and gives the program
  without its `nop`s.
* Otherwise it fails, with an empty block or with too many nested blocks.
* So it gives the program itself exactly if that has no `nop` and keeps to the
  limit, and every program that has been read is one of those. -/
theorem parse_render (p : Program) :
    (∀ q, Program.parse p.render = .ok q ↔
      p.filled = true ∧ p.nesting ≤ maxDepth ∧ q = p.strip) ∧
    (¬(p.filled = true ∧ p.nesting ≤ maxDepth) →
      ∃ e, Program.parse p.render = .error e ∧
        (e.fault = .emptyBlock ∨ e.fault = .tooDeep maxDepth)) ∧
    (Program.parse p.render = .ok p ↔
      p.nopFree = true ∧ p.nesting ≤ maxDepth) ∧
    (∀ source, Program.parse source = .ok p →
      Program.parse p.render = .ok p) := by
  have htokens := p.writes_render.tokensOf_split
  have hself : Program.parse p.render = .ok p ↔
      p.nopFree = true ∧ p.nesting ≤ maxDepth := by
    rw [parse_eq_ok_iff, htokens]
    exact and_iff_right rfl
  have hverdict := Draft.verdict_tokens maxDepth p
  rw [← htokens] at hverdict
  refine ⟨?_, ?_, hself, ?_⟩
  · intro q
    rw [parse_eq_ok_iff_verdict, ← and_assoc]
    rcases hverdict with ⟨hfits, hok⟩ | ⟨hfits, herror⟩
    · rw [hok, and_iff_right hfits, Except.ok.injEq, eq_comm]
    · refine iff_of_false ?_ (fun h => hfits h.1)
      rcases herror with herror | herror
      · rw [herror]
        nofun
      · rw [herror]
        nofun
  · intro hnot
    rcases hverdict with ⟨hfits, _⟩ | ⟨_, herror | herror⟩
    · exact absurd hfits hnot
    · obtain ⟨e, he, hfault⟩ := parse_error_of_verdict herror
      exact ⟨e, he, .inl hfault⟩
    · obtain ⟨e, he, hfault⟩ := parse_error_of_verdict herror
      exact ⟨e, he, .inr hfault⟩
  · intro source hsource
    exact hself.2 (parse_eq_ok_iff.1 hsource).2

end RobotScript
