import RobotScript.Proofs.Placement
import RobotScript.Proofs.Verdict

/-!
# Scripts, one behind the other

A text behind a script is read as if it stood alone.  Nothing has to separate
the two: a script ends with a mark or with white space, so the first word of
the text cannot run into the last of the script, whatever the text is.

Two things are to be compared with the text alone.  The lexemes of the text
stand further down, by the line feeds of the script.  And the draft holds the
statements of the script already; that makes no difference to what can come
next, because a token is judged by the innermost open block and the keyword
begun with, and the statements of the script are finished.

## Main results

* `Lexeme.lexemes_append` — a text is split at any place behind a mark or a
  blank.
* `Lexeme.lexemes_lower` — where a text begins only moves its lexemes.
* `Draft.read_behind` — finished statements in front are kept and change
  nothing else.
* `parse_append` — reading a text behind a script.
-/

namespace RobotScript

open Statement (tokensList nopFreeList)

/-! ## Splitting at a seam -/

namespace Lexeme

/-- The lexeme `k` lines further down. -/
def lower (k : Nat) (l : Lexeme) : Lexeme :=
  ⟨l.token, l.line + k⟩

theorem tokensOf_map_lower (k : Nat) (ls : List Lexeme) :
    tokensOf (ls.map (lower k)) = tokensOf ls := by
  simp [tokensOf, lower]

theorem addRun_lower (k : Nat) (run : List Char) (follow : Option Char)
    (line : Nat) (found : List Lexeme) :
    addRun run follow (line + k) (found.map (lower k)) =
      (addRun run follow line found).map (lower k) := by
  cases run with
  | nil => rfl
  | cons c before => rfl

theorem lineAfter_add (c : Char) (line k : Nat) :
    lineAfter c (line + k) = lineAfter c line + k := by
  unfold lineAfter
  split <;> omega

theorem splitFrom_lower (k line : Nat) (run : List Char)
    (found : List Lexeme) (cs : List Char) :
    splitFrom (line + k) run (found.map (lower k)) cs =
      (splitFrom line run found cs).map (lower k) := by
  induction cs generalizing line run found with
  | nil => rw [splitFrom, splitFrom, addRun_lower, List.map_reverse]
  | cons c cs ih =>
      simp only [splitFrom, addRun_lower, lineAfter_add]
      split
      · next mark _ =>
        exact ih line [] (⟨mark, line⟩ :: addRun run (some c) line found)
      · split
        · exact ih (lineAfter c line) [] (addRun run (some c) line found)
        · exact ih line (c :: run) found

/-- A text that begins further down has its lexemes further down. -/
theorem lexemes_lower (k line : Nat) (cs : List Char) :
    lexemes (line + k) cs = (lexemes line cs).map (lower k) :=
  splitFrom_lower k line [] [] cs

/-- The line behind some characters, taken one at a time. -/
theorem add_count_cons (line : Nat) (c : Char) (cs : List Char) :
    line + (c :: cs).count '\n' = lineAfter c line + cs.count '\n' := by
  rw [lineAfter, List.count_cons]
  by_cases hfeed : c = '\n'
  · simp [hfeed]
    omega
  · simp [hfeed]

theorem lineAfter_of_not_blank {c : Char} (h : isBlank c ≠ true)
    (line : Nat) : lineAfter c line = line := by
  apply if_neg
  rintro rfl
  exact h (by decide)

theorem lineAfter_of_mark {c : Char} {mark : Token}
    (h : Token.ofMark? c = some mark) (line : Nat) :
    lineAfter c line = line := by
  apply lineAfter_of_not_blank
  intro hblank
  rw [ofMark?_of_isBlank hblank] at h
  cases h

/-- Behind a character that belongs to no run, nothing is carried on. -/
theorem splitFrom_append {c : Char} (hc : isRunChar c = false) (line : Nat)
    (run : List Char) (found : List Lexeme) (cs rest : List Char) :
    splitFrom line run found (cs ++ c :: rest) =
      splitFrom line run found (cs ++ [c]) ++
        lexemes (line + (cs ++ [c]).count '\n') rest := by
  induction cs generalizing line run found with
  | nil =>
      rw [List.nil_append, List.nil_append, add_count_cons, List.count_nil,
        Nat.add_zero]
      simp only [splitFrom]
      split
      · next mark hmark =>
        rw [lineAfter_of_mark hmark, splitFrom_found line [] _ rest]
        rfl
      · next hmark =>
        have hblank : isBlank c = true := by
          simpa [isRunChar, hmark] using hc
        rw [if_pos hblank, if_pos hblank, splitFrom_found _ [] _ rest]
        rfl
  | cons d cs ih =>
      rw [List.cons_append, List.cons_append, add_count_cons]
      simp only [splitFrom]
      split
      · next mark hmark =>
        rw [lineAfter_of_mark hmark]
        exact ih line [] _
      · split
        · exact ih (lineAfter d line) [] _
        · next hblank =>
          rw [lineAfter_of_not_blank hblank]
          exact ih line (d :: run) found

/-- **A text is split at a seam**: what stands behind a mark or a blank is split
as if it stood alone, on the line where it begins. -/
theorem lexemes_append {before : List Char}
    (hlast : ∀ c ∈ before.getLast?, isRunChar c = false) (line : Nat)
    (rest : List Char) :
    lexemes line (before ++ rest) =
      lexemes line before ++ lexemes (line + before.count '\n') rest := by
  rcases List.eq_nil_or_concat before with rfl | ⟨cs, c, rfl⟩
  · rfl
  · rw [List.concat_eq_append] at hlast ⊢
    rw [List.append_assoc]
    exact splitFrom_append (hlast c List.getLast?_concat) line [] [] cs rest

/-- A text that ends within a run ends with a whole run. -/
theorem exists_append_run {cs : List Char} {c : Char}
    (hlast : cs.getLast? = some c) (hc : isRunChar c = true) :
    ∃ before run, cs = before ++ run ∧ run ≠ [] ∧
      (∀ d ∈ run, isRunChar d = true) ∧
      ∀ d ∈ before.getLast?, isRunChar d = false := by
  obtain ⟨cs, rfl⟩ := List.getLast?_eq_some_iff.1 hlast
  obtain ⟨run, after, heq, hne, hrun, hafter⟩ :=
    exists_run_append hc cs.reverse
  refine ⟨after.reverse, run.reverse, ?_, by simpa using hne, ?_, ?_⟩
  · rw [← List.reverse_append, ← heq, List.reverse_cons, List.reverse_reverse]
  · intro d hd
    exact hrun d (List.mem_reverse.1 hd)
  · rw [List.getLast?_reverse]
    exact hafter

/-- A text that ends within a run has that run for its last token. -/
theorem exists_getLast?_tokensOf {cs : List Char} {c : Char}
    (hlast : cs.getLast? = some c) (hc : isRunChar c = true) (line : Nat) :
    ∃ t, (tokensOf (lexemes line cs)).getLast? = some t ∧
      ∀ d ∈ t.text.toList, isRunChar d = true := by
  obtain ⟨before, run, rfl, hne, hrun, hbefore⟩ := exists_append_run hlast hc
  have hlexemes : lexemes (line + before.count '\n') (run ++ []) =
      [⟨Token.ofRun run none, line + before.count '\n'⟩] :=
    lexemes_run _ hne hrun nofun
  rw [List.append_nil] at hlexemes
  refine ⟨Token.ofRun run none, ?_, ?_⟩
  · rw [lexemes_append hbefore, hlexemes, tokensOf_append]
    exact List.getLast?_concat
  · rw [Token.text_ofRun, String.toList_ofList]
    exact hrun

end Lexeme

open Lexeme

/-- A program without a `nop` ends with a semicolon or a brace, if it has a
statement. -/
theorem getLast?_tokensList_of_nopFree {ss : List Statement} {t : Token}
    (h : nopFreeList ss = true) (hlast : (tokensList ss).getLast? = some t) :
    t = .semicolon ∨ t = .closeBrace := by
  rcases List.eq_nil_or_concat ss with rfl | ⟨ss, s, rfl⟩
  · cases hlast
  · rw [List.concat_eq_append, Statement.nopFreeList_append,
      Bool.and_eq_true] at h
    have hs : s.nopFree = true := by simpa [nopFreeList] using h.2
    have hone : tokensList [s] = s.tokens := List.append_nil _
    rw [List.concat_eq_append, Statement.tokensList_append, hone,
      List.getLast?_append] at hlast
    rcases getLast?_tokens_of_nopFree hs with heq | heq
    · rw [heq] at hlast
      exact .inl (Option.some.inj hlast).symm
    · rw [heq] at hlast
      exact .inr (Option.some.inj hlast).symm

/-- A script ends with a mark or a blank. -/
theorem not_runChar_of_parse {source : String} {p : Program}
    (h : Program.parse source = .ok p) :
    ∀ c ∈ source.toList.getLast?, isRunChar c = false := by
  obtain ⟨htokens, hnop, _⟩ := parse_eq_ok_iff.1 h
  intro c hlast
  apply eq_false_of_ne_true
  intro hc
  obtain ⟨t, ht, hrun⟩ := exists_getLast?_tokensOf hlast hc 1
  rw [← split_eq, htokens] at ht
  rcases getLast?_tokensList_of_nopFree hnop ht with rfl | rfl
  · exact absurd (hrun ';' (by decide)) (by decide)
  · exact absurd (hrun '}' (by decide)) (by decide)

/-- The lexemes of a text behind a script. -/
theorem split_append {source : String} {p : Program}
    (h : Program.parse source = .ok p) (text : String) :
    split (source ++ text) =
      split source ++ (split text).map (lower (source.toList.count '\n')) := by
  rw [split_eq, split_eq, split_eq, String.toList_append,
    lexemes_append (not_runChar_of_parse h), lexemes_lower]

/-! ## Drafts behind finished statements -/

namespace Draft

/-- The sequences around a block with finished statements in front of the
outermost one.  As in a draft, the last statement comes first. -/
def under (before around : List Statement) :
    List (List Statement) → List (List Statement)
  | [] => [around ++ before.reverse]
  | next :: outer => around :: under before next outer

/-- The draft with finished statements in front of it. -/
def behind (before : List Statement) (d : Draft) : Draft :=
  match d.outer with
  | [] => { d with done := d.done ++ before.reverse }
  | around :: outer => { d with outer := under before around outer }

theorem depth_behind (before : List Statement) (d : Draft) :
    (d.behind before).depth = d.depth := by
  obtain ⟨outer, done, begun⟩ := d
  cases outer with
  | nil => rfl
  | cons around outer =>
      show (under before around outer).length = outer.length + 1
      induction outer generalizing around with
      | nil => rfl
      | cons next outer ih => exact congrArg Nat.succ (ih next)

theorem push_openBrace (limit : Nat) {d : Draft} (h : d.begun = .loop) :
    d.push limit .openBrace =
      if limit ≤ d.depth then
        .error (.tooDeep limit)
      else
        .ok ⟨d.done :: d.outer, [], .nothing⟩ := by
  simp only [push, h]

/-- **A token behind finished statements** is taken, or not, as without
them. -/
theorem push_behind (limit : Nat) (before : List Statement) (d : Draft)
    (t : Token) :
    (d.behind before).push limit t = (d.push limit t).map (behind before) := by
  have hdepth := depth_behind before d
  obtain ⟨outer, done, begun⟩ := d
  cases begun with
  | nothing =>
      cases t with
      | closeBrace =>
          match outer with
          | [] => rfl
          | [around] =>
              show push limit ⟨[around ++ before.reverse], done, .nothing⟩
                .closeBrace = _
              cases hdone : done.reverse <;> simp [push, hdone] <;> rfl
          | around :: next :: outer =>
              show push limit ⟨around :: under before next outer, done,
                .nothing⟩ .closeBrace = _
              cases hdone : done.reverse <;> simp [push, hdone] <;> rfl
      | _ => cases outer <;> rfl
  | action a => cases t <;> cases outer <;> rfl
  | loop =>
      cases t with
      | openBrace =>
          have hbegun : (behind before ⟨outer, done, .loop⟩).begun = .loop := by
            cases outer <;> rfl
          rw [push_openBrace limit hbegun, push_openBrace limit rfl, hdepth]
          by_cases hlimit : limit ≤ depth ⟨outer, done, .loop⟩
          · rw [if_pos hlimit, if_pos hlimit]
            rfl
          · rw [if_neg hlimit, if_neg hlimit]
            cases outer <;> rfl
      | _ => cases outer <;> rfl

theorem finish_behind (before : List Statement) (d : Draft) :
    (d.behind before).finish =
      d.finish.map fun p => ⟨before ++ p.statements⟩ := by
  obtain ⟨outer, done, begun⟩ := d
  cases begun with
  | nothing =>
      match outer with
      | [] => simp [behind, finish, Except.map]
      | [around] => rfl
      | around :: next :: outer => rfl
  | action a => cases outer <;> rfl
  | loop => cases outer <;> rfl

/-- **Reading behind finished statements.**  They are part of the program, and
what is wrong is so without them. -/
theorem read_behind (limit : Nat) (before : List Statement) (d : Draft)
    (ts : List Token) :
    (d.behind before).read limit ts =
      (d.read limit ts).map fun p => ⟨before ++ p.statements⟩ := by
  induction ts generalizing d with
  | nil =>
      simp only [read, finish_behind]
      cases d.finish with
      | ok p => rfl
      | error fault => rfl
  | cons t ts ih =>
      simp only [read, push_behind]
      cases d.push limit t with
      | ok d' => exact ih d'
      | error fault => rfl

theorem behind_blank (p : Program) :
    blank.behind p.statements = ofProgram p := rfl

end Draft

/-! ## Reading a text behind a script -/

/-- An error in a text that stands further down. -/
theorem errorAt_lower (before : List Lexeme) {ls : List Lexeme}
    (hne : ls ≠ []) (k : Nat) (fault : SyntaxFault) {left : Nat}
    (hleft : left ≤ ls.length) :
    errorAt (before ++ ls.map (lower k)) fault left =
      { errorAt ls fault left with
        line := (errorAt ls fault left).line + k } := by
  have hplace : (before ++ ls.map (lower k)).length - left =
      before.length + (ls.length - left) := by
    rw [List.length_append, List.length_map]
    omega
  have hdrop : (before ++ ls.map (lower k)).drop
      (before.length + (ls.length - left)) =
        (ls.drop (ls.length - left)).map (lower k) := by
    rw [← List.drop_drop, List.drop_left, List.map_drop]
  obtain ⟨l, hl⟩ : ∃ l, ls.getLast? = some l :=
    Option.ne_none_iff_exists'.1 (by simpa using hne)
  have hlast : (before ++ ls.map (lower k)).getLast? = some (lower k l) := by
    rw [List.getLast?_append, List.getLast?_map, hl]
    rfl
  simp only [errorAt, hplace, hdrop, hlast, hl]
  generalize ls.drop (ls.length - left) = rest
  cases rest with
  | nil => rfl
  | cons next rest => simp [lower, Function.comp_def]

/-- **A text behind a script** is read as if it stood alone, whatever it is and
without anything between the two.  If it is a script, the two make up one, with
the statements of both.  If it is not, the error is the one of the text alone,
as many lines further down as the script has line feeds. -/
theorem parse_append (source text : String) {p : Program}
    (h : Program.parse source = .ok p) :
    Program.parse (source ++ text) =
      match Program.parse text with
      | .ok q => .ok ⟨p.statements ++ q.statements⟩
      | .error e =>
        .error { e with line := e.line + source.toList.count '\n' } := by
  obtain ⟨htokens, hnop, hnesting⟩ := parse_eq_ok_iff.1 h
  have hread : Draft.blank.read maxDepth
      (tokensOf (split source) ++ tokensOf (split text)) =
        (Draft.blank.read maxDepth (tokensOf (split text))).map
          fun q => ⟨p.statements ++ q.statements⟩ := by
    rw [htokens, Draft.read_append (Draft.extend_of_nopFree hnop hnesting),
      ← Draft.behind_blank, Draft.read_behind]
  rw [parse_eq_read, parse_eq_read text, split_append h, tokensOf_append,
    tokensOf_map_lower, hread]
  cases htext : Draft.blank.read maxDepth (tokensOf (split text)) with
  | ok q => rfl
  | error stop =>
      obtain ⟨fault, left⟩ := stop
      have hleft : left ≤ (split text).length := by
        simpa [tokensOf] using Draft.left_le_length htext
      have hne : split text ≠ [] := by
        intro hnil
        rw [hnil] at htext
        cases htext
      show Except.error (errorAt _ fault left) = _
      rw [errorAt_lower (split source) hne _ fault hleft]

/-- A keyword directly behind a brace, without its semicolon: the error is on
the third line, at the end of the text. -/
theorem parse_append_unfinished :
    let source := "wait;\nloop \x7b\n move;\x7d"
    let p : Program := ⟨[.action .wait, .loop (.action .move) []]⟩
    Program.parse source = .ok p ∧
      Program.parse "turnL" = .error ⟨.missing "';'", "", 1⟩ ∧
      Program.parse (source ++ "turnL") =
        .error ⟨.missing "';'", "", 3⟩ := by
  intro source p
  have hsource : Program.parse source = .ok p :=
    parse_eq_ok_iff.2 (by decide)
  have htext : Program.parse "turnL" = .error ⟨.missing "';'", "", 1⟩ := by
    rw [parse_eq_read]
    rfl
  have hfeeds : source.toList.count '\n' = 2 := by decide
  have happend := parse_append source "turnL" hsource
  rw [htext, hfeeds] at happend
  exact ⟨hsource, htext, happend⟩

end RobotScript
