import RobotScript.Proofs.Spelling

/-!
# Where tokens stand

Every text is split into tokens that stand in it, one behind the other and as
they are written, with nothing but white space around them.  So nothing is
lost, doubled or moved, whatever the text is.

`Placed` is the statement in full: it goes through the text together with the
tokens and keeps the part already passed, so that a token is seen between what
is before it and what is behind it.  `Stands` says what holds of a token at its
place: its line, its ends and its kind.

A run ends on its right because splitting takes all characters of its kind.  It
begins on its left because the pass over the text never stops inside a run;
`Edge` is this invariant of the pass.

## Main results

* `stands_mark`, `stands_run` — a token at its place.
* `placedFrom_of_edge` — the tokens of any part of a text that begins at an
  edge.
* `split_placed` — every text is split without loss.
-/

namespace RobotScript

open Lexeme

/-! ## Places -/

/-- Whether no mark occurs in the text of a lexeme. -/
def Lexeme.IsRun (l : Lexeme) : Prop :=
  ∀ c ∈ l.token.text.toList, c ∉ marks

/-- What holds of a lexeme that stands between two parts of a text. -/
structure Stands (before : List Char) (l : Lexeme) (after : List Char) :
    Prop where
  /-- Its line is 1 more than the line feeds before it. -/
  line : l.line = 1 + before.count '\n'
  not_blank : l.token ≠ .blank
  text_ne : l.token.text ≠ ""
  solid : ∀ c ∈ l.token.text.toList, isBlank c = false
  /-- A text with a mark in it is that mark. -/
  mark : ∀ c ∈ l.token.text.toList, c ∈ marks → l.token.text.toList = [c]
  /-- Any other text is a run that goes on neither to the left nor to the
  right. -/
  maximal : l.IsRun →
    (∀ c ∈ before.getLast?, isBlank c = true ∨ c ∈ marks) ∧
      ∀ c ∈ after.head?, isBlank c = true ∨ c ∈ marks
  /-- A run spelled as a keyword is the keyword unless white space outside
  ASCII follows. -/
  keyword : l.IsRun → ∀ t : Token, t.isKeyword = true →
    (l.token = t ↔
      t.text = l.token.text ∧ ∀ c ∈ after.head?, isWideBlank c = false)
  /-- A run is a number exactly if it is a numeral. -/
  number : l.IsRun → ∀ word,
    (l.token = .number word ↔
      word = l.token.text ∧ IsNumeral l.token.text.toList)
  /-- Every other run is an ordinary word. -/
  word : l.IsRun → ∀ word,
    (l.token = .word word ↔
      word = l.token.text ∧ ¬IsNumeral l.token.text.toList ∧
        (word ∈ keywords → ∃ c ∈ after.head?, isWideBlank c = true))

/-- Whether lexemes stand in a text, behind the part `before`: each of them
behind a gap of white space, and only white space behind the last. -/
def Placed (before : List Char) : List Lexeme → List Char → Prop
  | [], rest => ∀ c ∈ rest, isBlank c = true
  | l :: ls, rest =>
    ∃ gap after, rest = gap ++ (l.token.text.toList ++ after) ∧
      (∀ c ∈ gap, isBlank c = true) ∧
      Stands (before ++ gap) l after ∧
      Placed (before ++ gap ++ l.token.text.toList) ls after

/-- A lexeme at the beginning has no gap before it. -/
theorem Placed.cons {before after : List Char} {l : Lexeme}
    {ls : List Lexeme} (hstands : Stands before l after)
    (h : Placed (before ++ l.token.text.toList) ls after) :
    Placed before (l :: ls) (l.token.text.toList ++ after) := by
  refine ⟨[], after, rfl, nofun, ?_, ?_⟩
  · rw [List.append_nil]
    exact hstands
  · rw [List.append_nil]
    exact h

/-- White space in front only widens the first gap. -/
theorem Placed.cons_blank {before : List Char} {c : Char} {ls : List Lexeme}
    {rest : List Char} (hc : isBlank c = true)
    (h : Placed (before ++ [c]) ls rest) : Placed before ls (c :: rest) := by
  cases ls with
  | nil => exact List.forall_mem_cons.2 ⟨hc, h⟩
  | cons l ls =>
      obtain ⟨gap, after, rfl, hgap, hstands, hplaced⟩ := h
      refine ⟨c :: gap, after, rfl, List.forall_mem_cons.2 ⟨hc, hgap⟩, ?_, ?_⟩
      · rw [List.append_assoc] at hstands
        exact hstands
      · rw [List.append_assoc before] at hplaced
        exact hplaced

/-- Without its white space, a text is what its lexemes write. -/
theorem Placed.filter_eq {before rest : List Char} {ls : List Lexeme}
    (h : Placed before ls rest) :
    rest.filter (!isBlank ·) = ls.flatMap (·.token.text.toList) := by
  induction ls generalizing before rest with
  | nil =>
      rw [List.flatMap_nil, List.filter_eq_nil_iff]
      intro c hc
      rw [h c hc]
      decide
  | cons l ls ih =>
      obtain ⟨gap, after, rfl, hgap, hstands, hplaced⟩ := h
      have hblanks : gap.filter (!isBlank ·) = [] := by
        rw [List.filter_eq_nil_iff]
        intro c hc
        rw [hgap c hc]
        decide
      have htext : l.token.text.toList.filter (!isBlank ·) =
          l.token.text.toList := by
        rw [List.filter_eq_self]
        intro c hc
        rw [hstands.solid c hc]
        rfl
      rw [List.filter_append, List.filter_append, hblanks, htext, ih hplaced,
        List.nil_append, List.flatMap_cons]

/-! ## Tokens at their places -/

/-- A mark stands anywhere. -/
theorem stands_mark {c : Char} {t : Token} (h : Token.ofMark? c = some t)
    (before after : List Char) :
    Stands before ⟨t, 1 + before.count '\n'⟩ after := by
  obtain ⟨hmark, htext⟩ := Token.ofMark?_eq_some_iff.1 h
  have hmem := mem_marks_of_ofMark? h
  have hrun : ¬Lexeme.IsRun ⟨t, 1 + before.count '\n'⟩ := by
    intro hrun
    exact hrun c (by rw [htext]; exact List.mem_singleton_self c) hmem
  have hchar : ∀ d ∈ t.text.toList, d = c := by
    rw [htext]
    intro d hd
    exact List.mem_singleton.1 hd
  exact
    { line := rfl
      not_blank := by
        intro heq
        cases heq
        cases hmark
      text_ne := by
        intro hempty
        rw [hempty] at htext
        cases htext
      solid := by
        intro d hd
        rw [hchar d hd]
        exact isBlank_of_mem_marks hmem
      mark := by
        intro d hd _
        rw [hchar d hd]
        exact htext
      maximal := fun h => absurd h hrun
      keyword := fun h => absurd h hrun
      number := fun h => absurd h hrun
      word := fun h => absurd h hrun }

/-- A run stands where characters of another kind are around it. -/
theorem stands_run {run before after : List Char} (hne : run ≠ [])
    (hrun : ∀ c ∈ run, isRunChar c = true)
    (hbefore : ∀ c ∈ before.getLast?, isRunChar c = false)
    (hafter : ∀ c ∈ after.head?, isRunChar c = false) :
    Stands before ⟨Token.ofRun run after.head?, 1 + before.count '\n'⟩
      after := by
  have htext := Token.text_ofRun run after.head?
  have hchars : (Token.ofRun run after.head?).text.toList = run := by
    rw [htext, String.toList_ofList]
  exact
    { line := rfl
      not_blank := by
        intro heq
        have hblank : run = [' '] := by
          rw [← hchars]
          exact congrArg (·.text.toList) heq
        exact absurd (hrun ' ' (by rw [hblank]; decide)) (by decide)
      text_ne := by
        intro hempty
        rw [hempty] at hchars
        exact hne hchars.symm
      solid := by
        intro c hc
        rw [hchars] at hc
        exact (isRunChar_iff.1 (hrun c hc)).1
      mark := by
        intro c hc hmark
        rw [hchars] at hc
        exact absurd hmark (isRunChar_iff.1 (hrun c hc)).2
      maximal := fun _ =>
        ⟨fun c hc => isRunChar_eq_false_iff.1 (hbefore c hc),
          fun c hc => isRunChar_eq_false_iff.1 (hafter c hc)⟩
      keyword := by
        intro _ t ht
        rw [htext]
        exact Token.ofRun_eq_keyword_iff ht
      number := by
        intro _ word
        rw [hchars, htext]
        exact Token.ofRun_eq_number_iff
      word := by
        intro _ word
        rw [hchars, htext]
        exact Token.ofRun_eq_word_iff }

/-! ## The pass over a text -/

/-- Whether no run goes over the place between two parts of a text. -/
def Edge (before rest : List Char) : Prop :=
  ∀ b ∈ before.getLast?, ∀ c ∈ rest.head?, isRunChar b = true →
    isRunChar c = false

theorem edge_of_last {c : Char} (hc : isRunChar c = false)
    (before rest : List Char) : Edge (before ++ [c]) rest := by
  intro b hb _ _ hrun
  rw [List.getLast?_concat] at hb
  cases hb
  rw [hc] at hrun
  cases hrun

/-- A text that begins with a character of a run begins with a whole run. -/
theorem exists_run_append {c : Char} (hc : isRunChar c = true)
    (rest : List Char) :
    ∃ run after, c :: rest = run ++ after ∧ run ≠ [] ∧
      (∀ d ∈ run, isRunChar d = true) ∧
      ∀ d ∈ after.head?, isRunChar d = false := by
  refine ⟨(c :: rest).takeWhile isRunChar, (c :: rest).dropWhile isRunChar,
    List.takeWhile_append_dropWhile.symm, ?_, ?_, ?_⟩
  · rw [List.takeWhile_cons_of_pos hc]
    exact List.cons_ne_nil _ _
  · exact List.all_eq_true.1 List.all_takeWhile
  · intro d hd
    have hstop := List.head?_dropWhile_not isRunChar (c :: rest)
    rw [hd] at hstop
    exact hstop

/-- Whether splitting the rest of a text finds lexemes that stand in it. -/
def PlacedFrom (before rest : List Char) : Prop :=
  Placed before (lexemes (1 + before.count '\n') rest) rest

/-- Passing white space. -/
theorem PlacedFrom.blank {c : Char} (hc : isBlank c = true)
    {before rest : List Char} (h : PlacedFrom (before ++ [c]) rest) :
    PlacedFrom before (c :: rest) := by
  have hblanks : ∀ d ∈ [c], isBlank d = true := by
    intro d hd
    rw [List.mem_singleton.1 hd]
    exact hc
  have hskip := lexemes_blanks (1 + before.count '\n') hblanks rest
  rw [Nat.add_assoc, ← List.count_append] at hskip
  unfold PlacedFrom at h
  rw [← hskip] at h
  exact Placed.cons_blank hc h

/-- Passing a mark. -/
theorem PlacedFrom.mark {c : Char} {t : Token}
    (hmark : Token.ofMark? c = some t) {before rest : List Char}
    (h : PlacedFrom (before ++ [c]) rest) : PlacedFrom before (c :: rest) := by
  obtain ⟨_, htext⟩ := Token.ofMark?_eq_some_iff.1 hmark
  have hline : (before ++ [c]).count '\n' = before.count '\n' := by
    have hfeed : c ≠ '\n' := by
      rintro rfl
      cases hmark
    simp [List.count_append, hfeed]
  unfold PlacedFrom at h ⊢
  rw [hline, ← htext] at h
  have hall := Placed.cons (stands_mark hmark before rest) h
  rw [htext] at hall
  rw [lexemes_mark _ hmark]
  exact hall

/-- Passing a run. -/
theorem PlacedFrom.run {run before after : List Char} (hne : run ≠ [])
    (hrun : ∀ c ∈ run, isRunChar c = true)
    (hbefore : ∀ c ∈ before.getLast?, isRunChar c = false)
    (hafter : ∀ c ∈ after.head?, isRunChar c = false)
    (h : PlacedFrom (before ++ run) after) :
    PlacedFrom before (run ++ after) := by
  have htext : (Token.ofRun run after.head?).text.toList = run := by
    rw [Token.text_ofRun, String.toList_ofList]
  unfold PlacedFrom at h ⊢
  rw [List.count_append, Writes.count_lineFeed_of_runChars hrun, Nat.add_zero,
    ← htext] at h
  have hall := Placed.cons (stands_run hne hrun hbefore hafter) h
  rw [htext] at hall
  rw [lexemes_run _ hne hrun hafter]
  exact hall

/-- **The pass over a text.**  Splitting from an edge on finds lexemes that
stand behind what has been passed. -/
theorem placedFrom_of_edge (before rest : List Char)
    (hedge : Edge before rest) : PlacedFrom before rest := by
  -- The induction is on what is left of the text; a run is passed as a whole.
  match rest with
  | [] =>
      intro c hc
      cases hc
  | c :: rest =>
      cases hrun : isRunChar c with
      | false =>
          have hrest := placedFrom_of_edge (before ++ [c]) rest
            (edge_of_last hrun before rest)
          cases hmark : Token.ofMark? c with
          | some t => exact hrest.mark hmark
          | none =>
              have hblank : isBlank c = true := by
                simpa [isRunChar, hmark] using hrun
              exact hrest.blank hblank
      | true =>
          obtain ⟨run, after, heq, hne, hchars, hafter⟩ :=
            exists_run_append hrun rest
          have hbefore : ∀ b ∈ before.getLast?, isRunChar b = false := by
            intro b hb
            apply eq_false_of_ne_true
            intro hb'
            rw [hedge b hb c rfl hb'] at hrun
            cases hrun
          have hshorter : after.length < (c :: rest).length := by
            have hpos := List.length_pos_iff.2 hne
            rw [heq, List.length_append]
            omega
          have hrest := placedFrom_of_edge (before ++ run) after
            (fun _ _ d hd _ => hafter d hd)
          rw [heq]
          exact hrest.run hne hchars hbefore hafter
termination_by rest.length
decreasing_by
  · exact Nat.lt_succ_self _
  · exact hshorter

/-- **Every text is split without loss.**  Its tokens stand in it one behind the
other, each at a place where it belongs, with white space around them; without
white space the text is what the tokens write. -/
theorem split_placed (source : String) :
    Placed [] (split source) source.toList ∧
      source.toList.filter (!isBlank ·) =
        (split source).flatMap (·.token.text.toList) := by
  have hplaced : Placed [] (split source) source.toList :=
    placedFrom_of_edge [] source.toList nofun
  exact ⟨hplaced, hplaced.filter_eq⟩

example : split "-\u00a0move\u00a0--1 -01loop,\nloop" =
    [⟨.word "-", 1⟩, ⟨.word "move", 1⟩, ⟨.word "--1", 1⟩, ⟨.word "-01loop", 1⟩,
      ⟨.comma, 1⟩, ⟨.loop, 2⟩] := by decide

end RobotScript
