import RobotScript.Proofs.IdleLoops
import RobotScript.Proofs.RoundTrip

/-!
# Outlines and canonical text

The outline of a program is its tree without the `nop`s.  A block of `nop`s has
nothing left in it, so a loop of an outline may be empty.

Canonical text shows the outline and nothing else.  Between the two stand the
lines of the outline, each an action, `loop {` or `}`.  How far a line is
indented can be told from the lines around it, so the text can be taken apart
into lines again, and a list of lines belongs to one outline only: a body is
over where a `}` comes that no `loop {` in the body has opened.  Reading the
text back would not show that much, because of the limit on nesting and
because an empty block cannot be read.

## Main results

* `Outline.linesList_cancel` — lines belong to one outline, whatever follows.
* `Line.getElem?_indentFrom`, `Program.linesList_eq_indentFrom` — the lines of a
  program and how far they are indented.
* `Line.eq_of_intercalate_eq` — the text can be taken apart into lines.
* `canonical_text_of_outline` — what a text tells about its program, and what it
  looks like.
-/

namespace RobotScript

/-! ## Outlines -/

/-- What is left of a statement without its `nop`s. -/
inductive Outline where
  | action (a : Action)
  | loop (body : List Outline)

namespace Statement

mutual

/-- A statement without its `nop`s; nothing is left of a `nop` itself. -/
def outline : Statement → List Outline
  | .action a => [.action a]
  | .loop first rest => [.loop (first.outline ++ outlineList rest)]
  | .nop => []

/-- Statements without their `nop`s. -/
def outlineList : List Statement → List Outline
  | [] => []
  | s :: rest => s.outline ++ outlineList rest

end

theorem outline_loop (first : Statement) (rest : List Statement) :
    (Statement.loop first rest).outline =
      [.loop (outlineList (first :: rest))] := rfl

end Statement

/-- A program without its `nop`s. -/
def Program.outline (p : Program) : List Outline :=
  Statement.outlineList p.statements

/-- The number of loops written in a program. -/
def Program.loopCount (p : Program) : Nat :=
  Statement.loopCountList p.statements

/-! ## Lines -/

/-- A line of canonical text, not indented. -/
inductive Line where
  | action (a : Action)
  | opening
  | closing
  deriving DecidableEq, Repr

/-- What stands on a line. -/
def Line.text : Line → String
  | .action a => a.text
  | .opening => "loop \x7b"
  | .closing => "\x7d"

namespace Outline

mutual

/-- The lines of an outline. -/
def lines : Outline → List Line
  | .action a => [.action a]
  | .loop body => .opening :: (linesList body ++ [.closing])

/-- The lines of a list of outlines. -/
def linesList : List Outline → List Line
  | [] => []
  | x :: xs => x.lines ++ linesList xs

end

theorem linesList_append (xs ys : List Outline) :
    linesList (xs ++ ys) = linesList xs ++ linesList ys := by
  induction xs with
  | nil => rfl
  | cons x xs ih =>
      rw [List.cons_append, linesList, ih, linesList, List.append_assoc]

/-- The lines of an outline do not begin with the end of a block. -/
theorem exists_lines_eq_cons (x : Outline) :
    ∃ l ls, x.lines = l :: ls ∧ l ≠ .closing := by
  cases x with
  | action a => exact ⟨.action a, [], rfl, nofun⟩
  | loop body => exact ⟨.opening, _, rfl, nofun⟩

theorem linesList_eq_nil_iff {xs : List Outline} :
    linesList xs = [] ↔ xs = [] := by
  cases xs with
  | nil => exact iff_of_true rfl rfl
  | cons x xs =>
      obtain ⟨l, ls, hlines, _⟩ := x.exists_lines_eq_cons
      rw [linesList, hlines]
      exact iff_of_false nofun nofun

/-- Where only the end of a block may follow, no outline begins. -/
theorem lines_append_ne {x : Outline} {us vs : List Line}
    (hvs : ∀ l ∈ vs.head?, l = .closing) : x.lines ++ us ≠ vs := by
  rintro rfl
  obtain ⟨l, ls, hlines, hne⟩ := x.exists_lines_eq_cons
  rw [hlines] at hvs
  exact hne (hvs l rfl)

mutual

/-- The lines of an outline tell which outline they belong to and where they
end. -/
theorem lines_cancel : (x y : Outline) → (us vs : List Line) →
    x.lines ++ us = y.lines ++ vs → x = y ∧ us = vs
  | .action a, .action b, us, vs, h => by
      injection h with hhead htail
      injection hhead with hab
      exact ⟨by rw [hab], htail⟩
  | .action a, .loop body, us, vs, h => by cases h
  | .loop body, .action b, us, vs, h => by cases h
  | .loop body, .loop body', us, vs, h => by
      have htail := (List.cons.inj h).2
      have hbody : linesList body ++ .closing :: us =
          linesList body' ++ .closing :: vs := by
        rw [List.append_cons, List.append_cons (linesList body')]
        exact htail
      obtain ⟨rfl, hrest⟩ := linesList_cancel body body' (.closing :: us)
        (.closing :: vs) (fun _ h => (Option.some.inj h).symm)
        (fun _ h => (Option.some.inj h).symm) hbody
      exact ⟨rfl, (List.cons.inj hrest).2⟩

/-- So do the lines of a body, because the end of a block comes behind them. -/
theorem linesList_cancel : (xs ys : List Outline) → (us vs : List Line) →
    (∀ l ∈ us.head?, l = .closing) → (∀ l ∈ vs.head?, l = .closing) →
    linesList xs ++ us = linesList ys ++ vs → xs = ys ∧ us = vs
  | [], [], us, vs, _, _, h => ⟨rfl, h⟩
  | [], y :: ys, us, vs, hus, _, h => by
      rw [linesList, linesList, List.append_assoc] at h
      exact absurd h.symm (lines_append_ne hus)
  | x :: xs, [], us, vs, _, hvs, h => by
      rw [linesList, linesList, List.append_assoc] at h
      exact absurd h (lines_append_ne hvs)
  | x :: xs, y :: ys, us, vs, hus, hvs, h => by
      rw [linesList, linesList, List.append_assoc, List.append_assoc] at h
      obtain ⟨rfl, htail⟩ := lines_cancel x y _ _ h
      obtain ⟨rfl, hrest⟩ := linesList_cancel xs ys us vs hus hvs htail
      exact ⟨rfl, hrest⟩

end

/-- Lines belong to one list of outlines. -/
theorem linesList_injective {xs ys : List Outline}
    (h : linesList xs = linesList ys) : xs = ys :=
  (linesList_cancel xs ys [] [] nofun nofun (by rw [h])).1

end Outline

/-! ## Indentation -/

/-- The number of loops around line number `k`, told from the lines: those
opened before it, except those closed up to it. -/
def Line.enclosing (ls : List Line) (k : Nat) : Nat :=
  (ls.take k).count .opening - (ls.take (k + 1)).count .closing

/-- Indents lines, behind lines by which some loops were opened and closed. -/
def Line.indentFrom (opened closed : Nat) : List Line → List String
  | [] => []
  | l :: ls =>
    (indent (opened - (closed + [l].count .closing)) ++ l.text) ::
      indentFrom (opened + [l].count .opening) (closed + [l].count .closing) ls

namespace Line

section Equations

variable (opened closed : Nat) (ls : List Line)

theorem indentFrom_action (a : Action) :
    indentFrom opened closed (.action a :: ls) =
      (indent (opened - closed) ++ a.text) :: indentFrom opened closed ls := rfl

theorem indentFrom_opening :
    indentFrom opened closed (.opening :: ls) =
      (indent (opened - closed) ++ "loop \x7b") ::
        indentFrom (opened + 1) closed ls := rfl

theorem indentFrom_closing :
    indentFrom opened closed (.closing :: ls) =
      (indent (opened - (closed + 1)) ++ "\x7d") ::
        indentFrom opened (closed + 1) ls := rfl

end Equations

/-- How far each line is indented. -/
theorem getElem?_indentFrom (opened closed : Nat) (ls : List Line) (k : Nat) :
    (indentFrom opened closed ls)[k]? = ls[k]?.map fun l =>
      indent (opened + (ls.take k).count .opening -
        (closed + (ls.take (k + 1)).count .closing)) ++ l.text := by
  induction ls generalizing opened closed k with
  | nil => rfl
  | cons l ls ih =>
      cases k with
      | zero => rfl
      | succ k =>
          have hcount : ∀ (t : Line) (us : List Line),
              (l :: us).count t = [l].count t + us.count t := by
            intro t us
            rw [← List.count_append, List.singleton_append]
          rw [indentFrom, List.getElem?_cons_succ, List.getElem?_cons_succ, ih,
            List.take_succ_cons, List.take_succ_cons,
            hcount .opening (ls.take k), hcount .closing (ls.take (k + 1)),
            Nat.add_assoc, Nat.add_assoc]

/-- Every line is some text behind blanks. -/
theorem exists_of_mem_indentFrom {opened closed : Nat} {ls : List Line}
    {line : String} (h : line ∈ indentFrom opened closed ls) :
    ∃ depth, ∃ l : Line, line = indent depth ++ l.text := by
  obtain ⟨k, hk⟩ := List.mem_iff_getElem?.1 h
  rw [getElem?_indentFrom] at hk
  obtain ⟨l, _, rfl⟩ := Option.map_eq_some_iff.1 hk
  exact ⟨_, l, rfl⟩

end Line

namespace Statement

theorem linesList_outline_loop (first : Statement) (rest : List Statement)
    (ls : List Line) :
    Outline.linesList (Statement.loop first rest).outline ++ ls =
      .opening :: (Outline.linesList (outlineList (first :: rest)) ++
        .closing :: ls) := by
  rw [outline_loop, Outline.linesList, Outline.lines, Outline.linesList,
    List.append_nil, List.cons_append, ← List.append_cons]

mutual

/-- The lines of a statement are those of its outline, indented. -/
theorem indentFrom_outline : (s : Statement) → (opened closed depth : Nat) →
    opened = closed + depth → (ls : List Line) →
    Line.indentFrom opened closed (Outline.linesList s.outline ++ ls) =
      s.lines depth ++
        Line.indentFrom (opened + s.loopCount) (closed + s.loopCount) ls
  | .action a, _, closed, depth, rfl, ls => by
      show Line.indentFrom (closed + depth) closed (.action a :: ls) = _
      rw [Line.indentFrom_action, Nat.add_sub_cancel_left]
      rfl
  | .loop first rest, _, closed, depth, rfl, ls => by
      have hbody := indentFrom_outlineList (first :: rest) (closed + depth + 1)
        closed (depth + 1) (Nat.add_assoc closed depth 1) (.closing :: ls)
      -- Behind the body as many loops of it are closed as were opened, and the
      -- loop around it is open.
      have hinside : closed + depth + 1 + loopCountList (first :: rest) -
          (closed + loopCountList (first :: rest) + 1) = depth := by omega
      have hopened : closed + depth + 1 + loopCountList (first :: rest) =
          closed + depth + (loopCountList (first :: rest) + 1) := by omega
      have hcount : (Statement.loop first rest).loopCount =
          loopCountList (first :: rest) + 1 := rfl
      rw [linesList_outline_loop, Line.indentFrom_opening, hbody,
        Line.indentFrom_closing, hinside, hopened, Nat.add_sub_cancel_left,
        lines_loop, hcount, List.append_assoc, List.append_assoc,
        List.singleton_append, List.singleton_append]
      rfl
  | .nop, _, _, _, _, _ => rfl
termination_by s => (sizeOf s, 1)

/-- So are the lines of statements. -/
theorem indentFrom_outlineList : (ss : List Statement) →
    (opened closed depth : Nat) → opened = closed + depth →
    (ls : List Line) →
    Line.indentFrom opened closed
        (Outline.linesList (outlineList ss) ++ ls) =
      linesList depth ss ++
        Line.indentFrom (opened + loopCountList ss)
          (closed + loopCountList ss) ls
  | [], _, _, _, _, _ => rfl
  | s :: ss, opened, closed, depth, hdepth, ls => by
      have htail : opened + s.loopCount = closed + s.loopCount + depth := by
        omega
      rw [outlineList, Outline.linesList_append, List.append_assoc,
        indentFrom_outline s opened closed depth hdepth,
        indentFrom_outlineList ss _ _ depth htail, linesList, loopCountList,
        List.append_assoc, Nat.add_assoc, Nat.add_assoc]
termination_by ss => (sizeOf ss, 0)

end

mutual

theorem length_linesList_outline : (s : Statement) →
    (Outline.linesList s.outline).length = s.actionCount + 2 * s.loopCount
  | .action _ => rfl
  | .loop first rest => by
      have hbody := length_linesList_outlineList (first :: rest)
      have hlines := linesList_outline_loop first rest []
      rw [List.append_nil] at hlines
      rw [hlines, List.length_cons, List.length_append, List.length_singleton,
        hbody]
      show actionCountList (first :: rest) +
          2 * loopCountList (first :: rest) + 1 + 1 =
        actionCountList (first :: rest) +
          2 * (loopCountList (first :: rest) + 1)
      omega
  | .nop => rfl
termination_by s => (sizeOf s, 1)

/-- There is a line for every action and two for every loop. -/
theorem length_linesList_outlineList : (ss : List Statement) →
    (Outline.linesList (outlineList ss)).length =
      actionCountList ss + 2 * loopCountList ss
  | [] => rfl
  | s :: ss => by
      have hs := length_linesList_outline s
      have hss := length_linesList_outlineList ss
      rw [outlineList, Outline.linesList_append, List.length_append,
        actionCountList, loopCountList]
      omega
termination_by ss => (sizeOf ss, 0)

end

end Statement

namespace Program

/-- The lines of a program, not indented. -/
def outlineLines (p : Program) : List Line :=
  Outline.linesList p.outline

/-- **The lines of a program** are those of its outline, indented. -/
theorem linesList_eq_indentFrom (p : Program) :
    Statement.linesList 0 p.statements =
      Line.indentFrom 0 0 p.outlineLines := by
  have h := Statement.indentFrom_outlineList p.statements 0 0 0 rfl []
  rw [List.append_nil, Line.indentFrom, List.append_nil] at h
  exact h.symm

theorem render_eq (p : Program) :
    p.render = "\n".intercalate (Line.indentFrom 0 0 p.outlineLines) := by
  rw [render, linesList_eq_indentFrom]

end Program

/-! ## Taking a text apart -/

/-- The text without the white space at its end. -/
def trimEnd (text : String) : String :=
  String.ofList (text.toList.reverse.dropWhile isBlank).reverse

/-- Whether a text is a line that can be told from its surroundings: there is
no line feed in it, and it does not end in white space. -/
def IsLine (line : String) : Prop :=
  '\n' ∉ line.toList ∧
    ∃ c, line.toList.getLast? = some c ∧ isBlank c = false

section Lines

variable {lines : List String}

/-- Lines can be told apart in the text. -/
theorem splitOn_intercalate_of_isLine (hne : lines ≠ [])
    (h : ∀ line ∈ lines, IsLine line) :
    ("\n".intercalate lines).toList.splitOn '\n' =
      lines.map String.toList := by
  rw [String.toList_intercalate]
  refine List.splitOn_intercalate '\n' ?_ ?_
  · intro cs hcs
    obtain ⟨line, hline, rfl⟩ := List.mem_map.1 hcs
    exact (h line hline).1
  · exact fun hnil => hne (List.map_eq_nil_iff.1 hnil)

/-- The text ends as the last line does. -/
theorem getLast?_intercalate_of_isLine (hne : lines ≠ [])
    (h : ∀ line ∈ lines, IsLine line) :
    ∃ c, ("\n".intercalate lines).toList.getLast? = some c ∧
      isBlank c = false := by
  induction lines with
  | nil => exact absurd rfl hne
  | cons line lines ih =>
      by_cases hnil : lines = []
      · rw [hnil, String.intercalate_singleton]
        exact (h line List.mem_cons_self).2
      · obtain ⟨c, hc, hblank⟩ :=
          ih hnil fun l hl => h l (List.mem_cons_of_mem line hl)
        refine ⟨c, ?_, hblank⟩
        rw [String.intercalate_cons_of_ne_nil hnil, String.toList_append,
          List.getLast?_append, hc]
        rfl

/-- With a line feed behind every line there is one more at the end. -/
theorem join_eq_intercalate_append (hne : lines ≠ []) :
    String.join (lines.map (· ++ "\n")) = "\n".intercalate lines ++ "\n" := by
  induction lines with
  | nil => exact absurd rfl hne
  | cons line lines ih =>
      by_cases hnil : lines = []
      · subst hnil
        rw [List.map_singleton, String.intercalate_singleton, String.join_cons,
          String.join_nil, String.append_empty]
      · rw [List.map_cons, String.join_cons, ih hnil,
          String.intercalate_cons_of_ne_nil hnil, String.append_assoc,
          String.append_assoc, String.append_assoc]

/-- That one is all that is trimmed. -/
theorem trimEnd_join (h : ∀ line ∈ lines, IsLine line) :
    trimEnd (String.join (lines.map (· ++ "\n"))) =
      "\n".intercalate lines := by
  by_cases hne : lines = []
  · subst hne
    rfl
  · obtain ⟨c, hc, hblank⟩ := getLast?_intercalate_of_isLine hne h
    obtain ⟨cs, hcs⟩ := List.getLast?_eq_some_iff.1 hc
    have hfeed : isBlank '\n' = true := by decide
    have htext : ("\n".intercalate lines ++ "\n").toList =
        cs ++ [c] ++ ['\n'] := by
      rw [String.toList_append, hcs]
      rfl
    rw [join_eq_intercalate_append hne, trimEnd, htext, List.reverse_concat,
      List.dropWhile_cons_of_pos hfeed, List.reverse_concat,
      List.dropWhile_cons_of_neg (by simp [hblank]), List.reverse_cons,
      List.reverse_reverse, ← hcs, String.ofList_toList]

end Lines

namespace Line

theorem toList_text_action (a : Action) :
    (Line.action a).text.toList = a.keyword.toList ++ [';'] :=
  String.toList_append

/-- No two lines have the same text. -/
theorem text_injective {l l' : Line} (h : l.text.toList = l'.text.toList) :
    l = l' := by
  cases l with
  | action a =>
      cases l' with
      | action b =>
          rw [toList_text_action, toList_text_action] at h
          have hkeyword := String.toList_injective (List.append_cancel_right h)
          rw [Action.keyword_injective hkeyword]
      | _ => exact absurd h (by cases a <;> decide)
  | opening =>
      cases l' with
      | action b => exact absurd h (by cases b <;> decide)
      | opening => rfl
      | closing => exact absurd h (by decide)
  | closing =>
      cases l' with
      | action b => exact absurd h (by cases b <;> decide)
      | opening => exact absurd h (by decide)
      | closing => rfl

theorem isLine_text (l : Line) : IsLine l.text := by
  cases l with
  | action a =>
      refine ⟨by cases a <;> decide, ';', ?_, by decide⟩
      rw [toList_text_action, List.getLast?_concat]
  | opening => exact ⟨by decide, '{', by decide, by decide⟩
  | closing => exact ⟨by decide, '}', by decide, by decide⟩

/-- Blanks in front of a line leave it one. -/
theorem isLine_indent (depth : Nat) {line : String} (h : IsLine line) :
    IsLine (indent depth ++ line) := by
  obtain ⟨hfeed, c, hc, hblank⟩ := h
  refine ⟨?_, c, ?_, hblank⟩
  · rw [String.toList_append, indent, String.toList_ofList, List.mem_append]
    rintro (hmem | hmem)
    · exact absurd (List.eq_of_mem_replicate hmem) (by decide)
    · exact hfeed hmem
  · rw [String.toList_append, List.getLast?_append, hc]
    rfl

/-- The text of a line does not begin with a blank. -/
theorem dropWhile_indent (depth : Nat) (l : Line) :
    (indent depth ++ l.text).toList.dropWhile (· == ' ') = l.text.toList := by
  have htext : l.text.toList.dropWhile (· == ' ') = l.text.toList := by
    cases l with
    | action a => cases a <;> decide
    | opening => decide
    | closing => decide
  rw [String.toList_append, indent, String.toList_ofList,
    List.dropWhile_append_of_pos, htext]
  intro c hc
  rw [List.eq_of_mem_replicate hc]
  rfl

theorem isLine_of_mem_indentFrom {opened closed : Nat} {ls : List Line} :
    ∀ line ∈ indentFrom opened closed ls, IsLine line := by
  intro line hline
  obtain ⟨depth, l, rfl⟩ := exists_of_mem_indentFrom hline
  exact isLine_indent depth l.isLine_text

/-- What is left of lines without the blanks in front of them. -/
theorem map_dropWhile_indentFrom (opened closed : Nat) (ls : List Line) :
    ((indentFrom opened closed ls).map String.toList).map
        (·.dropWhile (· == ' ')) =
      ls.map (·.text.toList) := by
  induction ls generalizing opened closed with
  | nil => rfl
  | cons l ls ih =>
      rw [indentFrom, List.map_cons, List.map_cons, List.map_cons,
        dropWhile_indent, ih]

theorem indentFrom_eq_nil_iff {opened closed : Nat} {ls : List Line} :
    indentFrom opened closed ls = [] ↔ ls = [] := by
  cases ls with
  | nil => exact iff_of_true rfl rfl
  | cons l ls => exact iff_of_false nofun nofun

/-- Where there is a line, there is text. -/
theorem intercalate_ne_empty {ls : List Line} (h : ls ≠ []) :
    "\n".intercalate (indentFrom 0 0 ls) ≠ "" := by
  intro hempty
  obtain ⟨c, hc, _⟩ := getLast?_intercalate_of_isLine
    (mt indentFrom_eq_nil_iff.1 h) isLine_of_mem_indentFrom
  rw [hempty] at hc
  cases hc

/-- The lines of a text. -/
theorem splitOn_indentFrom {ls : List Line} (h : ls ≠ []) :
    ("\n".intercalate (indentFrom 0 0 ls)).toList.splitOn '\n' =
      (indentFrom 0 0 ls).map String.toList :=
  splitOn_intercalate_of_isLine (mt indentFrom_eq_nil_iff.1 h)
    isLine_of_mem_indentFrom

/-- **A text can be taken apart** into its lines. -/
theorem eq_of_intercalate_eq {ls ls' : List Line}
    (h : "\n".intercalate (indentFrom 0 0 ls) =
      "\n".intercalate (indentFrom 0 0 ls')) : ls = ls' := by
  by_cases hls : ls = []
  · by_cases hls' : ls' = []
    · rw [hls, hls']
    · subst hls
      exact absurd h.symm (intercalate_ne_empty hls')
  · by_cases hls' : ls' = []
    · subst hls'
      exact absurd h (intercalate_ne_empty hls)
    · have hlines : (indentFrom 0 0 ls).map String.toList =
          (indentFrom 0 0 ls').map String.toList := by
        rw [← splitOn_indentFrom hls, ← splitOn_indentFrom hls', h]
      have htexts : ls.map (·.text.toList) = ls'.map (·.text.toList) := by
        rw [← map_dropWhile_indentFrom 0 0 ls, hlines,
          map_dropWhile_indentFrom 0 0 ls']
      exact (List.map_inj_right fun _ _ => text_injective).1 htexts

end Line

/-- **Canonical text shows the outline**, whatever the programs and however
deep their loops.

* Two programs have the same text exactly if they have the same outline.
* The text is what is left when a line feed is written behind every line and
  the white space at the end is trimmed.  It does not end in white space.
* It is empty if the outline is.
* Otherwise it has a line for every action and two for every loop.  Each is the
  text of an action, `loop {` or `}`, behind four blanks for every loop around
  it. -/
theorem canonical_text_of_outline (p q : Program) :
    (p.render = q.render ↔ p.outline = q.outline) ∧
    p.render = trimEnd (String.join
      ((Statement.linesList 0 p.statements).map (· ++ "\n"))) ∧
    (∀ c ∈ p.render.toList.getLast?, isBlank c = false) ∧
    (p.outline = [] → p.render = "") ∧
    (p.outline ≠ [] →
      p.outlineLines.length = p.actionCount + 2 * p.loopCount ∧
      ∀ k, (p.render.toList.splitOn '\n')[k]? =
        p.outlineLines[k]?.map fun l =>
          (String.ofList (List.replicate (4 * Line.enclosing p.outlineLines k)
            ' ') ++ l.text).toList) := by
  have hlines : ∀ line ∈ Statement.linesList 0 p.statements, IsLine line := by
    rw [p.linesList_eq_indentFrom]
    exact Line.isLine_of_mem_indentFrom
  refine ⟨⟨?_, ?_⟩, (trimEnd_join hlines).symm, ?_, ?_, ?_⟩
  · intro h
    rw [p.render_eq, q.render_eq] at h
    exact Outline.linesList_injective (Line.eq_of_intercalate_eq h)
  · intro h
    rw [p.render_eq, q.render_eq, Program.outlineLines, h]
    rfl
  · intro c hc
    by_cases hnil : Statement.linesList 0 p.statements = []
    · rw [Program.render, hnil] at hc
      cases hc
    · obtain ⟨c', hc', hblank⟩ := getLast?_intercalate_of_isLine hnil hlines
      have hlast : p.render.toList.getLast? = some c' := hc'
      rw [hlast] at hc
      cases hc
      exact hblank
  · intro h
    rw [p.render_eq, Program.outlineLines, h]
    rfl
  · intro h
    have hne : p.outlineLines ≠ [] := mt Outline.linesList_eq_nil_iff.1 h
    refine ⟨Statement.length_linesList_outlineList p.statements, fun k => ?_⟩
    rw [p.render_eq, Line.splitOn_indentFrom hne, List.getElem?_map,
      Line.getElem?_indentFrom, Option.map_map, Nat.zero_add, Nat.zero_add]
    rfl

example : (⟨[.nop, .loop .nop [.loop .nop [], .action .move]]⟩ :
    Program).render =
      "loop \x7b\n    loop \x7b\n    \x7d\n    move;\n\x7d" := by decide

end RobotScript
