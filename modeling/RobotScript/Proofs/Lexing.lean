import RobotScript.Token.Lexeme

/-!
# Splitting, token by token

Splitting a script is one pass that carries the run being read and the lexemes
found so far.  `lexemes` is the same pass with nothing carried, and it obeys
three equations: a blank is skipped, a mark is a lexeme, and a run that is
followed by no further character of its kind is a lexeme as well.

A text writes some tokens if it is split into them whatever stands behind it.
Texts that do can be put together, which is how the text of a tree is split
into the tokens of the tree.

## Main results

* `Lexeme.splitFrom_eq` — what is carried comes before what is split.
* `Lexeme.lexemes_blanks`, `Lexeme.lexemes_mark`, `Lexeme.lexemes_run` — the
  three equations.
* `Writes.append`, `Writes.intercalate_append` — texts that write tokens, put
  together directly and line by line.
-/

namespace RobotScript

/-- The tokens of a list of lexemes. -/
def tokensOf (ls : List Lexeme) : List Token :=
  ls.map (·.token)

@[simp] theorem tokensOf_nil : tokensOf [] = [] := rfl

@[simp] theorem tokensOf_cons (l : Lexeme) (ls : List Lexeme) :
    tokensOf (l :: ls) = l.token :: tokensOf ls := rfl

@[simp] theorem tokensOf_append (ls ls' : List Lexeme) :
    tokensOf (ls ++ ls') = tokensOf ls ++ tokensOf ls' :=
  List.map_append

/-- Whether a character belongs to a run: it is neither a mark nor a blank. -/
def isRunChar (c : Char) : Bool :=
  (Token.ofMark? c).isNone && !isBlank c

namespace Lexeme

/-! ## What is carried -/

/-- The lexemes of some characters that begin on `line`. -/
def lexemes (line : Nat) (cs : List Char) : List Lexeme :=
  splitFrom line [] [] cs

theorem split_eq (source : String) :
    split source = lexemes 1 source.toList := rfl

@[simp] theorem lexemes_nil (line : Nat) : lexemes line [] = [] := rfl

/-- A finished run comes behind what was found before. -/
theorem addRun_eq (run : List Char) (follow : Option Char) (line : Nat)
    (found : List Lexeme) :
    addRun run follow line found = addRun run follow line [] ++ found := by
  cases run with
  | nil => rfl
  | cons c before => rfl

/-- What was found before stays in front of what is still to be split. -/
theorem splitFrom_found (line : Nat) (run : List Char) (found : List Lexeme)
    (cs : List Char) :
    splitFrom line run found cs =
      found.reverse ++ splitFrom line run [] cs := by
  induction cs generalizing line run found with
  | nil =>
      rw [splitFrom, splitFrom, addRun_eq, List.reverse_append]
  | cons c cs ih =>
      simp only [splitFrom]
      split
      · next mark _ =>
        rw [ih line [] (⟨mark, line⟩ :: addRun run (some c) line found),
          ih line [] (⟨mark, line⟩ :: addRun run (some c) line []),
          addRun_eq run (some c) line found]
        simp only [List.reverse_cons, List.reverse_append, List.append_assoc]
      · split
        · rw [ih _ [] (addRun run (some c) line found),
            ih _ [] (addRun run (some c) line []),
            addRun_eq run (some c) line found]
          simp only [List.reverse_append, List.append_assoc]
        · exact ih line (c :: run) found

/-- Nothing but a character of its kind goes on with a run. -/
theorem splitFrom_endRun (line : Nat) (run : List Char) (found : List Lexeme)
    {rest : List Char} (hrest : ∀ c ∈ rest.head?, isRunChar c = false) :
    splitFrom line run found rest =
      splitFrom line [] (addRun run rest.head? line found) rest := by
  cases rest with
  | nil => rfl
  | cons c rest =>
      have hc : isRunChar c = false := hrest c rfl
      simp only [splitFrom, List.head?_cons]
      split
      · rfl
      · next hmark =>
        have hblank : isBlank c = true := by
          simpa [isRunChar, hmark] using hc
        rw [if_pos hblank, if_pos hblank]
        rfl

/-- The characters of a run are gathered, last one first. -/
theorem splitFrom_runChars (line : Nat) (before : List Char)
    (found : List Lexeme) {run : List Char}
    (hrun : ∀ c ∈ run, isRunChar c = true) (rest : List Char) :
    splitFrom line before found (run ++ rest) =
      splitFrom line (run.reverse ++ before) found rest := by
  induction run generalizing before with
  | nil => rfl
  | cons c run ih =>
      have hc := hrun c List.mem_cons_self
      rw [isRunChar, Bool.and_eq_true, Option.isNone_iff_eq_none,
        Bool.not_eq_true'] at hc
      have htail : ∀ c ∈ run, isRunChar c = true :=
        fun c h => hrun c (List.mem_cons_of_mem _ h)
      rw [List.cons_append, splitFrom, hc.1]
      simp only [hc.2, Bool.false_eq_true, if_false]
      rw [ih (c :: before) htail, List.reverse_cons, List.append_assoc]
      rfl

/-- **What is carried comes before what is split**: the lexemes found, then
that of the run, if it ends here. -/
theorem splitFrom_eq (line : Nat) (run : List Char) (found : List Lexeme)
    {rest : List Char} (hrest : ∀ c ∈ rest.head?, isRunChar c = false) :
    splitFrom line run found rest =
      found.reverse ++
        (addRun run rest.head? line [] ++ lexemes line rest) := by
  rw [splitFrom_endRun line run found hrest, splitFrom_found, addRun_eq,
    List.reverse_append, List.append_assoc, lexemes]
  congr 2
  cases run <;> rfl

/-! ## The three equations -/

theorem lexemes_blank (line : Nat) {c : Char} (hmark : Token.ofMark? c = none)
    (hc : isBlank c = true) (rest : List Char) :
    lexemes line (c :: rest) = lexemes (lineAfter c line) rest := by
  rw [lexemes, splitFrom, hmark]
  simp only [hc, if_true]
  rfl

/-- A mark is a lexeme. -/
theorem lexemes_mark (line : Nat) {c : Char} {mark : Token}
    (hc : Token.ofMark? c = some mark) (rest : List Char) :
    lexemes line (c :: rest) = ⟨mark, line⟩ :: lexemes line rest := by
  rw [lexemes, splitFrom, hc]
  exact splitFrom_found line [] [⟨mark, line⟩] rest

/-- A run is a lexeme if no character of its kind follows. -/
theorem lexemes_run (line : Nat) {run rest : List Char} (hne : run ≠ [])
    (hrun : ∀ c ∈ run, isRunChar c = true)
    (hrest : ∀ c ∈ rest.head?, isRunChar c = false) :
    lexemes line (run ++ rest) =
      ⟨Token.ofRun run rest.head?, line⟩ :: lexemes line rest := by
  rw [lexemes, splitFrom_runChars line [] [] hrun, List.append_nil,
    splitFrom_eq line run.reverse [] hrest]
  obtain ⟨c, before, hreverse⟩ := List.exists_cons_of_ne_nil
    (fun h => hne (List.reverse_eq_nil_iff.1 h))
  rw [hreverse, addRun, ← hreverse, List.reverse_reverse]
  rfl

/-- No mark is a blank. -/
theorem ofMark?_of_isBlank {c : Char} (hc : isBlank c = true) :
    Token.ofMark? c = none := by
  rw [Token.ofMark?.eq_def]
  split <;> first | rfl | exact absurd hc (by decide)

/-- Blanks are skipped, and their line feeds are counted. -/
theorem lexemes_blanks (line : Nat) {blanks : List Char}
    (hblanks : ∀ c ∈ blanks, isBlank c = true) (rest : List Char) :
    lexemes line (blanks ++ rest) =
      lexemes (line + blanks.count '\n') rest := by
  induction blanks generalizing line with
  | nil => rfl
  | cons c blanks ih =>
      have hc := hblanks c List.mem_cons_self
      have htail : ∀ c ∈ blanks, isBlank c = true :=
        fun c h => hblanks c (List.mem_cons_of_mem _ h)
      have hline : lineAfter c line + blanks.count '\n' =
          line + (c :: blanks).count '\n' := by
        rw [lineAfter, List.count_cons]
        by_cases hfeed : c = '\n'
        · simp [hfeed]
          omega
        · simp [hfeed]
      rw [List.cons_append, lexemes_blank line (ofMark?_of_isBlank hc) hc,
        ih _ htail, hline]

end Lexeme

open Lexeme

/-! ## Texts that write tokens -/

/-- Whether a text is split into the given tokens whatever line it begins on
and whatever comes behind it. -/
def Writes (text : String) (ts : List Token) : Prop :=
  ∀ line rest, ∃ ls, tokensOf ls = ts ∧
    lexemes line (text.toList ++ rest) =
      ls ++ lexemes (line + text.toList.count '\n') rest

namespace Writes

variable {text text' : String} {ts ts' : List Token}

/-- The tokens of a text that stands alone. -/
theorem tokensOf_split (h : Writes text ts) : tokensOf (split text) = ts := by
  obtain ⟨ls, hls, hlexemes⟩ := h 1 []
  rw [List.append_nil, lexemes_nil, List.append_nil] at hlexemes
  rw [split_eq, hlexemes, hls]

/-- Blanks write nothing. -/
theorem blanks (h : text.toList.all isBlank = true) : Writes text [] :=
  fun line rest => ⟨[], rfl, lexemes_blanks line (List.all_eq_true.1 h) rest⟩

/-- No line writes nothing. -/
theorem intercalate_nil : Writes ("\n".intercalate []) [] := by
  rw [String.intercalate_nil]
  exact blanks rfl

/-- A mark writes itself. -/
theorem mark (c : Char) {t : Token} (h : Token.ofMark? c = some t) :
    Writes (String.ofList [c]) [t] := by
  intro line rest
  have hfeed : c ≠ '\n' := by
    rintro rfl
    cases h
  refine ⟨[⟨t, line⟩], rfl, ?_⟩
  rw [String.toList_ofList, List.count_singleton, beq_false_of_ne hfeed]
  exact lexemes_mark line h rest

/-- Texts that write tokens can be put together. -/
theorem append (h : Writes text ts) (h' : Writes text' ts') :
    Writes (text ++ text') (ts ++ ts') := by
  intro line rest
  obtain ⟨ls, hls, hlexemes⟩ := h line (text'.toList ++ rest)
  obtain ⟨ls', hls', hlexemes'⟩ :=
    h' (line + text.toList.count '\n') rest
  refine ⟨ls ++ ls', by rw [tokensOf_append, hls, hls'], ?_⟩
  rw [String.toList_append, List.append_assoc, hlexemes, hlexemes',
    List.count_append, Nat.add_assoc, List.append_assoc]

/-- So can they line by line. -/
theorem intercalate_append {lines lines' : List String}
    (h : Writes ("\n".intercalate lines) ts)
    (h' : Writes ("\n".intercalate lines') ts') :
    Writes ("\n".intercalate (lines ++ lines')) (ts ++ ts') := by
  by_cases hnil : lines = []
  · rw [hnil, String.intercalate_nil] at h
    have hadd := h.append h'
    rw [String.empty_append] at hadd
    rw [hnil, List.nil_append]
    exact hadd
  · by_cases hnil' : lines' = []
    · rw [hnil', String.intercalate_nil] at h'
      have hadd := h.append h'
      rw [String.append_empty] at hadd
      rw [hnil', List.append_nil]
      exact hadd
    · have hfeed : Writes "\n" [] := blanks (by decide)
      have hadd := (h.append hfeed).append h'
      rw [List.append_nil] at hadd
      rw [String.intercalate_append_of_ne_nil hnil hnil']
      exact hadd

/-- A keyword is a run. -/
theorem keyword_runChars {word : String} {t : Token}
    (h : Token.ofKeyword? word = some t) :
    word.toList ≠ [] ∧ ∀ c ∈ word.toList, isRunChar c = true := by
  rw [← List.all_eq_true]
  rw [Token.ofKeyword?_eq] at h
  split at h
  · next hloop =>
    rw [hloop]
    decide
  · obtain ⟨a, ha, _⟩ := Option.map_eq_some_iff.1 h
    rw [Action.ofKeyword?_eq_some_iff.1 ha]
    cases a <;> decide

/-- A run stands on one line. -/
theorem count_lineFeed_of_runChars {run : List Char}
    (h : ∀ c ∈ run, isRunChar c = true) : run.count '\n' = 0 := by
  rw [List.count_eq_zero]
  intro hmem
  exact absurd (h '\n' hmem) (by decide)

/-- A keyword writes itself in front of a text that begins with a mark or a
blank of ASCII. -/
theorem keyword (word : String) {t : Token} {c : Char} {cs : List Char}
    (hword : Token.ofKeyword? word = some t) (htext : text.toList = c :: cs)
    (hc : isRunChar c = false) (hwide : isWideBlank c = false)
    (h : Writes text ts) : Writes (word ++ text) (t :: ts) := by
  intro line rest
  obtain ⟨hne, hrun⟩ := keyword_runChars hword
  obtain ⟨ls, hls, hlexemes⟩ := h line rest
  have hhead : (text.toList ++ rest).head? = some c := by
    rw [htext]
    rfl
  have htoken : Token.ofRun word.toList (some c) = t := by
    rw [Token.ofRun, String.ofList_toList, hword]
    simp [hwide]
  have hrest : ∀ c ∈ (text.toList ++ rest).head?, isRunChar c = false := by
    rw [hhead]
    rintro _ ⟨⟩
    exact hc
  refine ⟨⟨t, line⟩ :: ls, by rw [tokensOf_cons, hls], ?_⟩
  rw [String.toList_append, List.append_assoc, lexemes_run line hne hrun hrest,
    hhead, htoken, hlexemes, List.count_append,
    count_lineFeed_of_runChars hrun, Nat.zero_add]
  rfl

end Writes

end RobotScript
