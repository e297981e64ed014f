import RobotScript.Proofs.Spelling

/-!
# Laying out tokens

A list of tokens can be written down in many ways: any white space may stand
before, between and behind them.  Splitting gives the tokens back whatever the
layout, as long as no two of them run together and no keyword stands directly
before a white space character outside ASCII.

A layout is given as the white space in front and, for every token, the white
space behind it.  The proof goes through the tokens from the front, with the
characters behind the present one in view: they begin with white space, with a
mark, or not at all, so a run ends where its token ends.

## Main results

* `Token.WellFormed.ofRun` — a well-formed token is what its text is read as.
* `lexemes_layOut` — splitting a layout that begins on any line.
* `split_layOut` — splitting undoes laying out.
-/

namespace RobotScript

open Lexeme

/-! ## Well-formed tokens -/

namespace Token

/-- Whether a token is one that a text can be split into. -/
def WellFormed : Token → Prop
  | .number text => IsNumeral text.toList
  | .word text =>
    text ≠ "" ∧ (∀ c ∈ text.toList, isBlank c = false ∧ c ∉ marks) ∧
      text ∉ keywords ∧ ¬IsNumeral text.toList
  | .blank => False
  | _ => True

instance : DecidablePred WellFormed
  | .number text => inferInstanceAs (Decidable (IsNumeral text.toList))
  | .word text =>
    have := List.decidableBAll (fun c => isBlank c = false ∧ c ∉ marks)
      text.toList
    inferInstanceAs (Decidable (text ≠ "" ∧
      (∀ c ∈ text.toList, isBlank c = false ∧ c ∉ marks) ∧
      text ∉ keywords ∧ ¬IsNumeral text.toList))
  | .blank => inferInstanceAs (Decidable False)
  | .loop | .action _ | .openBrace | .closeBrace | .openParen | .closeParen
  | .comma | .semicolon => inferInstanceAs (Decidable True)

theorem ofKeyword?_text {t : Token} (h : t.isKeyword = true) :
    ofKeyword? t.text = some t :=
  ofKeyword?_eq_some_iff.2 ⟨h, rfl⟩

/-- The text of a well-formed token other than a mark is a run. -/
theorem WellFormed.runChars {t : Token} (h : t.WellFormed)
    (hmark : t.isMark = false) :
    t.text.toList ≠ [] ∧ ∀ c ∈ t.text.toList, isRunChar c = true := by
  cases t with
  | loop => exact Writes.keyword_runChars (ofKeyword?_text rfl)
  | action a => exact Writes.keyword_runChars (ofKeyword?_text rfl)
  | number text => exact IsNumeral.runChars h
  | word text =>
      obtain ⟨hne, hchars, _, _⟩ := h
      refine ⟨fun hnil => hne (String.toList_eq_nil_iff.1 hnil), ?_⟩
      intro c hc
      exact isRunChar_iff.2 (hchars c hc)
  | blank => cases h
  | _ => cases hmark

/-- **A well-formed token is what its text is read as**, provided that no white
space outside ASCII follows a keyword. -/
theorem WellFormed.ofRun {t : Token} (h : t.WellFormed)
    (hmark : t.isMark = false) {follow : Option Char}
    (hfollow : t.isKeyword = true → ∀ c ∈ follow, isWideBlank c = false) :
    ofRun t.text.toList follow = t := by
  have htext : t.text = String.ofList t.text.toList :=
    String.ofList_toList.symm
  cases t with
  | loop => exact (ofRun_eq_keyword_iff rfl).2 ⟨htext, hfollow rfl⟩
  | action a => exact (ofRun_eq_keyword_iff rfl).2 ⟨htext, hfollow rfl⟩
  | number text => exact ofRun_eq_number_iff.2 ⟨htext, h⟩
  | word text =>
      obtain ⟨_, _, hkeyword, hnumeral⟩ := h
      exact ofRun_eq_word_iff.2
        ⟨htext, hnumeral, fun hmem => absurd hmem hkeyword⟩
  | blank => cases h
  | _ => cases hmark

end Token

/-! ## Layouts -/

/-- The text of tokens with the given gaps behind them. -/
def layOut : List (Token × String) → String
  | [] => ""
  | (t, gap) :: rest => t.text ++ gap ++ layOut rest

/-- Whether well-formed tokens with these gaps behind them keep apart: gaps are
white space, there is one between two tokens of which neither is a mark, and
that behind a keyword does not begin with white space outside ASCII. -/
def KeepsApart : List (Token × String) → Prop
  | [] => True
  | (t, gap) :: rest =>
    t.WellFormed ∧ (∀ c ∈ gap.toList, isBlank c = true) ∧
      (t.isKeyword = true → ∀ c ∈ gap.toList.head?, c.toNat < 0x80) ∧
      (t.isMark = false → ∀ next ∈ rest.head?, next.1.isMark = false →
        gap ≠ "") ∧
      KeepsApart rest

/-- Decides whether tokens keep apart, from the first one on. -/
def KeepsApart.dec : (items : List (Token × String)) →
    Decidable (KeepsApart items)
  | [] => inferInstanceAs (Decidable True)
  | (t, gap) :: rest =>
    have := dec rest
    have := List.decidableBAll (isBlank · = true) gap.toList
    have : Decidable (∀ c ∈ gap.toList.head?, c.toNat < 0x80) :=
      Option.decidableForallMem _
    inferInstanceAs (Decidable (t.WellFormed ∧
      (∀ c ∈ gap.toList, isBlank c = true) ∧
      (t.isKeyword = true → ∀ c ∈ gap.toList.head?, c.toNat < 0x80) ∧
      (t.isMark = false → ∀ next ∈ rest.head?, next.1.isMark = false →
        gap ≠ "") ∧
      KeepsApart rest))

instance : DecidablePred KeepsApart := KeepsApart.dec

theorem toList_layOut_cons (t : Token) (gap : String)
    (rest : List (Token × String)) :
    (layOut ((t, gap) :: rest)).toList =
      t.text.toList ++ (gap.toList ++ (layOut rest).toList) := by
  rw [layOut, String.toList_append, String.toList_append, List.append_assoc]

/-- The one character of a mark. -/
theorem Token.exists_char_of_isMark {t : Token} (h : t.isMark = true) :
    ∃ c, t.text.toList = [c] ∧ Token.ofMark? c = some t := by
  cases t <;> cases h <;> exact ⟨_, rfl, rfl⟩

/-- **What stands behind a token** other than a mark does not go on with its
run, and is no white space outside ASCII behind a keyword. -/
theorem KeepsApart.follow {t : Token} {gap : String}
    {rest : List (Token × String)} (h : KeepsApart ((t, gap) :: rest))
    (hmark : t.isMark = false) :
    ∀ c ∈ (gap.toList ++ (layOut rest).toList).head?,
      isRunChar c = false ∧ (t.isKeyword = true → isWideBlank c = false) := by
  obtain ⟨_, hblanks, hascii, hapart, _⟩ := h
  intro c hc
  cases hgap : gap.toList with
  | cons d gap' =>
      rw [hgap] at hblanks hascii hc
      cases hc
      refine ⟨isRunChar_eq_false_iff.2 (.inl (hblanks c List.mem_cons_self)), ?_⟩
      intro hkeyword
      have hsmall : c.toNat < 0x80 := hascii hkeyword c rfl
      rw [isWideBlank, decide_eq_false (by omega), Bool.and_false]
  | nil =>
      -- Without a gap the next token has to be a mark.
      rw [hgap, List.nil_append] at hc
      cases rest with
      | nil => cases hc
      | cons next rest =>
          obtain ⟨u, gap'⟩ := next
          have hu : u.isMark = true := by
            apply eq_true_of_ne_false
            intro hu
            exact hapart hmark (u, gap') rfl hu (String.toList_eq_nil_iff.1 hgap)
          obtain ⟨d, htext, hd⟩ := u.exists_char_of_isMark hu
          rw [toList_layOut_cons, htext] at hc
          cases hc
          have hmem := mem_marks_of_ofMark? hd
          refine ⟨isRunChar_eq_false_iff.2 (.inr hmem), fun _ => ?_⟩
          rw [isWideBlank, isBlank_of_mem_marks hmem, Bool.false_and]

/-! ## Splitting -/

/-- The first token of a layout. -/
theorem KeepsApart.lexemes_cons {t : Token} {gap : String}
    {rest : List (Token × String)} (h : KeepsApart ((t, gap) :: rest))
    (line : Nat) :
    lexemes line (layOut ((t, gap) :: rest)).toList =
      ⟨t, line⟩ :: lexemes (line + gap.toList.count '\n') (layOut rest).toList := by
  have hgap : lexemes line (gap.toList ++ (layOut rest).toList) =
      lexemes (line + gap.toList.count '\n') (layOut rest).toList :=
    lexemes_blanks line h.2.1 _
  rw [toList_layOut_cons, ← hgap]
  cases hmark : t.isMark with
  | true =>
      obtain ⟨c, htext, hc⟩ := t.exists_char_of_isMark hmark
      rw [htext]
      exact lexemes_mark line hc _
  | false =>
      obtain ⟨hne, hrun⟩ := h.1.runChars hmark
      have hfollow := h.follow hmark
      rw [lexemes_run line hne hrun (fun c hc => (hfollow c hc).1),
        h.1.ofRun hmark (fun hkeyword c hc => (hfollow c hc).2 hkeyword)]

/-- **Splitting a layout** that begins on any line gives its tokens back. -/
theorem lexemes_layOut {items : List (Token × String)} (h : KeepsApart items)
    (line : Nat) :
    lexemes line (layOut items).toList =
      items.mapIdx fun i item =>
        ⟨item.1,
          line + ((items.take i).flatMap (·.2.toList)).count '\n'⟩ := by
  induction items generalizing line with
  | nil => rfl
  | cons item rest ih =>
      obtain ⟨t, gap⟩ := item
      rw [h.lexemes_cons, ih h.2.2.2.2, List.mapIdx_cons]
      simp only [List.take_zero, List.flatMap_nil, List.count_nil,
        Nat.add_zero, List.take_succ_cons, List.flatMap_cons,
        List.count_append, Nat.add_assoc]

/-- **Splitting undoes laying out**, for every list of well-formed tokens and
all white space before, between and behind them that keeps them apart.  The
line of a token is 1 more than the line feeds in the white space before it. -/
theorem split_layOut (lead : String) (items : List (Token × String))
    (hlead : ∀ c ∈ lead.toList, isBlank c = true) (h : KeepsApart items) :
    split (lead ++ layOut items) =
      items.mapIdx fun i item =>
        ⟨item.1, 1 + (lead.toList ++
          (items.take i).flatMap (·.2.toList)).count '\n'⟩ := by
  rw [split_eq, String.toList_append, lexemes_blanks 1 hlead,
    lexemes_layOut h]
  simp only [List.count_append, Nat.add_assoc]

/-- White space outside ASCII in front, inside a gap and behind a number, marks
without a gap, and words that only begin as a keyword or a numeral. -/
theorem split_layOut_glued :
    let items : List (Token × String) :=
      [(.loop, " \u00a0\n"), (.openBrace, ""), (.action .move, ""),
        (.semicolon, ""), (.number "-3", "\u2003"), (.word "loopy", "\n\t"),
        (.word "12ab", ""), (.closeBrace, "\u2028")]
    "\u3000\n" ++ layOut items =
        "\u3000\nloop \u00a0\n\x7bmove;-3\u2003loopy\n\t12ab\x7d\u2028" ∧
      split ("\u3000\n" ++ layOut items) =
        [⟨.loop, 2⟩, ⟨.openBrace, 3⟩, ⟨.action .move, 3⟩, ⟨.semicolon, 3⟩,
          ⟨.number "-3", 3⟩, ⟨.word "loopy", 3⟩, ⟨.word "12ab", 4⟩,
          ⟨.closeBrace, 4⟩] := by
  intro items
  have hlead : "\u3000\n".toList.all isBlank = true := by decide
  have hsplit := split_layOut "\u3000\n" items (List.all_eq_true.1 hlead)
    (by decide)
  exact ⟨by decide, hsplit.trans (by decide)⟩

end RobotScript
