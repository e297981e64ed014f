import RobotScript.Proofs.Lexing

/-!
# How tokens are spelled

Splitting classifies characters by `Token.ofMark?` and `isBlank`, and runs of
characters by `Token.ofRun`.  Here the same is said without these functions, in
the words of the language: which characters are marks, which words are
keywords, what a numeral is, and which token a run of characters is.

A run is a numeral or not, whatever follows it.  Only for keywords does the
character behind the run matter, so `Token.ofRun` is described by three
equivalences, one for each kind of token that a run can be.

## Main results

* `isRunChar_iff`, `isNumeral_iff`, `Token.ofMark?_eq_some_iff`,
  `Token.ofKeyword?_eq_some_iff` — the classes.
* `Token.text_ofRun` — a run is written as it is read.
* `Token.ofRun_eq_keyword_iff`, `Token.ofRun_eq_number_iff`,
  `Token.ofRun_eq_word_iff` — the kinds of run.
-/

namespace RobotScript

/-! ## Characters -/

/-- The characters that are tokens by themselves. -/
def marks : List Char :=
  ['{', '}', '(', ')', ',', ';']

theorem ofMark?_eq_none_iff {c : Char} :
    Token.ofMark? c = none ↔ c ∉ marks := by
  constructor
  · intro h hmem
    simp only [marks, List.mem_cons, List.not_mem_nil, or_false] at hmem
    rcases hmem with rfl | rfl | rfl | rfl | rfl | rfl <;> cases h
  · intro h
    rw [Token.ofMark?.eq_def]
    split <;> first | rfl | exact absurd (by decide) h

theorem mem_marks_of_ofMark? {c : Char} {t : Token}
    (h : Token.ofMark? c = some t) : c ∈ marks := by
  apply Decidable.byContradiction
  intro hnot
  rw [ofMark?_eq_none_iff.2 hnot] at h
  cases h

theorem isBlank_of_mem_marks {c : Char} (h : c ∈ marks) :
    isBlank c = false := by
  have hall : marks.all (!isBlank ·) = true := by decide
  simpa using List.all_eq_true.1 hall c h

/-- A character belongs to a run if it is neither white space nor a mark. -/
theorem isRunChar_iff {c : Char} :
    isRunChar c = true ↔ isBlank c = false ∧ c ∉ marks := by
  rw [isRunChar, Bool.and_eq_true, Option.isNone_iff_eq_none,
    ofMark?_eq_none_iff, Bool.not_eq_true', and_comm]

theorem isRunChar_eq_false_iff {c : Char} :
    isRunChar c = false ↔ isBlank c = true ∨ c ∈ marks := by
  rw [← Bool.not_eq_true, isRunChar_iff]
  cases isBlank c with
  | true => simp
  | false => simp

theorem isRunChar_of_digit {c : Char} (h : '0' ≤ c ∧ c ≤ '9') :
    isRunChar c = true := by
  rw [isRunChar_iff]
  constructor
  · simp only [Char.le_def, UInt32.le_iff_toNat_le] at h
    have hlow : 48 ≤ c.toNat := h.1
    have hhigh : c.toNat ≤ 57 := h.2
    simp only [isBlank, blankRanges, List.any_cons, List.any_nil,
      Bool.or_false, Bool.or_eq_false_iff, Bool.and_eq_false_iff,
      decide_eq_false_iff_not]
    omega
  · intro hmem
    simp only [marks, List.mem_cons, List.not_mem_nil, or_false] at hmem
    rcases hmem with rfl | rfl | rfl | rfl | rfl | rfl <;>
      exact absurd h (by decide)

/-! ## Words -/

/-- The words that are not free for other uses. -/
def keywords : List String :=
  "loop" :: Action.all.map Action.keyword

/-- Whether the characters are digits of ASCII, at least one, behind at most
one minus sign. -/
def IsNumeral (word : List Char) : Prop :=
  ∃ digits, digits ≠ [] ∧ (∀ c ∈ digits, '0' ≤ c ∧ c ≤ '9') ∧
    (word = digits ∨ word = '-' :: digits)

theorem all_isDigit_iff {digits : List Char} :
    (!digits.isEmpty && digits.all Char.isDigit) = true ↔
      digits ≠ [] ∧ ∀ c ∈ digits, '0' ≤ c ∧ c ≤ '9' := by
  simp [Char.isDigit, Char.le_def]

theorem isNumeral_iff {word : List Char} :
    isNumeral word = true ↔ IsNumeral word := by
  rw [isNumeral.eq_def]
  split
  · next digits =>
    rw [all_isDigit_iff]
    constructor
    · rintro ⟨hne, hdigits⟩
      exact ⟨digits, hne, hdigits, .inr rfl⟩
    · rintro ⟨digits', hne, hdigits, heq | heq⟩
      · -- The minus sign is no digit.
        subst heq
        have hminus := hdigits '-' List.mem_cons_self
        exact absurd hminus (by decide)
      · cases heq
        exact ⟨hne, hdigits⟩
  · next hminus =>
    rw [all_isDigit_iff]
    constructor
    · rintro ⟨hne, hdigits⟩
      exact ⟨word, hne, hdigits, .inl rfl⟩
    · rintro ⟨digits', hne, hdigits, heq | heq⟩
      · rw [heq]
        exact ⟨hne, hdigits⟩
      · exact absurd heq (hminus digits')

/-- A numeral is a run. -/
theorem IsNumeral.runChars {word : List Char} (h : IsNumeral word) :
    word ≠ [] ∧ ∀ c ∈ word, isRunChar c = true := by
  obtain ⟨digits, hne, hdigits, rfl | rfl⟩ := h
  · exact ⟨hne, fun c hc => isRunChar_of_digit (hdigits c hc)⟩
  · refine ⟨nofun, ?_⟩
    intro c hc
    rcases List.mem_cons.1 hc with rfl | hc
    · decide
    · exact isRunChar_of_digit (hdigits c hc)

instance : DecidablePred IsNumeral := fun _ =>
  decidable_of_iff _ isNumeral_iff

namespace Token

/-! ## Kinds of token -/

/-- Whether the token is a keyword. -/
def isKeyword : Token → Bool
  | .loop => true
  | .action _ => true
  | _ => false

/-- Whether the token is a mark. -/
def isMark : Token → Bool
  | .openBrace => true
  | .closeBrace => true
  | .openParen => true
  | .closeParen => true
  | .comma => true
  | .semicolon => true
  | _ => false

theorem eq_of_isKeyword {t : Token} (h : t.isKeyword = true) :
    t = .loop ∨ ∃ a, t = .action a := by
  cases t <;> cases h
  · exact .inl rfl
  · next a => exact .inr ⟨a, rfl⟩

/-- A mark is the token that is written as this one character. -/
theorem ofMark?_eq_some_iff {c : Char} {t : Token} :
    ofMark? c = some t ↔ t.isMark = true ∧ t.text.toList = [c] := by
  constructor
  · intro h
    rw [ofMark?.eq_def] at h
    split at h <;> cases h <;> decide
  · rintro ⟨hmark, htext⟩
    cases t <;> cases hmark <;> cases htext <;> rfl

/-- A keyword is the token that is written as this word. -/
theorem ofKeyword?_eq_some_iff {word : String} {t : Token} :
    ofKeyword? word = some t ↔ t.isKeyword = true ∧ t.text = word := by
  constructor
  · intro h
    rw [ofKeyword?_eq] at h
    split at h
    · next hloop =>
      cases h
      exact ⟨rfl, hloop.symm⟩
    · obtain ⟨a, ha, rfl⟩ := Option.map_eq_some_iff.1 h
      rw [text_action]
      exact ⟨rfl, (Action.ofKeyword?_eq_some_iff.1 ha).symm⟩
  · rintro ⟨hkeyword, rfl⟩
    rcases eq_of_isKeyword hkeyword with rfl | ⟨a, rfl⟩
    · rfl
    · cases a <;> rfl

theorem ofKeyword?_eq_none_iff {word : String} :
    ofKeyword? word = none ↔ word ∉ keywords := by
  constructor
  · intro h hmem
    rcases List.mem_cons.1 hmem with rfl | hmem
    · cases h
    · obtain ⟨a, _, rfl⟩ := List.mem_map.1 hmem
      cases a <;> cases h
  · intro h
    rw [Option.eq_none_iff_forall_ne_some]
    intro t ht
    obtain ⟨hkeyword, rfl⟩ := ofKeyword?_eq_some_iff.1 ht
    apply h
    rcases eq_of_isKeyword hkeyword with rfl | ⟨a, rfl⟩
    · exact List.mem_cons_self
    · rw [text_action]
      exact List.mem_cons_of_mem _ (List.mem_map_of_mem (Action.mem_all a))

/-- No keyword is a numeral. -/
theorem not_isNumeral_of_mem_keywords {word : String} (h : word ∈ keywords) :
    ¬IsNumeral word.toList := by
  have hall : ∀ word ∈ keywords, isNumeral word.toList = false := by decide
  rw [← isNumeral_iff, hall word h]
  exact Bool.false_ne_true

/-! ## Runs -/

/-- **A run is written as it is read.** -/
theorem text_ofRun (run : List Char) (follow : Option Char) :
    (ofRun run follow).text = String.ofList run := by
  simp only [ofRun]
  split
  · next keyword hkeyword =>
    split
    · rfl
    · exact (ofKeyword?_eq_some_iff.1 hkeyword).2
  · split
    · rfl
    · rfl

/-- A run is a keyword if it is spelled as one and no white space outside ASCII
follows. -/
theorem ofRun_eq_keyword_iff {run : List Char} {follow : Option Char}
    {t : Token} (ht : t.isKeyword = true) :
    ofRun run follow = t ↔
      t.text = String.ofList run ∧ ∀ c ∈ follow, isWideBlank c = false := by
  constructor
  · intro h
    refine ⟨by rw [← h, text_ofRun], ?_⟩
    simp only [ofRun] at h
    split at h
    · split at h
      · rw [← h] at ht
        cases ht
      · next hwide =>
        exact (Option.any_eq_false _ _).1 (eq_false_of_ne_true hwide)
    · split at h <;> rw [← h] at ht <;> cases ht
  · rintro ⟨htext, hfollow⟩
    have hkeyword : ofKeyword? (String.ofList run) = some t :=
      ofKeyword?_eq_some_iff.2 ⟨ht, htext⟩
    have hwide : follow.any isWideBlank = false :=
      (Option.any_eq_false _ _).2 hfollow
    simp only [ofRun, hkeyword, hwide]
    rfl

/-- A run is a number exactly if it is a numeral. -/
theorem ofRun_eq_number_iff {run : List Char} {follow : Option Char}
    {word : String} :
    ofRun run follow = .number word ↔
      word = String.ofList run ∧ IsNumeral run := by
  constructor
  · intro h
    refine ⟨by rw [← text_ofRun run follow, h]; rfl, ?_⟩
    simp only [ofRun] at h
    split at h
    · next keyword hkeyword =>
      split at h
      · cases h
      · rw [h] at hkeyword
        cases (ofKeyword?_eq_some_iff.1 hkeyword).1
    · split at h
      · next hnumeral => exact isNumeral_iff.1 hnumeral
      · cases h
  · rintro ⟨rfl, hnumeral⟩
    have hkeyword : ofKeyword? (String.ofList run) = none := by
      rw [ofKeyword?_eq_none_iff]
      intro hmem
      have hnot := not_isNumeral_of_mem_keywords hmem
      rw [String.toList_ofList] at hnot
      exact hnot hnumeral
    simp only [ofRun, hkeyword, isNumeral_iff.2 hnumeral, if_true]

/-- A run is an ordinary word if it is no numeral and, should it be spelled as
a keyword, white space outside ASCII follows. -/
theorem ofRun_eq_word_iff {run : List Char} {follow : Option Char}
    {word : String} :
    ofRun run follow = .word word ↔
      word = String.ofList run ∧ ¬IsNumeral run ∧
        (word ∈ keywords → ∃ c ∈ follow, isWideBlank c = true) := by
  constructor
  · intro h
    have hword : word = String.ofList run := by
      rw [← text_ofRun run follow, h]
      rfl
    refine ⟨hword, ?_, ?_⟩
    · intro hnumeral
      rw [ofRun_eq_number_iff.2 ⟨rfl, hnumeral⟩] at h
      cases h
    · intro hmem
      rw [hword] at hmem
      simp only [ofRun] at h
      split at h
      · next keyword hkeyword =>
        split at h
        · next hwide => exact (Option.any_eq_true _ _).1 hwide
        · rw [h] at hkeyword
          cases (ofKeyword?_eq_some_iff.1 hkeyword).1
      · next hnone => exact absurd hmem (ofKeyword?_eq_none_iff.1 hnone)
  · rintro ⟨rfl, hnumeral, hfollow⟩
    simp only [ofRun]
    split
    · next keyword hkeyword =>
      have hmem : String.ofList run ∈ keywords := by
        apply Decidable.byContradiction
        intro hnot
        rw [ofKeyword?_eq_none_iff.2 hnot] at hkeyword
        cases hkeyword
      have hwide : follow.any isWideBlank = true :=
        (Option.any_eq_true _ _).2 (hfollow hmem)
      rw [if_pos hwide]
    · rw [if_neg (fun h => hnumeral (isNumeral_iff.1 h))]

end Token

end RobotScript
