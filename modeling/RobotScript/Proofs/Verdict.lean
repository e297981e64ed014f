import RobotScript.Proofs.Diagnostics

/-!
# The tokens decide

Whether a script can be read, as what, and where it fails, depends on its
tokens alone.  Their lines only tell on which line the error is reported.

`Draft.read` reads a list of tokens to its end.  It gives the program, or the
fault and the number of tokens that are left behind it.  These two are all that
is needed to put the error together, `errorAt`: the tokens that are left are
shown, and the line is that of the first of them.

## Main results

* `Draft.read_append` — tokens that are taken can be read first.
* `Draft.left_le_length` — no more tokens are left than there are.
* `program_eq_read`, `parse_eq_read` — reading a script is reading its tokens.
-/

namespace RobotScript

open Reading

namespace Draft

/-- What becomes of a draft and the tokens behind it: the program, or what is
wrong and the number of tokens that are left.  The brace of a block too many is
not among them, any other token that cannot come next is. -/
def read (limit : Nat) (d : Draft) :
    List Token → Except (SyntaxFault × Nat) Program
  | [] =>
    match d.finish with
    | .ok p => .ok p
    | .error fault => .error (fault, 0)
  | t :: ts =>
    match d.push limit t with
    | .ok d => d.read limit ts
    | .error fault =>
      .error (fault,
        if fault = .tooDeep limit then ts.length else ts.length + 1)

/-- Tokens that are taken can be read first. -/
theorem read_append {limit : Nat} {d d' : Draft} {ts : List Token}
    (h : d.extend limit ts = .ok d') (us : List Token) :
    d.read limit (ts ++ us) = d'.read limit us := by
  induction ts generalizing d with
  | nil =>
      cases h
      rfl
  | cons t ts ih =>
      rw [List.cons_append]
      simp only [extend] at h
      split at h
      · next hpush =>
        simp only [read, hpush]
        exact ih h
      · cases h

/-- No more tokens are left than there are. -/
theorem left_le_length {limit : Nat} {d : Draft} {ts : List Token}
    {fault : SyntaxFault} {left : Nat}
    (h : d.read limit ts = .error (fault, left)) : left ≤ ts.length := by
  induction ts generalizing d with
  | nil =>
      simp only [read] at h
      split at h
      · cases h
      · cases h
        exact Nat.le_refl 0
  | cons t ts ih =>
      simp only [read] at h
      rw [List.length_cons]
      split at h
      · have := ih h
        omega
      · cases h
        split <;> omega

end Draft

/-- The error for a fault behind which so many lexemes of a script are left. -/
def errorAt (ls : List Lexeme) (fault : SyntaxFault) (left : Nat) :
    SyntaxError :=
  let rest := ls.drop (ls.length - left)
  { fault
    context := " ".intercalate ((rest.take contextLength).map (·.token.text))
    line := (rest.head?.or ls.getLast?).elim 1 (·.line) }

/-- Where a reading stops, the tokens are read no further. -/
theorem Stops.read {d : Draft} {line : Nat} {rest : List Lexeme}
    {fault : SyntaxFault} {c : Cursor} (h : Stops d line rest fault c) :
    d.read maxDepth (tokensOf rest) = .error (fault, c.rest.length) := by
  cases h with
  | refuse hpush hne => simp [Draft.read, hpush, hne, tokensOf]
  | overflow hpush => simp [Draft.read, hpush, tokensOf]
  | breakOff hfinish => simp [Draft.read, hfinish]

/-- What is reported where a reading stops can be told from what is left. -/
theorem Stops.error_eq {d : Draft} {used rest : List Lexeme}
    {fault : SyntaxFault} {c : Cursor}
    (h : Stops d (lineBehind 1 used) rest fault c) :
    c.error fault = errorAt (used ++ rest) fault c.rest.length := by
  have hrest : (used ++ rest).drop
      ((used ++ rest).length - c.rest.length) = c.rest := by
    cases h with
    | refuse => simp
    | @overflow l rest _ =>
        show (used ++ l :: rest).drop ((used ++ l :: rest).length -
          rest.length) = rest
        rw [List.append_cons, List.length_append, Nat.add_sub_cancel,
          List.drop_left]
    | breakOff => simp
  rw [errorAt, hrest, ← h.currentLine]
  rfl

/-- **Reading lexemes is reading their tokens.** -/
theorem program_eq_read (ls : List Lexeme) :
    match program { rest := ls } with
    | .ok p _ => Draft.blank.read maxDepth (tokensOf ls) = .ok p
    | .error e _ => ∃ fault left,
        Draft.blank.read maxDepth (tokensOf ls) = .error (fault, left) ∧
          e = errorAt ls fault left := by
  have hreads := program_reads ls
  cases h : program { rest := ls } with
  | ok p c =>
      rw [h] at hreads
      obtain ⟨used, hused, _, hextend⟩ := hreads.extend_of_ok
      rw [program_rest h, List.append_nil] at hused
      have hread := Draft.read_append hextend []
      rw [List.append_nil] at hread
      show Draft.blank.read maxDepth (tokensOf ls) = .ok p
      rw [hused, hread, Draft.read, Draft.finish_eq_ok_iff.2 rfl]
  | error e c =>
      rw [h] at hreads
      obtain ⟨used, rest, d, rfl, hextend, hstops, he⟩ := hreads.stops_of_error
      refine ⟨e.fault, c.rest.length, ?_, he.trans hstops.error_eq⟩
      rw [tokensOf_append, Draft.read_append hextend, hstops.read]

/-- **Reading a text is reading its tokens.** -/
theorem parse_eq_read (source : String) :
    Program.parse source =
      match Draft.blank.read maxDepth (tokensOf (Lexeme.split source)) with
      | .ok p => .ok p
      | .error (fault, left) =>
        .error (errorAt (Lexeme.split source) fault left) := by
  have h := program_eq_read (Lexeme.split source)
  rw [Program.parse, Cursor.ofSource]
  cases hprogram : program { rest := Lexeme.split source } with
  | ok p c =>
      rw [hprogram] at h
      simp only [h]
  | error e c =>
      rw [hprogram] at h
      obtain ⟨fault, left, hread, rfl⟩ := h
      simp only [hread]

end RobotScript
