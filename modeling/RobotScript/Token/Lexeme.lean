import RobotScript.Token.Basic

/-!
# Lexemes

A script is split into lexemes: its tokens, each with the line it stands on.
Blanks separate tokens and are dropped; a mark is a token wherever it stands;
what remains between them are maximal runs, classified by `Token.ofRun`.  Every
text has lexemes, so this part of reading never fails.

Lines are counted from 1, and only a line feed begins a new one.  A token holds
no line feed, so it stands on a single line.

The work is one pass over the characters which keeps the run being read, last
character first, and the lexemes found so far, last one first.
-/

namespace RobotScript

/-- A token and the line it stands on. -/
structure Lexeme where
  token : Token
  line : Nat
  deriving DecidableEq, Repr

namespace Lexeme

/-- Adds the lexeme of a finished run to those found so far.  An empty run is
not a lexeme. -/
def addRun (run : List Char) (follow : Option Char) (line : Nat)
    (found : List Lexeme) : List Lexeme :=
  match run with
  | [] => found
  | c :: before => ⟨Token.ofRun (c :: before).reverse follow, line⟩ :: found

/-- The line of the character after `c`, if `c` stands on `line`. -/
def lineAfter (c : Char) (line : Nat) : Nat :=
  if c = '\n' then line + 1 else line

/-- Splits the characters from `line` on, behind an unfinished run and the
lexemes found before it. -/
def splitFrom (line : Nat) (run : List Char) (found : List Lexeme) :
    List Char → List Lexeme
  | [] => (addRun run none line found).reverse
  | c :: rest =>
    match Token.ofMark? c with
    | some mark =>
      splitFrom line [] (⟨mark, line⟩ :: addRun run (some c) line found) rest
    | none =>
      if isBlank c then
        splitFrom (lineAfter c line) [] (addRun run (some c) line found) rest
      else
        splitFrom line (c :: run) found rest

/-- The lexemes of a script, in order. -/
def split (source : String) : List Lexeme :=
  splitFrom 1 [] [] source.toList

end Lexeme

end RobotScript
