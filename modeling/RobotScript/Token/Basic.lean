import RobotScript.Action
import RobotScript.Text.Blank

/-!
# Tokens

The words of the language.  Besides keywords and marks a token may be a
numeral or any other word; the grammar has no place for those, but they are
tokens so that an error can show them.

The words of the keywords stand here once more, because they are part of how a
script is written; `Token.text_action` and `Token.ofKeyword?_eq` say that they
are the keywords of the actions.

`Token.ofRun` classifies a maximal run of characters that are neither blanks
nor marks.  It is given the character after the run as well, because a keyword
directly before a blank outside ASCII is read as an ordinary word.
-/

namespace RobotScript

/-- One word of a script. -/
inductive Token where
  /-- The keyword `loop`. -/
  | loop
  /-- The keyword of an action. -/
  | action (a : Action)
  | openBrace
  | closeBrace
  | openParen
  | closeParen
  | comma
  | semicolon
  /-- A decimal numeral, with its sign if it has one. -/
  | number (text : String)
  /-- Any other word. -/
  | word (text : String)
  /-- A blank.  Scripts are split at blanks, so none of their tokens is one;
  a sequence of tokens put together by hand may hold it. -/
  | blank
  deriving DecidableEq, Repr

/-- Whether the characters are a decimal numeral: digits of ASCII, at least
one, behind at most one minus sign. -/
def isNumeral : List Char → Bool
  | '-' :: digits => !digits.isEmpty && digits.all Char.isDigit
  | digits => !digits.isEmpty && digits.all Char.isDigit

namespace Token

/-- The token as it is written. -/
def text : Token → String
  | .loop => "loop"
  | .action .move => "move"
  | .action .turnLeft => "turnL"
  | .action .turnRight => "turnR"
  | .action .takeFuel => "takeFuel"
  | .action .wait => "wait"
  | .openBrace => "\x7b"
  | .closeBrace => "\x7d"
  | .openParen => "("
  | .closeParen => ")"
  | .comma => ","
  | .semicolon => ";"
  | .number text => text
  | .word text => text
  | .blank => " "

/-- The token of a mark: a character that is a token by itself and ends the
word before it. -/
def ofMark? : Char → Option Token
  | '{' => some .openBrace
  | '}' => some .closeBrace
  | '(' => some .openParen
  | ')' => some .closeParen
  | ',' => some .comma
  | ';' => some .semicolon
  | _ => none

/-- The token of a keyword. -/
def ofKeyword? : String → Option Token
  | "loop" => some .loop
  | "move" => some (.action .move)
  | "turnL" => some (.action .turnLeft)
  | "turnR" => some (.action .turnRight)
  | "takeFuel" => some (.action .takeFuel)
  | "wait" => some (.action .wait)
  | _ => none

/-- The token of a run of characters without blanks and marks, given the
character that ends the run, if any.  A keyword counts as one unless a blank
outside ASCII follows directly. -/
def ofRun (run : List Char) (follow : Option Char) : Token :=
  let word := String.ofList run
  match ofKeyword? word with
  | some keyword => if follow.any isWideBlank then .word word else keyword
  | none => if isNumeral run then .number word else .word word

/-! ## The tables agree -/

/-- The token of an action is written as the action's keyword. -/
@[simp] theorem text_action (a : Action) : (action a).text = a.keyword := by
  cases a <;> rfl

/-- Besides `loop`, the keywords are those of the actions. -/
theorem ofKeyword?_eq (word : String) :
    ofKeyword? word =
      if word = "loop" then some .loop
      else (Action.ofKeyword? word).map .action := by
  unfold ofKeyword?
  split
  · rfl
  · decide
  · decide
  · decide
  · decide
  · decide
  · next hloop hmove hleft hright hfuel hwait =>
    have hnone : Action.ofKeyword? word = none := by
      rw [Action.ofKeyword?, List.find?_eq_none]
      intro a _ heq
      have hword : a.keyword = word := of_decide_eq_true heq
      cases a with
      | move => exact hmove hword.symm
      | turnLeft => exact hleft hword.symm
      | turnRight => exact hright hword.symm
      | takeFuel => exact hfuel hword.symm
      | wait => exact hwait hword.symm
    rw [if_neg hloop, hnone]
    rfl

end Token

end RobotScript
