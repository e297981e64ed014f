/-!
# Actions

The five things a script can ask of a robot.  An action is one keyword of the
language, one call on the robot and one step of a run, so everything else in
the library is indexed by this type.
-/

namespace RobotScript

/-- What a robot can be asked to do in one step. -/
inductive Action where
  | move
  | turnLeft
  | turnRight
  | takeFuel
  | wait
  deriving DecidableEq, Repr

namespace Action

/-- Every action, in the order of the keyword table. -/
def all : List Action :=
  [.move, .turnLeft, .turnRight, .takeFuel, .wait]

/-- The word that stands for the action in a script. -/
def keyword : Action → String
  | .move => "move"
  | .turnLeft => "turnL"
  | .turnRight => "turnR"
  | .takeFuel => "takeFuel"
  | .wait => "wait"

/-- The action a word stands for.  Keywords are compared exactly, so neither
another case nor surrounding blanks are accepted. -/
def ofKeyword? (word : String) : Option Action :=
  all.find? (·.keyword = word)

/-- The action as a whole statement: its keyword and the semicolon. -/
def text (a : Action) : String :=
  a.keyword ++ ";"

theorem mem_all (a : Action) : a ∈ all := by
  cases a <;> decide

/-- Looking a keyword up gives its action back. -/
@[simp] theorem ofKeyword?_keyword (a : Action) :
    ofKeyword? a.keyword = some a := by
  cases a <;> decide

/-- No two actions share a keyword. -/
theorem keyword_injective {a b : Action} (h : a.keyword = b.keyword) :
    a = b := by
  have := ofKeyword?_keyword a
  rw [h, ofKeyword?_keyword] at this
  exact (Option.some.inj this).symm

/-- Only an action's own keyword is looked up to it. -/
theorem ofKeyword?_eq_some_iff {word : String} {a : Action} :
    ofKeyword? word = some a ↔ word = a.keyword := by
  constructor
  · intro h
    have hw := List.find?_some h
    exact (of_decide_eq_true hw).symm
  · rintro rfl
    exact ofKeyword?_keyword a

end Action

end RobotScript
