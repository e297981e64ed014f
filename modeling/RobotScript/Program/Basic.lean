import RobotScript.Action

/-!
# Programs

A program is a list of statements, and a loop holds a block of statements of
its own.  A block is never empty: a loop stores its first statement apart from
the others, so the type itself excludes `loop { }` and no operation has to
promise it.

Besides the two kinds of statement that a script can spell there is `nop`, a
statement that does nothing.  Reading a script never yields one; programs put
together by other means may hold it anywhere.

The recursive functions come in pairs, one on a statement and one on a list of
statements.  They are plain structural recursions on the tree.
-/

namespace RobotScript

/-- One statement of a program or block. -/
inductive Statement where
  /-- Asks the robot for one action. -/
  | action (a : Action)
  /-- Repeats its block, given as the first statement and the others. -/
  | loop (first : Statement) (rest : List Statement)
  /-- Does nothing. -/
  | nop

/-- A non-empty sequence of statements: what a loop repeats. -/
structure Block where
  first : Statement
  rest : List Statement

/-- A whole script. -/
structure Program where
  statements : List Statement

/-! ## Equality -/

namespace Statement

mutual

/-- Decides equality of two statements. -/
def decEq : (s t : Statement) → Decidable (s = t)
  | .action a, .action b =>
    if h : a = b then isTrue (h ▸ rfl) else isFalse (by simpa using h)
  | .loop s ss, .loop t ts =>
    match decEq s t with
    | isFalse h => isFalse fun e => h (by injection e)
    | isTrue h =>
      match decEqList ss ts with
      | isFalse h' => isFalse fun e => h' (by injection e)
      | isTrue h' => isTrue (by rw [h, h'])
  | .nop, .nop => isTrue rfl
  | .action _, .loop _ _ => isFalse nofun
  | .action _, .nop => isFalse nofun
  | .loop _ _, .action _ => isFalse nofun
  | .loop _ _, .nop => isFalse nofun
  | .nop, .action _ => isFalse nofun
  | .nop, .loop _ _ => isFalse nofun

/-- Decides equality of two lists of statements. -/
def decEqList : (ss ts : List Statement) → Decidable (ss = ts)
  | [], [] => isTrue rfl
  | [], _ :: _ => isFalse nofun
  | _ :: _, [] => isFalse nofun
  | s :: ss, t :: ts =>
    match decEq s t with
    | isFalse h => isFalse fun e => h (by injection e)
    | isTrue h =>
      match decEqList ss ts with
      | isFalse h' => isFalse fun e => h' (by injection e)
      | isTrue h' => isTrue (by rw [h, h'])

end

end Statement

instance : DecidableEq Statement := Statement.decEq

deriving instance DecidableEq for Block, Program

/-! ## Blocks -/

namespace Block

/-- The statements of a block, in order. -/
def toList (b : Block) : List Statement :=
  b.first :: b.rest

/-- The block of the given statements; there is none without a statement. -/
def ofList? : List Statement → Option Block
  | [] => none
  | first :: rest => some ⟨first, rest⟩

@[simp] theorem ofList?_nil : ofList? [] = none := rfl

@[simp] theorem ofList?_toList (b : Block) : ofList? b.toList = some b := rfl

theorem toList_ne_nil (b : Block) : b.toList ≠ [] := nofun

theorem ofList?_eq_some_iff {ss : List Statement} {b : Block} :
    ofList? ss = some b ↔ ss = b.toList := by
  constructor
  · intro h
    cases ss with
    | nil => simp at h
    | cons first rest =>
      obtain rfl : (⟨first, rest⟩ : Block) = b := Option.some.inj h
      rfl
  · rintro rfl
    exact ofList?_toList b

/-- The statement that repeats the block. -/
def looped (b : Block) : Statement :=
  .loop b.first b.rest

end Block

/-! ## Statements -/

namespace Statement

/-- The block of a loop. -/
def block? : Statement → Option Block
  | .loop first rest => some ⟨first, rest⟩
  | .action _ => none
  | .nop => none

@[simp] theorem block?_looped (b : Block) : b.looped.block? = some b := rfl

/-- Whether the statement is a loop. -/
def isLoop : Statement → Bool
  | .loop _ _ => true
  | .action _ => false
  | .nop => false

mutual

/-- The number of actions written in a statement; the actions of a loop count
once each, however often the loop repeats them. -/
def actionCount : Statement → Nat
  | .action _ => 1
  | .loop first rest => first.actionCount + actionCountList rest
  | .nop => 0

/-- The number of actions written in a list of statements. -/
def actionCountList : List Statement → Nat
  | [] => 0
  | s :: rest => s.actionCount + actionCountList rest

end

/-- The statements directly inside a loop; none for the other statements. -/
def children : Statement → List Statement
  | .loop first rest => first :: rest
  | .action _ => []
  | .nop => []

/-- The statement that a path leads to from `s`: each index selects among the
statements directly inside the loop reached so far. -/
def descend? (s : Statement) : List Nat → Option Statement
  | [] => some s
  | i :: path => s.children[i]? >>= fun t => t.descend? path

end Statement

/-- The number of actions written in a block. -/
def Block.actionCount (b : Block) : Nat :=
  Statement.actionCountList b.toList

/-! ## Programs -/

namespace Program

/-- Whether the program has no statement at all. -/
def isEmpty (p : Program) : Bool :=
  p.statements.isEmpty

/-- The number of actions written in the program. -/
def actionCount (p : Program) : Nat :=
  Statement.actionCountList p.statements

/-- Whether the program has a loop.  Loops nest only inside loops, so looking
at the outermost statements is enough. -/
def hasLoop (p : Program) : Bool :=
  p.statements.any (·.isLoop)

/-- The statement that a path leads to.  The first index selects an outermost
statement and each further one a statement inside the loop reached so far; the
empty path leads nowhere. -/
def statementAt? (p : Program) : List Nat → Option Statement
  | [] => none
  | i :: path => p.statements[i]? >>= fun s => s.descend? path

end Program

end RobotScript
