import RobotScript.Text.Numeral

/-!
# Commands

What the words of a command line ask for.  There are two commands with a file,
`parse FILE` and `run FILE`; the latter has two settings, each with a short
and a long name.  The value of a setting may be a word of its own or be attached
to the name (`-s5`, `-s=5`, `--steps=5`).  Settings and the file come in any
order, each at most once, and behind `--` every word is a file.

A word that begins with a minus sign names a setting, the single `-` apart, and
is never taken for the value of the setting before it.
-/

namespace RobotScript

/-- What a command line can ask for. -/
inductive Command where
  /-- Print name and version. -/
  | version
  /-- Print the program in a file in canonical form. -/
  | parse (file : String)
  /-- Run the program in a file for at most `steps` actions, with a tank of
  `fuel` units if given. -/
  | run (file : String) (steps : Nat) (fuel : Option UInt32)
  deriving DecidableEq, Repr

/-- A setting of the command `run`. -/
inductive Setting where
  | steps
  | fuel
  deriving DecidableEq, Repr

/-- The words of a command sorted by what they mean. -/
structure Arguments where
  file : Option String := none
  steps : Option Nat := none
  fuel : Option UInt32 := none
  deriving DecidableEq, Repr

namespace Setting

/-- The setting with a long name. -/
def ofName? (name : List Char) : Option Setting :=
  if String.ofList name = "steps" then some .steps
  else if String.ofList name = "fuel" then some .fuel
  else none

/-- The setting with a short name. -/
def ofLetter? : Char → Option Setting
  | 's' => some .steps
  | 'f' => some .fuel
  | _ => none

/-- A word that names a setting, with the value attached to the name, if any.
A value begins behind an equals sign; a short name needs none. -/
def ofWord? (word : String) : Option (Setting × Option String) :=
  match word.toList with
  | '-' :: '-' :: long =>
    (ofName? (long.takeWhile (· ≠ '='))).map fun setting =>
      match long.dropWhile (· ≠ '=') with
      | [] => (setting, none)
      | _ :: value => (setting, some (String.ofList value))
  | '-' :: letter :: attached =>
    (ofLetter? letter).map fun setting =>
      match attached with
      | [] => (setting, none)
      | '=' :: value => (setting, some (String.ofList value))
      | value => (setting, some (String.ofList value))
  | _ => none

end Setting

/-- Whether a word is a file or a value rather than the name of a setting. -/
def isPlain (word : String) : Bool :=
  word = "-" || !word.startsWith "-"

namespace Arguments

/-- Adds the file.  There is one only, and its name is not empty. -/
def addFile? (given : Arguments) (file : String) : Option Arguments :=
  if given.file.isSome || file.isEmpty then
    none
  else
    some { given with file := some file }

/-- Adds the value of a setting that has none yet.  Steps are a word of 64 bits
without a sign; fuel is a number with or without a sign in the range of 32
bits, so it may be written `-0`. -/
def set? (given : Arguments) : Setting → String → Option Arguments
  | .steps, value =>
    match given.steps, unsigned? value.toList with
    | none, some n =>
      if n < UInt64.size then some { given with steps := some n } else none
    | _, _ => none
  | .fuel, value =>
    match given.fuel, signed? value.toList with
    | none, some i =>
      if 0 ≤ i ∧ i.toNat < UInt32.size then
        some { given with fuel := some (UInt32.ofNat i.toNat) }
      else
        none
    | _, _ => none

/-- Sorts the words of a command, some of them sorted already and perhaps the
last one the name of a setting that waits for its value.  `settings` tells
whether the command has settings. -/
def collect? (settings : Bool) (given : Arguments) :
    Option Setting → List String → Option Arguments
  | none, [] => some given
  | some _, [] => none
  | some setting, value :: rest =>
    if isPlain value then
      match given.set? setting value with
      | some given => collect? settings given none rest
      | none => none
    else
      none
  | none, word :: rest =>
    if word = "--" then
      rest.foldlM addFile? given
    else if isPlain word then
      match given.addFile? word with
      | some given => collect? settings given none rest
      | none => none
    else if settings then
      match Setting.ofWord? word with
      | none => none
      | some (setting, none) => collect? settings given (some setting) rest
      | some (setting, some value) =>
        match given.set? setting value with
        | some given => collect? settings given none rest
        | none => none
    else
      none

end Arguments

namespace Command

/-- The number of actions of a run that is not told another one. -/
def defaultSteps : Nat := 100

/-- The command that the words of a command line ask for; `none` if they do not
make sense.  The version is asked for in place of a command, and whatever comes
behind is not looked at. -/
def ofWords? : List String → Option Command
  | [] => none
  | word :: rest =>
    if word = "parse" then do
      let given ← Arguments.collect? false {} none rest
      return .parse (← given.file)
    else if word = "run" then do
      let given ← Arguments.collect? true {} none rest
      return .run (← given.file) (given.steps.getD defaultSteps) given.fuel
    else if word = "--version" || word.startsWith "-V" then
      some .version
    else
      none

end Command

end RobotScript
