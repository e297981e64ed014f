/-!
# Numerals

Decimal numerals as they are given on a command line: digits of ASCII, at
least one, with leading zeros allowed and perhaps a sign in front.  Also the
right-aligned numbers of a numbered list.
-/

namespace RobotScript

/-- The value of a sequence of digits; there is none without a digit. -/
def digits? (cs : List Char) : Option Nat :=
  if !cs.isEmpty && cs.all Char.isDigit then
    some (cs.foldl (fun n c => 10 * n + (c.toNat - '0'.toNat)) 0)
  else
    none

/-- The value of digits behind at most one plus sign. -/
def unsigned? : List Char → Option Nat
  | '+' :: cs => digits? cs
  | cs => digits? cs

/-- The value of digits behind at most one sign. -/
def signed? : List Char → Option Int
  | '-' :: cs => (digits? cs).map fun n => -(n : Int)
  | cs => (unsigned? cs).map fun n => (n : Int)

/-- The text behind as many blanks as make it `width` characters long.  A
longer text stays as it is. -/
def alignRight (width : Nat) (text : String) : String :=
  String.ofList (List.replicate (width - text.length) ' ') ++ text

end RobotScript
