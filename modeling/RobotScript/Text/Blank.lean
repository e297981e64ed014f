/-!
# Blanks

The characters that separate words in a script: those of the property
White_Space.  The table below is complete; the class of the standard library
knows only four of them.

A blank outside ASCII separates words as well, but a keyword directly before
one is not recognised as a keyword, so the two kinds are told apart.
-/

namespace RobotScript

/-- The code points of the white space characters, as inclusive ranges in
ascending order. -/
def blankRanges : List (Nat × Nat) :=
  [(0x0009, 0x000D), (0x0020, 0x0020), (0x0085, 0x0085), (0x00A0, 0x00A0),
   (0x1680, 0x1680), (0x2000, 0x200A), (0x2028, 0x2029), (0x202F, 0x202F),
   (0x205F, 0x205F), (0x3000, 0x3000)]

/-- Whether a character is white space. -/
def isBlank (c : Char) : Bool :=
  blankRanges.any fun (lo, hi) => lo ≤ c.toNat && c.toNat ≤ hi

/-- Whether a character is white space outside ASCII. -/
def isWideBlank (c : Char) : Bool :=
  isBlank c && 0x80 ≤ c.toNat

end RobotScript
