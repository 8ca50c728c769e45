/-
  This file defines blank characters: the white space of every
  script.

  Key definitions include:
    * `Blank.isBlank`
    * `Blank.trim`
-/

namespace LyricScore

namespace Blank

/- The code points of white space. -/
def ranges : List (Nat × Nat) :=
  [(0x9, 0xD), (0x20, 0x20), (0x85, 0x85), (0xA0, 0xA0),
    (0x1680, 0x1680), (0x2000, 0x200A), (0x2028, 0x2029),
    (0x202F, 0x202F), (0x205F, 0x205F), (0x3000, 0x3000)]

/- A blank character. -/
def isBlank
    (c : Char) : Bool :=
  ranges.any fun r => r.1 ≤ c.toNat && c.toNat ≤ r.2

/- A text without the blanks at its head. -/
def trimStart
    (cs : List Char) : List Char :=
  cs.dropWhile isBlank

/- A text without the blanks at both its ends. -/
def trim
    (cs : List Char) : List Char :=
  (trimStart (trimStart cs).reverse).reverse

end Blank

end LyricScore
