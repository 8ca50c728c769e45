/-
  This file defines quoted text: the form in which a message
  shows a piece of a document.  Single quotes enclose the
  text, or double quotes when it holds a single quote and no
  double quote; control characters and invisible characters
  are written as escapes.

  Key definitions include:
    * `Quoted.invisibleRanges`
    * `Quoted.isInvisible`
    * `Quoted.mark`
    * `Quoted.escape`
    * `Quoted.quote`
-/

namespace LyricScore

namespace Quoted

------------------------------------------------------------
-- Visible characters
------------------------------------------------------------

/-
  The code points of control and format characters and of
  every separator but the plain space.
-/
def invisibleRanges : List (Nat × Nat) :=
  [(0x0, 0x1F), (0x7F, 0xA0), (0xAD, 0xAD), (0x600, 0x605),
    (0x61C, 0x61C), (0x6DD, 0x6DD), (0x70F, 0x70F),
    (0x890, 0x891), (0x8E2, 0x8E2), (0x1680, 0x1680),
    (0x180E, 0x180E), (0x2000, 0x200F), (0x2028, 0x202F),
    (0x205F, 0x2064), (0x2066, 0x206F), (0x3000, 0x3000),
    (0xE000, 0xF8FF), (0xFEFF, 0xFEFF), (0xFFF9, 0xFFFB),
    (0x110BD, 0x110BD), (0x110CD, 0x110CD),
    (0x13430, 0x13438), (0x1BCA0, 0x1BCA3),
    (0x1D173, 0x1D17A), (0xE0001, 0xE0001),
    (0xE0020, 0xE007F), (0xF0000, 0x10FFFF)]

/- A character that a message cannot show as itself. -/
def isInvisible
    (c : Char) : Bool :=
  invisibleRanges.any fun r => r.1 ≤ c.toNat && c.toNat ≤ r.2

------------------------------------------------------------
-- Escapes
------------------------------------------------------------

/-
  The hexadecimal digits of a number, at
  least `width` of them.
-/
def hexadecimal
    (width : Nat)
    (n : Nat) : String :=
  let digits := Nat.toDigits 16 n
  String.ofList
    (List.replicate (width - digits.length) '0' ++ digits)

/-
  The quotation mark around a text: the single one, unless
  the text holds a single and no double one.
-/
def mark
    (text : String) : Char :=
  if text.toList.contains '\'' &&
      !text.toList.contains '"' then
    '"'
  else '\''

/- One character as it stands between two quotation marks. -/
def escape
    (quotation : Char)
    (c : Char) : String :=
  if c = quotation ∨ c = '\\' then String.ofList ['\\', c]
  else if c = '\n' then "\\n"
  else if c = '\r' then "\\r"
  else if c = '\t' then "\\t"
  else if isInvisible c then
    if c.toNat < 0x100 then "\\x" ++ hexadecimal 2 c.toNat
    else if c.toNat < 0x10000 then
      "\\u" ++ hexadecimal 4 c.toNat
    else "\\U" ++ hexadecimal 8 c.toNat
  else String.ofList [c]

/- A text in quotation marks. -/
def quote
    (text : String) : String :=
  let q := mark text
  String.ofList [q] ++
    String.join (text.toList.map (escape q)) ++
    String.ofList [q]

end Quoted

end LyricScore
