/-
  This file defines the parts of a text between separators.
  A text without a separator is its only part.

  Key definitions include:
    * `partsBetween`
-/

namespace LyricScore

------------------------------------------------------------
-- Parts
------------------------------------------------------------

/-
  The parts of a text between separators, of
  which some may be empty.
-/
def partsBetween
    (separator : Char) : List Char → List (List Char)
  | [] => [[]]
  | c :: cs =>
    if c = separator then [] :: partsBetween separator cs
    else
      match partsBetween separator cs with
      | part :: parts => (c :: part) :: parts
      | [] => [[c]]

end LyricScore
