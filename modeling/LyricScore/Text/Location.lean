/-
  This file defines places in a score text.

  Key definitions include:
    * `Location`
-/

namespace LyricScore

/-
  A line and a column, both counted from one.  Zero
  stands for a place that is not known, so a score that
  no text was read for has a location of its own; such
  scores may hold any numbers.
-/
structure Location where
  line : Int := 0
  column : Int := 0
deriving DecidableEq, Repr, Inhabited

end LyricScore
