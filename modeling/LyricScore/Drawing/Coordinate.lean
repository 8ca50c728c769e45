import LyricScore.Data.Real

/-
  This file defines the numbers that drawings are made with.
  A drawing is made with floating-point numbers; the same
  rules hold for exact fractions, where nothing is rounded.

  Key definitions include:
    * `Coordinate`
    * `Coordinate.nat`
    * `Coordinate.greater`, `Coordinate.less`
    * `Coordinate.greatest`, `Coordinate.least`
-/

namespace LyricScore

------------------------------------------------------------
-- Numbers of drawings
------------------------------------------------------------

/-
  Numbers that a drawing can be made with: they add
  and multiply, they are written as decimals, whole
  numbers that are not too large are among them, and
  two of them can be compared.
-/
class Coordinate (K : Type) extends Add K, Sub K, Mul K, Div
  K, Neg K where
  ofDecimal : Nat → Nat → K
  ofInt? : Int → Option K
  lt : K → K → Bool
  le : K → K → Bool

instance : Coordinate Float where
  ofDecimal := Real64.ofDecimal
  ofInt? := Real64.ofInt?
  lt a b := a < b
  le a b := a ≤ b

instance : Coordinate Rat where
  ofDecimal digits places := mkRat digits (Nat.pow 10 places)
  ofInt? n := some n
  lt a b := a < b
  le a b := a ≤ b

namespace Coordinate

variable {K : Type} [Coordinate K]

/- A small whole number. -/
def nat
    (n : Nat) : K :=
  ofDecimal n 0

/- The greater of two numbers, the first if neither is. -/
def greater
    (a b : K) : K :=
  if lt a b then b else a

/- The less of two numbers, the first if neither is. -/
def less
    (a b : K) : K :=
  if lt b a then b else a

/-
  The greatest of a number and others, the
  earliest of several.
-/
def greatest
    (a : K)
    (others : List K) : K :=
  others.foldl greater a

/-
  The least of a number and others, the earliest of several.
-/
def least
    (a : K)
    (others : List K) : K :=
  others.foldl less a

end Coordinate

end LyricScore
