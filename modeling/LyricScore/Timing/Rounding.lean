/-
  This file defines how exact times become whole numbers.

  Key definitions include:
    * `roundHalfEven`
    * `roundHalfUp`
-/

namespace LyricScore

/-
  The nearest whole number; of two equally near the even one.
-/
def roundHalfEven
    (q : Rat) : Int :=
  let below := q.floor
  let part := q - below
  if part < 1 / 2 then below
  else if 1 / 2 < part then below + 1
  else if below % 2 = 0 then below
  else below + 1

/-
  The nearest whole number; of two equally near the greater.
-/
def roundHalfUp
    (q : Rat) : Int :=
  (q + 1 / 2).floor

end LyricScore
