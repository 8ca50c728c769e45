/-
  This file defines how numbers become floating-point numbers:
  the nearest one is taken, of two the one with an even
  significand.

  Key definitions include:
    * `Real64.ofNat`
    * `Real64.ofInt?`
    * `Real64.ofDecimal`
-/

namespace LyricScore

namespace Real64

/-
  The nearest floating-point number.  A number of more than
  63 bits is cut to its first 63; the last of these records
  whether anything but zeros was cut, so no tie is lost.
-/
def ofNat
    (n : Nat) : Float :=
  if n < 0x8000000000000000 then n.toUInt64.toFloat
  else
    let cut := n.log2 - 62
    let head := n >>> cut
    let kept := if (head <<< cut) = n then head else head ||| 1
    Float.scaleB kept.toUInt64.toFloat cut

/-
  The least number that is rounded beyond every finite
  floating-point number.
-/
def bound : Nat :=
  Nat.pow 2 1024 - Nat.pow 2 970

/- The nearest floating-point number, if a finite one is. -/
def ofInt?
    (n : Int) : Option Float :=
  if n.natAbs < bound then
    some
      (if n < 0 then -(ofNat n.natAbs) else ofNat n.natAbs)
  else none

/-
  The number that `digits` write, with a point before the
  last `places`.
-/
def ofDecimal
    (digits : Nat)
    (places : Nat) : Float :=
  Float.ofScientific digits true places

end Real64

end LyricScore
