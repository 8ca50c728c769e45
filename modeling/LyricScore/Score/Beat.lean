import LyricScore.Score.Basic
import LyricScore.Text.Numeral

/-
  This file defines the length of a beat.  Digits at the head
  of the first syllable say how many units of time the beat
  lasts.

  Key definitions include:
    * `Beat.scaleDigits`
    * `Beat.scale`
-/

namespace LyricScore

namespace Beat

/-
  The values of the digits, in any script, that stand at the
  head of the first subdivision, if that is a syllable.
-/
def scaleDigits
    (b : Beat) : List Nat :=
  match b.subdivisions with
  | [] => []
  | s :: _ =>
      if s.kind = .syllable then
        DecimalDigit.leading s.text.toList
      else []

/-
  The length of a beat in units: what its
  digits write, or one.
-/
def scale
    (b : Beat) : Except NumeralError Nat :=
  match b.scaleDigits with
  | [] => .ok 1
  | d :: ds => Numeral.ofDigits (d :: ds)

end Beat

end LyricScore
