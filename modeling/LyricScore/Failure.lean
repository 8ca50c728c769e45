import LyricScore.Midi.Error
import LyricScore.Score.Error

/-
  This file defines why a score cannot be drawn or played.

  Key definitions include:
    * `Failure`
    * `Failure.message`
-/

namespace LyricScore

/-
  Why something was not made of a score: the text is no score,
  a number is too long to be read or written, a number is not
  one of MIDI, or a height is beyond the numbers of drawings.
-/
inductive Failure where
  | score (error : ScoreError)
  | numeral (error : NumeralError)
  | midi (error : MidiError)
  | tooHigh
deriving DecidableEq, Repr

namespace Failure

/- The wording of a failure. -/
def message : Failure → String
  | score error => error.message
  | numeral error => error.message
  | midi error => error.message
  | tooHigh => "int too large to convert to float"

end Failure

end LyricScore
