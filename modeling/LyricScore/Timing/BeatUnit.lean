import LyricScore.Score.Beat
import LyricScore.Timing.Rounding

/-
  This file defines the note values of beats, and how long
  beats last.  A tempo counts beats of the value in force, so
  a shorter beat at the same tempo lasts as long as a longer
  one.

  Key definitions include:
    * `BeatUnit.lengths`
    * `BeatUnit.quarters`
    * `maxTempo`
    * `microsecondsPerQuarter`
    * `Beat.ticks`
-/

namespace LyricScore

------------------------------------------------------------
-- Note values
------------------------------------------------------------

namespace BeatUnit

/- The codes of note values, and their lengths in quarters. -/
def lengths : List (String × Rat) :=
  [("1", 4), ("1.", 6), ("2", 2), ("2.", 3), ("4", 1),
    ("4.", 3 / 2), ("8", 1 / 2), ("8.", 3 / 4),
    ("16", 1 / 4), ("16.", 3 / 8), ("32", 1 / 8),
    ("32.", 3 / 16)]

/-
  The length of a note value in quarters; an
  unknown one is a quarter.
-/
def quarters
    (code : String) : Rat :=
  (lengths.lookup code).getD 1

end BeatUnit

------------------------------------------------------------
-- Tempo
------------------------------------------------------------

/-
  The longest quarter that three bytes can hold, in
  microseconds.
-/
def maxTempo : Int :=
  0xFFFFFF

/-
  The length of a quarter in microseconds at a tempo of `bpm`
  beats of a note value in a minute.  A tempo counts as one at
  least, and no quarter is longer than `maxTempo`.
-/
def microsecondsPerQuarter
    (bpm : Int)
    (code : String) : Int :=
  let beats : Int := if bpm < 1 then 1 else bpm
  let tempo :=
    roundHalfUp
      (60000000 / (beats * BeatUnit.quarters code))
  if tempo < maxTempo then tempo else maxTempo

------------------------------------------------------------
-- Beats
------------------------------------------------------------

/-
  The length of a beat in ticks, of which a quarter has
  `ticksPerQuarter`.
-/
def Beat.ticks
    (b : Beat)
    (code : String)
    (ticksPerQuarter : Int) : Except NumeralError Rat :=
  b.scale.map fun scale =>
    BeatUnit.quarters code * ticksPerQuarter * scale

end LyricScore
