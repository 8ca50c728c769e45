import LyricScore.Drawing.Score
import LyricScore.Performance.Schedule
import LyricScore.Score.Parse

/-
  This file defines everything that one text is compiled to.

  Key definitions include:
    * `Compilation`
    * `Compilation.programs`
    * `compile`
-/

namespace LyricScore

/-
  A score, how it is drawn, how it is played,
  and when its beats start.
-/
structure Compilation where
  score : Score
  layout : ScoreLayout Float
  events : List MidiEvent
  midi : List UInt8
  beatMap : BeatMap

namespace Compilation

/- The programs that a player has to load. -/
def programs
    (c : Compilation) : List Nat :=
  usedPrograms c.events

end Compilation

/- The beat map of a score with the settings of playing. -/
def Score.timing
    (settings : AudioSettings)
    (s : Score) : Except Failure BeatMap :=
  (s.beatMap settings.defaultBeatUnit
    settings.ticksPerQuarter).mapError .numeral

/-
  Compile a text.  It is read first; then it is
  played, drawn and timed.
-/
def compile
    (settings : Settings)
    (text : String) : Except Failure Compilation := do
  let score ← (Score.parse text).mapError .score
  let events ← score.events settings.audio
  let midi ←
    (Midi.file [events]
      settings.audio.ticksPerQuarter).mapError .midi
  let layout ← score.layout settings.layout
  let beatMap ← score.timing settings.audio
  return { score, layout, events, midi, beatMap }

end LyricScore
