import LyricScore.Drawing.Coordinate
import LyricScore.Timing.BeatUnit

/-
  This file defines settings: the measures, colors and fonts
  of drawings, and the state of playing at the start.

  Key definitions include:
    * `LayoutSettings`
    * `LayoutSettings.default`
    * `LayoutSettings.InRange`
    * `AudioSettings`
    * `AudioSettings.InRange`
    * `Settings`
-/

namespace LyricScore

------------------------------------------------------------
-- Drawing
------------------------------------------------------------

/-
  The settings of drawings.

  A glyph of the lyrics is `fontWidth` wide and a line of text
  `fontHeight` high.  The lines of the staff are
  `staffLineSpacing` apart, the first of them `topMargin`
  below the top, and every block starts `baseMargin` from the
  left.  The lyrics stand `lyricOffset` below the staff, the
  counters `counterOffset` below the lyrics, and
  `bottomMargin` is left below them.  Behind a beat there is a
  `beatGap`, behind a barline a `barlinePadding`; the tones of
  a chord lie `chordStagger` off their place.  The lines of
  the title are centered at `titleX`, the first `titleTop`
  below the top and each `titleLineHeight` below the other.
-/
structure LayoutSettings (K : Type) where
  fontWidth : K
  fontHeight : K
  staffLineSpacing : K
  baseMargin : K
  topMargin : K
  lyricOffset : K
  counterOffset : K
  bottomMargin : K
  beatGap : K
  barlinePadding : K
  chordStagger : K
  counterRadius : K
  titleX : K
  titleTop : K
  titleLineHeight : K
  guideColor : String
  barlineColor : String
  counterColor : String
  annotationColor : String
  naturalColor : String
  sharpColor : String
  flatColor : String
  titleFont : String
  lyricFont : String
  pitchFont : String
  counterFont : String
  tempoFont : String
  octaveFont : String

namespace LayoutSettings

variable {K : Type} [Coordinate K]

/- The settings of drawings that hold where none are given. -/
def default : LayoutSettings K where
  fontWidth := Coordinate.ofDecimal 96 1
  fontHeight := Coordinate.nat 20
  staffLineSpacing := Coordinate.nat 35
  baseMargin := Coordinate.nat 50
  topMargin := Coordinate.nat 50
  lyricOffset := Coordinate.nat 30
  counterOffset := Coordinate.nat 20
  bottomMargin := Coordinate.nat 50
  beatGap := Coordinate.nat 10
  barlinePadding := Coordinate.nat 5
  chordStagger := Coordinate.nat 4
  counterRadius := Coordinate.nat 8
  titleX := Coordinate.nat 400
  titleTop := Coordinate.nat 50
  titleLineHeight := Coordinate.nat 30
  guideColor := "#e0e0e0"
  barlineColor := "#aaa"
  counterColor := "#888"
  annotationColor := "#888"
  naturalColor := "black"
  sharpColor := "#d00"
  flatColor := "#00d"
  titleFont := "bold 24px monospace"
  lyricFont := "16px monospace"
  pitchFont := "bold 16px sans-serif"
  counterFont := "10px sans-serif"
  tempoFont := "12px sans-serif"
  octaveFont := "italic bold 14px serif"

/- A number is zero or above. -/
def NotNegative
    (x : K) : Prop :=
  Coordinate.le (Coordinate.nat 0) x = true

/- A number is above zero. -/
def Positive
    (x : K) : Prop :=
  Coordinate.lt (Coordinate.nat 0) x = true

instance
    (x : K) :
    Decidable (NotNegative x) :=
  inferInstanceAs (Decidable (_ = true))

instance
    (x : K) :
    Decidable (Positive x) :=
  inferInstanceAs (Decidable (_ = true))

/-
  The settings that are accepted: every
  measure is in its range.
-/
structure InRange
    (s : LayoutSettings K) : Prop where
  fontWidth : Positive s.fontWidth
  fontHeight : Positive s.fontHeight
  staffLineSpacing : Positive s.staffLineSpacing
  baseMargin : NotNegative s.baseMargin
  topMargin : NotNegative s.topMargin
  bottomMargin : NotNegative s.bottomMargin
  beatGap : NotNegative s.beatGap
  barlinePadding : NotNegative s.barlinePadding
  chordStagger : NotNegative s.chordStagger
  counterRadius : Positive s.counterRadius
  titleX : NotNegative s.titleX
  titleTop : NotNegative s.titleTop
  titleLineHeight : Positive s.titleLineHeight

end LayoutSettings

------------------------------------------------------------
-- Playing
------------------------------------------------------------

/-
  The resolution of the clock, and the tempo, note value of a
  beat, loudness, instrument (counted from zero) and channel
  at the start.
-/
structure AudioSettings where
  ticksPerQuarter : Int := 480
  defaultTempo : Int := 120
  defaultBeatUnit : String := "4"
  defaultVelocity : Int := 70
  defaultInstrument : Int := 0
  channel : Int := 0
deriving DecidableEq, Repr

namespace AudioSettings

/-
  The settings that are accepted: every
  number is in its range.
-/
structure InRange
    (s : AudioSettings) : Prop where
  ticksPerQuarter :
    0 < s.ticksPerQuarter ∧ s.ticksPerQuarter ≤ 0x7FFF
  defaultTempo : 0 < s.defaultTempo
  defaultBeatUnit :
    s.defaultBeatUnit ∈ BeatUnit.lengths.map Prod.fst
  defaultVelocity :
    0 ≤ s.defaultVelocity ∧ s.defaultVelocity ≤ 100
  defaultInstrument :
    0 ≤ s.defaultInstrument ∧ s.defaultInstrument ≤ 127
  channel : 0 ≤ s.channel ∧ s.channel ≤ 15

end AudioSettings

------------------------------------------------------------
-- Both
------------------------------------------------------------

/- The settings of drawing and of playing. -/
structure Settings where
  layout : LayoutSettings Float := .default
  audio : AudioSettings := {}

end LyricScore
