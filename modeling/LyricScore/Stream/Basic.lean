import LyricScore.Score.Basic

/-
  This file defines the two streams of a block.  The lyric
  stream holds directives, beats and barlines; the pitch
  stream holds directives, pitches, chords and barlines.

  Key definitions include:
    * `LyricItem`
    * `PitchItem`
    * `Sounding`
    * `Block.lyricStream`
    * `Block.pitchStream`
-/

namespace LyricScore

------------------------------------------------------------
-- Items
------------------------------------------------------------

/-
  An item of a lyric stream.  A barline knows the index of the
  measure that it ends.
-/
inductive LyricItem where
  | directive (d : Directive)
  | beat (b : Beat)
  | barline (measure : Nat)
deriving DecidableEq, Repr

/-
  What an attack sounds: a pitch, or the pitches of a chord.
-/
inductive Sounding where
  | pitch (p : Pitch)
  | chord (c : Chord)
deriving DecidableEq, Repr

/- An item of a pitch stream. -/
inductive PitchItem where
  | directive (d : Directive)
  | sounding (s : Sounding)
  | barline
deriving DecidableEq, Repr

/- The item that an element of a measure is. -/
def PitchElement.item : PitchElement → PitchItem
  | pitch p => .sounding (.pitch p)
  | chord c => .sounding (.chord c)
  | directive d => .directive d

------------------------------------------------------------
-- Streams
------------------------------------------------------------

/- The beats of a measure, and its barline. -/
def LyricMeasure.items
    (m : LyricMeasure)
    (index : Nat) : List LyricItem :=
  m.beats.map .beat ++
    if m.barline then [.barline index] else []

/- The directives of a line, and its measures. -/
def LyricLine.items
    (l : LyricLine) : List LyricItem :=
  l.directives.map .directive ++
    l.measures.zipIdx.flatMap fun (m, i) => m.items i

/- The elements of a measure, and its barline. -/
def PitchMeasure.items
    (m : PitchMeasure) : List PitchItem :=
  m.elements.map PitchElement.item ++
    if m.barline then [.barline] else []

/- The directives of a line, and its measures. -/
def PitchLine.items
    (l : PitchLine) : List PitchItem :=
  l.directives.map .directive ++
    l.measures.flatMap PitchMeasure.items

namespace Block

/- The lyric lines of a block as one stream. -/
def lyricStream
    (b : Block) : List LyricItem :=
  b.lyricLines.flatMap LyricLine.items

/- The pitch lines of a block as one stream. -/
def pitchStream
    (b : Block) : List PitchItem :=
  b.pitchLines.flatMap PitchLine.items

end Block

end LyricScore
