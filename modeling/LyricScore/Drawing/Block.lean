import LyricScore.Drawing.Command
import LyricScore.Drawing.PitchHeight
import LyricScore.Score.Beat
import LyricScore.Settings.Basic
import LyricScore.Stream.Voicing
import LyricScore.Timing.BeatMap

/-
  This file defines how a block is drawn: guide lines, the
  letters of pitches by their heights, the lyrics below, and
  counters of beats below the lyrics.

  Key definitions include:
    * `LayoutSettings.centerLine`, `LayoutSettings.lyricLine`
    * `Pen`
    * `Pen.lyricDirective`
    * `Pen.slot`
    * `Pen.counterCommands`
    * `Pen.drawBeat`
    * `Pen.cues`
    * `BlockLayout`
    * `BlockLayout.finish`
    * `Block.layout`
-/

namespace LyricScore

variable {K : Type} [Coordinate K]

------------------------------------------------------------
-- Lines of a block
------------------------------------------------------------

namespace LayoutSettings

/- The height of the center line of the staff. -/
def centerLine
    (s : LayoutSettings K) : K :=
  s.topMargin + s.staffLineSpacing

/- The height of the lyrics. -/
def lyricLine
    (s : LayoutSettings K) : K :=
  s.centerLine + s.staffLineSpacing + s.lyricOffset

/- The height of the counters. -/
def counterLine
    (s : LayoutSettings K) : K :=
  s.lyricLine + s.counterOffset

/- The color of a letter by its accidental. -/
def pitchColor
    (s : LayoutSettings K)
    (a : Accidental) : String :=
  if a.IsSharp then s.sharpColor
  else if a.IsFlat then s.flatColor
  else s.naturalColor

/- The width of a text. -/
def textWidth
    (s : LayoutSettings K)
    (text : String) : K :=
  Coordinate.nat text.length * s.fontWidth

end LayoutSettings

------------------------------------------------------------
-- Commands of the lyric stream
------------------------------------------------------------

/-
  Where drawing has got to: the place of the next beat, the
  number that its counter shows, and its index in the block.
-/
structure Pen (K : Type) where
  x : K
  counter : Int := 1
  beat : Nat := 0

namespace Pen

/- The text of a number behind a letter. -/
def label
    (letter : String)
    (n : Int) : Except Failure String :=
  ((Numeral.write n).map (letter ++ ·)).mapError .numeral

/- The text of a tempo. -/
def tempoCommand
    (s : LayoutSettings K)
    (x : K)
    (text : String) : DrawCommand K where
  primitive := .text
  x := x
  y := s.topMargin - Coordinate.nat 30
  text := some text
  font := some s.tempoFont
  color := some "black"

/-
  A directive of the lyric stream: a pickup sets the counter,
  and a tempo is drawn.
-/
def lyricDirective
    (s : LayoutSettings K)
    (p : Pen K)
    (d : Directive) :
      Except Failure (List (DrawCommand K) × Pen K) :=
  match d.order with
  | .pickup count => .ok ([], { p with counter := count })
  | .tempo bpm => do
    let text ← label "T" bpm
    return ([tempoCommand s p.x text], p)
  | _ => .ok ([], p)

/- Directives of the lyric stream in turn. -/
def lyricDirectives
    (s : LayoutSettings K)
    (p : Pen K) :
      List Directive →
        Except Failure (List (DrawCommand K) × Pen K)
  | [] => .ok ([], p)
  | d :: ds => do
    let (first, p) ← lyricDirective s p d
    let (more, p) ← lyricDirectives s p ds
    return (first ++ more, p)

/- A barline, from above the staff to below the counters. -/
def barlineCommand
    (s : LayoutSettings K)
    (p : Pen K) : DrawCommand K :=
  let x := p.x + s.fontWidth / Coordinate.nat 2
  { primitive := .line
    x := x
    y := s.topMargin - Coordinate.nat 20
    x2 := some x
    y2 := some (s.counterLine + Coordinate.nat 5)
    stroke := some s.barlineColor
    strokeWidth := some (Coordinate.nat 1) }

/- Behind a barline the counter restarts. -/
def passBarline
    (s : LayoutSettings K)
    (p : Pen K) : Pen K :=
  { p with
    x := p.x + (s.fontWidth + s.barlinePadding),
    counter := 1 }

/- The text of a subdivision. -/
def lyricCommand
    (s : LayoutSettings K)
    (x : K)
    (text : String) : DrawCommand K where
  primitive := .text
  x := x
  y := s.lyricLine
  text := some text
  font := some s.lyricFont
  color := some "black"

/-
  The attributes of a counter: its class and
  the indices of its beat.
-/
def beatAttributes
    (kind : String)
    (key : BeatKey) : List (String × String) :=
  [("class", kind), ("data-block-idx", toString key.block),
    ("data-beat-idx", toString key.beat)]

/-
  The circle behind the number of a beat,
  which a player may fill.
-/
def circleCommand
    (s : LayoutSettings K)
    (x : K)
    (key : BeatKey) : DrawCommand K where
  primitive := .circle
  x := x
  y := s.counterLine - Coordinate.nat 4
  r := some s.counterRadius
  fill := some "none"
  stroke := some "none"
  attributes := beatAttributes "beat-circle" key

/- The number of a beat. -/
def counterCommand
    (s : LayoutSettings K)
    (x : K)
    (key : BeatKey)
    (text : String) : DrawCommand K where
  primitive := .text
  x := x
  y := s.counterLine
  text := some text
  color := some s.counterColor
  font := some s.counterFont
  anchor := some "middle"
  attributes := beatAttributes "beat-counter" key

/- The circle and the number of a beat. -/
def counterCommands
    (s : LayoutSettings K)
    (p : Pen K)
    (block : Int) : Except Failure (List (DrawCommand K)) := do
  let x := p.x + s.fontWidth / Coordinate.nat 2
  let key : BeatKey := ⟨block, p.beat⟩
  let text ← label "" p.counter
  return [circleCommand s x key, counterCommand s x key text]

------------------------------------------------------------
-- Commands of the pitch stream
------------------------------------------------------------

/-
  The text of an octave, left of its attack but not outside.
-/
def octaveCommand
    (s : LayoutSettings K)
    (x : K)
    (text : String) : DrawCommand K where
  primitive := .text
  x :=
    Coordinate.greater (Coordinate.nat 0)
      (x - Coordinate.nat 15)
  y := s.centerLine + Coordinate.nat 5
  text := some text
  font := some s.octaveFont
  color := some s.annotationColor

/- The octaves that an attack receives as directives. -/
def octaveCommands
    (s : LayoutSettings K)
    (x : K) :
      List Directive → Except Failure (List (DrawCommand K))
  | [] => .ok []
  | d :: ds =>
    match d.order with
    | .referenceOctave octave => do
      let text ← label "G" octave
      let more ← octaveCommands s x ds
      return octaveCommand s x text :: more
    | _ => octaveCommands s x ds

/- The letter of a tone at a height. -/
def letterCommand
    (s : LayoutSettings K)
    (x y : K)
    (v : Voice) : DrawCommand K where
  primitive := .text
  x := x
  y := y
  text := some v.tone.letter.name
  color := some (s.pitchColor v.accidental)
  font := some s.pitchFont

/-
  The letter of a voice.  The tone of the voice needs a name,
  so its octave may not be too long to be written.
-/
def voiceCommand
    (s : LayoutSettings K)
    (reference : Int)
    (x : K)
    (v : Voice) : Except Failure (DrawCommand K) :=
  if Numeral.Writable v.tone.octave then do
    let y ←
      pitchHeight s.centerLine v.tone.octave
        v.tone.letter.name v.accidental reference
        s.staffLineSpacing
    return letterCommand s x y v
  else .error (.numeral .tooLongToWrite)

/-
  The letters of a chord, in turn to the right and to the left
  of their place.
-/
def chordCommands
    (s : LayoutSettings K)
    (reference : Int)
    (x : K)
    (right : Bool) :
      List Voice → Except Failure (List (DrawCommand K))
  | [] => .ok []
  | v :: vs => do
    let shift :=
      if right then s.chordStagger else -s.chordStagger
    let first ← voiceCommand s reference (x + shift) v
    let more ← chordCommands s reference x (!right) vs
    return first :: more

/- The letters of an attack. -/
def voiceCommands
    (s : LayoutSettings K)
    (x : K)
    (a : Attack) : Except Failure (List (DrawCommand K)) :=
  match a.delivery.element with
  | some (.chord _) =>
      chordCommands s a.referenceOctave x true a.voices
  | _ => a.voices.mapM (voiceCommand s a.referenceOctave x)

------------------------------------------------------------
-- Beats
------------------------------------------------------------

/- A subdivision: its text, and what its attack received. -/
def slot
    (s : LayoutSettings K)
    (x : K)
    (part : Slot Attack) :
      Except Failure (List (DrawCommand K)) := do
  let octaves ← octaveCommands s x part.content.delivery.handed
  let voices ← voiceCommands s x part.content
  return lyricCommand s x part.subdivision.displayText ::
      octaves ++ voices

/- Subdivisions side by side, and the place behind them. -/
def slots
    (s : LayoutSettings K)
    (x : K) :
      List (Slot Attack) →
        Except Failure (List (DrawCommand K) × K)
  | [] => .ok ([], x)
  | part :: rest => do
    let first ← slot s x part
    let (more, x) ←
      slots s
        (x + s.textWidth part.subdivision.displayText) rest
    return (first ++ more, x)

/-
  A beat: its directives, its subdivisions and its counter.
-/
def drawBeat
    (s : LayoutSettings K)
    (block : Int)
    (p : Pen K)
    (b : Beat)
    (parts : List (Slot Attack)) :
      Except Failure (List (DrawCommand K) × Pen K) := do
  let (directed, p) ← lyricDirectives s p b.directives
  if parts = [] then .ok (directed, p)
  else do
    let (drawn, x) ← slots s p.x parts
    let counter ← counterCommands s p block
    let scale ← b.scale.mapError .numeral
    return (directed ++ drawn ++ counter,
      ⟨x + s.beatGap, p.counter + scale, p.beat + 1⟩)

/- The commands of cues in turn. -/
def cues
    (s : LayoutSettings K)
    (block : Int)
    (p : Pen K) :
      List (Cue Attack) →
        Except Failure (List (DrawCommand K) × Pen K)
  | [] => .ok ([], p)
  | .directive d :: rest => do
    let (first, p) ← lyricDirective s p d
    let (more, p) ← cues s block p rest
    return (first ++ more, p)
  | .barline _ :: rest => do
    let (more, last) ← cues s block (p.passBarline s) rest
    return (barlineCommand s p :: more, last)
  | .beat b parts :: rest => do
    let (first, p) ← drawBeat s block p b parts
    let (more, p) ← cues s block p rest
    return (first ++ more, p)

end Pen

------------------------------------------------------------
-- Bounds
------------------------------------------------------------

namespace DrawCommand

/- The upper end of a command. -/
def top
    (s : LayoutSettings K)
    (c : DrawCommand K) : K :=
  match c.primitive with
  | .text => c.y - s.fontHeight
  | .circle => c.y - c.r.getD (Coordinate.nat 0)
  | _ => Coordinate.less c.y (c.y2.getD c.y)

/- The lower end of a command. -/
def bottom
    (c : DrawCommand K) : K :=
  match c.primitive with
  | .circle => c.y + c.r.getD (Coordinate.nat 0)
  | .rect => c.y + c.height.getD (Coordinate.nat 0)
  | _ => Coordinate.greater c.y (c.y2.getD c.y)

/- The right end of a command. -/
def right
    (s : LayoutSettings K)
    (c : DrawCommand K) : K :=
  match c.primitive with
  | .text => c.x + s.textWidth (c.text.getD "")
  | .circle => c.x + c.r.getD (Coordinate.nat 0)
  | .rect => c.x + c.width.getD (Coordinate.nat 0)
  | .line => Coordinate.greater c.x (c.x2.getD c.x)

end DrawCommand

/- The drawing of a block, and the size of it. -/
structure BlockLayout (K : Type) where
  commands : List (DrawCommand K)
  width : K
  height : K

namespace BlockLayout

/- A guide line, `octaves` above the center line. -/
def guide
    (s : LayoutSettings K)
    (endX : K)
    (octaves : K) : DrawCommand K :=
  let y := s.centerLine - octaves * s.staffLineSpacing
  { primitive := .line
    x := s.baseMargin
    y := y
    x2 := some endX
    y2 := some y
    stroke := some s.guideColor
    strokeWidth := some (Coordinate.nat 1) }

/- The lowest of the three guide lines. -/
def lowestGuide
    (s : LayoutSettings K)
    (endX : K) : DrawCommand K :=
  guide s endX (-(Coordinate.nat 1))

/- The other guide lines, from below. -/
def upperGuides
    (s : LayoutSettings K)
    (endX : K) : List (DrawCommand K) :=
  [guide s endX (Coordinate.nat 0),
    guide s endX (Coordinate.nat 1)]

/-
  A finished drawing.  Guide lines come first; if something
  reaches above the top, all is moved down by as much; the
  size holds all commands.
-/
def finish
    (s : LayoutSettings K)
    (endX : K)
    (drawn : List (DrawCommand K)) : BlockLayout K :=
  let first := lowestGuide s endX
  let others := upperGuides s endX ++ drawn
  let zero : K := Coordinate.nat 0
  let top :=
    Coordinate.least (first.top s)
      (others.map (DrawCommand.top s))
  let commands :=
    if Coordinate.lt top zero then
      (first :: others).map (·.moved zero (-top))
    else first :: others
  { commands := commands
    width :=
      Coordinate.greatest endX
        (commands.map (DrawCommand.right s))
    height :=
      Coordinate.greatest
        (s.counterLine + s.bottomMargin -
          Coordinate.less top zero)
        (commands.map DrawCommand.bottom) }

end BlockLayout

/-
  The drawing of a block; its index stands in its counters.
-/
def Block.layout
    (s : LayoutSettings K)
    (index : Int)
    (b : Block) : Except Failure (BlockLayout K) := do
  let (drawn, p) ←
    Pen.cues s index { x := s.baseMargin } b.voices
  return .finish s p.x drawn

end LyricScore
