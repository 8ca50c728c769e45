import LyricScore.Stream.Basic
import LyricScore.Timing.BeatUnit

/-
  This file defines the beat map: the tick at which each beat
  of a score starts.  A beat without subdivisions takes no
  time and has no place in the map.

  Key definitions include:
    * `BeatKey`
    * `BeatKey.text`
    * `BeatMap`
    * `BeatClock`
    * `Score.beatMap`
-/

namespace LyricScore

------------------------------------------------------------
-- Keys
------------------------------------------------------------

/-
  A beat by the indices of its block and in its block.  A
  block that is drawn alone may be given any index.
-/
structure BeatKey where
  block : Int
  beat : Nat
deriving DecidableEq, Repr

namespace BeatKey

/- The two indices with a colon between them. -/
def text
    (k : BeatKey) : String :=
  toString k.block ++ ":" ++ toString k.beat

end BeatKey

/- The starts of beats, in order, and the end of the last. -/
structure BeatMap where
  beats : List (BeatKey × Int)
  totalTicks : Int
deriving DecidableEq, Repr

------------------------------------------------------------
-- The clock
------------------------------------------------------------

/- The note value of a beat, and the exact time. -/
structure BeatClock where
  unit : String
  now : Rat := 0
deriving DecidableEq, Repr

namespace BeatClock

/- Follow a directive of the lyric stream. -/
def follow
    (c : BeatClock)
    (d : Directive) : BeatClock :=
  match d.order with
  | .beatUnit code => { c with unit := code }
  | _ => c

/-
  The starts of the beats of a lyric stream, the first of
  which is the beat `index` of the block.
-/
def items
    (ticksPerQuarter : Int)
    (block : Int)
    (c : BeatClock)
    (index : Nat) :
      List LyricItem →
        Except NumeralError
          (List (BeatKey × Int) × BeatClock)
  | [] => .ok ([], c)
  | .directive d :: rest =>
      items ticksPerQuarter block (c.follow d) index rest
  | .barline _ :: rest =>
      items ticksPerQuarter block c index rest
  | .beat b :: rest =>
    let c := b.directives.foldl follow c
    if b.subdivisions = [] then
      items ticksPerQuarter block c index rest
    else do
      let ticks ← b.ticks c.unit ticksPerQuarter
      let (beats, last) ←
        items ticksPerQuarter block
          { c with now := c.now + ticks } (index + 1) rest
      return ((⟨block, index⟩, roundHalfEven c.now) ::
          beats, last)

/-
  The starts of the beats of blocks, the first of which is
  the block `index`.
-/
def blocks
    (ticksPerQuarter : Int)
    (c : BeatClock)
    (index : Nat) :
      List Block →
        Except NumeralError
          (List (BeatKey × Int) × BeatClock)
  | [] => .ok ([], c)
  | b :: rest => do
    let (beats, c) ←
      items ticksPerQuarter (index : Int) c 0 b.lyricStream
    let (more, last) ← blocks ticksPerQuarter c (index + 1) rest
    return (beats ++ more, last)

end BeatClock

/-
  The beat map of a score, with the note value that is in
  force at its start.
-/
def Score.beatMap
    (s : Score)
    (unit : String)
    (ticksPerQuarter : Int) : Except NumeralError BeatMap := do
  let (beats, last) ←
    BeatClock.blocks ticksPerQuarter { unit := unit } 0
      s.blocks
  return ⟨beats, roundHalfEven last.now⟩

end LyricScore
