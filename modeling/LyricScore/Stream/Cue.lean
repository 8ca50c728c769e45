import LyricScore.Stream.Cursor

/-
  This file defines how the two streams of a block run side by
  side.  Each attack of the lyric stream takes from the pitch
  stream, and each barline of the lyric stream passes one of
  the pitch stream.  What comes out is the lyric stream with
  what each subdivision received.

  Key definitions include:
    * `Slot`
    * `Cue`
    * `PitchStream.fill`
    * `PitchStream.cues`
    * `Block.cues`
-/

namespace LyricScore

------------------------------------------------------------
-- Cues
------------------------------------------------------------

/- A subdivision and what it received. -/
structure Slot (α : Type) where
  subdivision : Subdivision
  content : α
deriving DecidableEq, Repr

/-
  An item of a lyric stream, with what its
  subdivisions received.
-/
inductive Cue (α : Type) where
  | directive (d : Directive)
  | beat (b : Beat) (slots : List (Slot α))
  | barline (measure : Nat)
deriving DecidableEq, Repr

------------------------------------------------------------
-- Side by side
------------------------------------------------------------

namespace PitchStream

/-
  The subdivisions of a beat take from a
  pitch stream in turn.
-/
def fill
    (s : PitchStream) :
      List Subdivision → List (Slot Delivery) × PitchStream
  | [] => ([], s)
  | sub :: subs =>
    let (delivery, s) :=
      if sub.IsAttack then s.attack else ({}, s)
    let (slots, s) := fill s subs
    (⟨sub, delivery⟩ :: slots, s)

/- A lyric stream over a pitch stream. -/
def cues
    (s : PitchStream) : List LyricItem → List (Cue Delivery)
  | [] => []
  | .directive d :: items => .directive d :: cues s items
  | .barline i :: items =>
      .barline i :: cues s.passBarline.2 items
  | .beat b :: items =>
    let (slots, s) := s.fill b.subdivisions
    .beat b slots :: cues s items

end PitchStream

/- The lyric stream of a block over its pitch stream. -/
def Block.cues
    (b : Block) : List (Cue Delivery) :=
  PitchStream.cues b.pitchStream b.lyricStream

end LyricScore
