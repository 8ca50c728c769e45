import LyricScore.Stream.Basic

/-
  This file defines how a pitch stream is taken from.  The
  stream at hand is always the part that is left.  An attack
  takes the next pitch or chord of the measure, and a barline
  drops what is left of the measure.

  Key definitions include:
    * `PitchStream`
    * `PitchStream.peek`
    * `PitchStream.isExhausted`
    * `PitchStream.advance`
    * `Delivery`
    * `PitchStream.attack`
    * `PitchStream.passBarline`
-/

namespace LyricScore

/- What is left of a pitch stream. -/
abbrev PitchStream :=
  List PitchItem

/-
  What an attack receives: the directives on the way, in
  order, and the pitch or chord, if the measure has one left.
-/
structure Delivery where
  handed : List Directive := []
  element : Option Sounding := none
deriving DecidableEq, Repr

namespace PitchStream

/- The next item, which is not taken. -/
def peek : PitchStream → Option PitchItem
  | [] => none
  | item :: _ => some item

/- Nothing is left. -/
def isExhausted : PitchStream → Bool
  | [] => true
  | _ :: _ => false

/- Take the next item, whatever it is. -/
def advance : PitchStream → Option PitchItem × PitchStream
  | [] => (none, [])
  | item :: rest => (some item, rest)

/-
  Take the next pitch or chord, and hand out the directives
  before it.  A barline is not passed.
-/
def attack : PitchStream → Delivery × PitchStream
  | [] => ({}, [])
  | .barline :: rest => ({}, .barline :: rest)
  | .sounding s :: rest => (⟨[], some s⟩, rest)
  | .directive d :: rest =>
    let (delivery, left) := attack rest
    ({ delivery with handed := d :: delivery.handed }, left)

/-
  Pass the next barline, or reach the end, and count the items
  that are dropped before it.
-/
def passBarline : PitchStream → Nat × PitchStream
  | [] => (0, [])
  | .barline :: rest => (0, rest)
  | _ :: rest =>
    let (dropped, left) := passBarline rest
    (dropped + 1, left)

end PitchStream

end LyricScore
