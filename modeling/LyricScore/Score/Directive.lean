import LyricScore.Text.Location
import LyricScore.Pitch.Accidental

/-
  This file defines directives: the bracketed orders of a
  score, each a letter and a number.

  Key definitions include:
    * `DirectiveName`
    * `DirectiveName.letter`
    * `DirectiveName.ofText?`
    * `Order`
    * `Order.name`
    * `Directive`
-/

namespace LyricScore

------------------------------------------------------------
-- Names
------------------------------------------------------------

/- What a directive is about. -/
inductive DirectiveName where
  | pickup
  | beatUnit
  | tempo
  | key
  | referenceOctave
  | instrument
  | volume
deriving DecidableEq, Repr

namespace DirectiveName

/- Every name, once. -/
def all : List DirectiveName :=
  [pickup, beatUnit, tempo, key, referenceOctave,
    instrument, volume]

/- The letter that is written for a name. -/
def letter : DirectiveName → String
  | pickup => "N"
  | beatUnit => "B"
  | tempo => "T"
  | key => "K"
  | referenceOctave => "O"
  | instrument => "I"
  | volume => "V"

/- The name that a text is written for. -/
def ofText?
    (text : String) : Option DirectiveName :=
  all.find? fun name => name.letter == text

/- A name is read back from its letter. -/
theorem ofText?_letter
    (name : DirectiveName) :
    ofText? name.letter = some name := by
  cases name <;> rfl

end DirectiveName

------------------------------------------------------------
-- Orders
------------------------------------------------------------

/-
  An order.  `pickup` restarts the beat counter; `beatUnit`
  names the note value of a beat by its code; `tempo` gives
  beats of that value in a minute; `key` gives a key
  signature; `referenceOctave` the octave drawn on the center
  line; `instrument` a program counted from one; `volume` a
  loudness on a scale of 100.
-/
inductive Order where
  | pickup (count : Int)
  | beatUnit (code : String)
  | tempo (bpm : Int)
  | key (accidental : Option Accidental) (count : Int)
  | referenceOctave (octave : Int)
  | instrument (program : Int)
  | volume (level : Int)
deriving DecidableEq, Repr

namespace Order

/- What an order is about. -/
def name : Order → DirectiveName
  | pickup _ => .pickup
  | beatUnit _ => .beatUnit
  | tempo _ => .tempo
  | key _ _ => .key
  | referenceOctave _ => .referenceOctave
  | instrument _ => .instrument
  | volume _ => .volume

end Order

/- An order and the place of its letter. -/
structure Directive where
  order : Order
  location : Location := {}
deriving DecidableEq, Repr

end LyricScore
