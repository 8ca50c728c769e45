/-
  This file defines why something cannot be written as MIDI.

  Key definitions include:
    * `MidiError`
    * `MidiError.message`
-/

namespace LyricScore

namespace Midi

/-
  The greatest number that a variable-length quantity of
  four bytes holds.
-/
def maxQuantity : Nat :=
  0x0FFFFFFF

end Midi

/-
  Why an event or a file is not valid: a number is
  outside of its range, a word names no kind of event, a
  tempo does not fit three bytes, or a field of the file
  is too small for its number.
-/
inductive MidiError where
  | delta (given : Int)
  | channel (given : Int)
  | firstParameter (given : Int)
  | secondParameter (given : Int)
  | metaType (given : Option Int)
  | unknownKind (quoted : String)
  | negativeTempo
  | tempoTooLong
  | quantity (given : Int)
  | fieldTooSmall
deriving DecidableEq, Repr

namespace MidiError

/- The wording of a number outside of its range. -/
def outside
    (what : String)
    (greatest : Nat)
    (given : String) : String :=
  what ++ " must be 0-" ++ toString greatest ++ ", got " ++
    given

/- The wording of an error. -/
def message : MidiError → String
  | delta given =>
      outside "Delta time" Midi.maxQuantity (toString given)
  | channel given => outside "Channel" 15 (toString given)
  | firstParameter given =>
      outside "param1" 127 (toString given)
  | secondParameter given =>
      outside "param2" 127 (toString given)
  | metaType given =>
    outside "Meta type" 127 ((given.map toString).getD "None")
  | unknownKind quoted =>
      quoted ++ " is not a valid MidiEventType"
  | negativeTempo => "can't convert negative int to unsigned"
  | tempoTooLong => "int too big to convert"
  | quantity given =>
      outside "VLQ value" Midi.maxQuantity (toString given)
  | fieldTooSmall => "a number does not fit its field"

end MidiError

end LyricScore
