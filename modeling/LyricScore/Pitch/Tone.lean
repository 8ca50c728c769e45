import LyricScore.Pitch.Accidental
import LyricScore.Pitch.Letter

/-
  This file defines tones: letters in an octave.  Octave 4
  starts with middle C.

  Key definitions include:
    * `Tone`
    * `Tone.name`
    * `midiNumber`
    * `spell`
    * `Voice`
    * `Voice.midiNumber`
-/

namespace LyricScore

------------------------------------------------------------
-- Tones
------------------------------------------------------------

/- A letter in an octave. -/
structure Tone where
  letter : Letter
  octave : Int
deriving DecidableEq, Repr

/- The text of a letter with the number of an octave. -/
def toneName
    (letter : String)
    (octave : Int) : String :=
  letter ++ toString octave

namespace Tone

/- The letter and the number of the octave. -/
def name
    (t : Tone) : String :=
  toneName t.letter.name t.octave

/- The count of scale steps above C in octave 0. -/
def degree
    (t : Tone) : Int :=
  7 * t.octave + t.letter.index

end Tone

/-
  How many semitones a sign raises a tone;
  no sign raises none.
-/
def alteration
    (accidental : Option Accidental) : Int :=
  (accidental.map Accidental.semitones).getD 0

/- The number of an altered tone, counted in semitones. -/
def midiNumber
    (t : Tone)
    (accidental : Option Accidental) : Int :=
  (t.octave + 1) * 12 + t.letter.semitones +
    alteration accidental

/- A name such as `F#4` or `Bb3`. -/
def spell
    (letter : String)
    (octave : Int)
    (accidental : Option Accidental) : String :=
  letter.toUpper ++ suffix ++ toString octave
where
  /- The signs behind the letter. -/
  suffix : String :=
    match accidental with
    | some .sharp => "#"
    | some .doubleSharp => "##"
    | some .flat => "b"
    | some .doubleFlat => "bb"
    | _ => ""

------------------------------------------------------------
-- Voices
------------------------------------------------------------

/- A tone with the accidental that applies to it. -/
structure Voice where
  tone : Tone
  accidental : Accidental
deriving DecidableEq, Repr

namespace Voice

/-
  The number of a voice, counted in
  semitones; middle C is 60.
-/
def midiNumber
    (v : Voice) : Int :=
  LyricScore.midiNumber v.tone (some v.accidental)

end Voice

end LyricScore
