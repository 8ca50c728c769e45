import LyricScore.Pitch.Tone
import LyricScore.Score.Basic

/-
  This file defines how letters find their octaves.  A letter
  falls within a fourth of the tone before it; a letter of a
  chord falls above the one before it.  Shifts move it from
  there.

  Key definitions include:
    * `Tone.nearest`
    * `Tone.above`
    * `WrittenTone`
    * `Melody`
    * `Melody.pitch`
    * `Melody.chord`
-/

namespace LyricScore

------------------------------------------------------------
-- Octaves
------------------------------------------------------------

namespace Tone

/- The tone of a letter that is nearest to another tone. -/
def nearest
    (previous : Tone)
    (letter : Letter) : Tone :=
  let steps : Int := letter.index - previous.letter.index
  if steps > 3 then ⟨letter, previous.octave - 1⟩
  else if steps < -3 then ⟨letter, previous.octave + 1⟩
  else ⟨letter, previous.octave⟩

/- The lowest tone of a letter above another tone. -/
def above
    (lower : Tone)
    (letter : Letter) : Tone :=
  if letter.index > lower.letter.index then
    ⟨letter, lower.octave⟩
  else ⟨letter, lower.octave + 1⟩

/- A tone moved by octaves. -/
def shift
    (t : Tone)
    (octaves : Int) : Tone :=
  ⟨t.letter, t.octave + octaves⟩

end Tone

------------------------------------------------------------
-- Melodies
------------------------------------------------------------

/- A tone with the accidental that was written for it. -/
structure WrittenTone where
  tone : Tone
  accidental : Option Accidental := none
deriving DecidableEq, Repr

/- The tone before, and the octave on the center line. -/
structure Melody where
  previous : Tone := ⟨.c, 4⟩
  referenceOctave : Int := 4
deriving DecidableEq, Repr

namespace Melody

/- Change the octave on the center line. -/
def setReferenceOctave
    (m : Melody)
    (octave : Int) : Melody :=
  { m with referenceOctave := octave }

/-
  The tone of a single letter, which is the
  tone before from then on.
-/
def pitch
    (m : Melody)
    (letter : Letter)
    (shift : Int) : Tone × Melody :=
  let tone := (m.previous.nearest letter).shift shift
  (tone, { m with previous := tone })

/-
  The tones of the letters of a chord that
  follow a tone of it.
-/
def climb
    (lower : Tone) : List Pitch → List WrittenTone
  | [] => []
  | p :: ps =>
    let tone := (lower.above p.letter).shift p.shift
    ⟨tone, p.accidental⟩ :: climb tone ps

/-
  The tones of a chord.  The first is found like a single
  letter, and the last is the tone before from then on.
-/
def chord
    (m : Melody) : List Pitch → List WrittenTone × Melody
  | [] => ([], m)
  | p :: ps =>
    let first := (m.previous.nearest p.letter).shift p.shift
    let tones := ⟨first, p.accidental⟩ :: climb first ps
    (tones,
      { m with
        previous :=
          (tones.getLast?.map WrittenTone.tone).getD
            first })

end Melody

end LyricScore
