import LyricScore.Drawing.Coordinate
import LyricScore.Failure
import LyricScore.Pitch.Tone

/-
  This file defines how high a tone is drawn.  The octaves lie
  a line spacing apart; inside an octave an offset tells how
  far below the top a tone lies, in twelfths of the spacing.

  Key definitions include:
    * `offsets`
    * `offset?`
    * `pitchHeight`
    * `missingOffset`
-/

namespace LyricScore

------------------------------------------------------------
-- Offsets
------------------------------------------------------------

/-
  The offsets, in tenths, of altered letters: a glyph and a
  letter.  A greater offset lies lower; the natural G is on
  the center line.
-/
def offsets : List (String × Int) :=
  [("𝄪a", 10), ("♮b", 10), ("♭c", 130),
    ("♯a", 20), ("♭b", 20), ("𝄫c", 140),
    ("𝄪g", 30), ("♮a", 30), ("𝄫b", 30),
    ("♯g", 40), ("♭a", 40),
    ("𝄪f", 58), ("♮g", 50), ("𝄫a", 50),
    ("𝄪e", 60), ("♯f", 68), ("♭g", 60),
    ("♯e", 70), ("♮f", 78), ("𝄫g", 70),
    ("𝄪d", 80), ("♮e", 80), ("♭f", 88),
    ("♯d", 90), ("♭e", 90), ("𝄫f", 98),
    ("𝄪c", 100), ("♮d", 100), ("𝄫e", 100),
    ("𝄪b", -10), ("♯c", 110), ("♭d", 110),
    ("♯b", 0), ("♮c", 120), ("𝄫d", 120)]

/- An altered letter as the table of offsets knows it. -/
def offsetKey
    (letter : String)
    (accidental : Accidental) : String :=
  accidental.glyph ++ letter

/- The offset of an altered letter, in tenths. -/
def offset?
    (letter : String)
    (accidental : Accidental) : Option Int :=
  offsets.lookup (offsetKey letter accidental)

/-
  What is remarked about an altered
  letter without an offset.
-/
def missingOffset
    (letter : String)
    (accidental : Accidental) : String :=
  "No vertical offset for " ++
    Quoted.quote (offsetKey letter accidental) ++
    ", drawing on the center line"

------------------------------------------------------------
-- Heights
------------------------------------------------------------

variable {K : Type} [Coordinate K]

/- A number of tenths. -/
def tenths
    (n : Int) : K :=
  if n < 0 then -(Coordinate.ofDecimal n.natAbs 1)
  else Coordinate.ofDecimal n.natAbs 1

/-
  The height of an altered letter in an octave, when the
  octave `reference` has its G on the center line.  Without an
  offset it lies on the center line.
-/
def pitchHeight
    (center : K)
    (octave : Int)
    (letter : String)
    (accidental : Accidental)
    (reference : Int)
    (spacing : K) : Except Failure K :=
  match offset? letter accidental with
  | none => .ok center
  | some offset =>
    match Coordinate.ofInt? (octave - reference) with
    | none => .error .tooHigh
    | some octaves =>
      .ok
        (center - octaves * spacing +
          (tenths offset - Coordinate.nat 5) *
            (spacing / Coordinate.nat 12))

end LyricScore
