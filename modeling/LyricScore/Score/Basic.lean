import LyricScore.Score.Directive
import LyricScore.Pitch.Letter

/-
  This file defines scores.  A score has a title and blocks;
  a block sets lines of lyrics, which are beats and barlines,
  over lines of pitches, chords and barlines.

  Key definitions include:
    * `SubdivisionKind`
    * `Subdivision`
    * `Subdivision.IsAttack`
    * `Subdivision.IsSilence`
    * `Subdivision.displayText`
    * `Beat`
    * `Beat.subdivisions`
    * `Beat.directives`
    * `LyricMeasure`, `LyricLine`
    * `Pitch`, `Chord`, `PitchElement`
    * `PitchMeasure`, `PitchLine`
    * `Block`
    * `Score`
-/

namespace LyricScore

------------------------------------------------------------
-- Subdivisions
------------------------------------------------------------

/-
  The part of a subdivision in the rhythm.  A syllable and a
  melisma attack a note, a hyphen holds the sounding ones, a
  rest and a blank end them.
-/
inductive SubdivisionKind where
  | syllable
  | melisma
  | hyphen
  | rest
  | blank
deriving DecidableEq, Repr

namespace SubdivisionKind

/- Every kind, once. -/
def all : List SubdivisionKind :=
  [syllable, melisma, hyphen, rest, blank]

/- The word for a kind. -/
def name : SubdivisionKind → String
  | syllable => "Syllable"
  | melisma => "Melisma"
  | hyphen => "Hyphen"
  | rest => "Rest"
  | blank => "Partial"

/- The kind that a word names. -/
def ofName?
    (word : String) : Option SubdivisionKind :=
  all.find? fun kind => kind.name == word

end SubdivisionKind

/- The smallest unit of rhythm. -/
structure Subdivision where
  kind : SubdivisionKind
  text : String
  location : Location := {}
deriving DecidableEq, Repr

namespace Subdivision

/- A subdivision at which a note starts. -/
def IsAttack
    (s : Subdivision) : Prop :=
  s.kind = .syllable ∨ s.kind = .melisma

instance
    (s : Subdivision) :
    Decidable (IsAttack s) := by
  unfold IsAttack
  infer_instance

/- A subdivision at which every note ends. -/
def IsSilence
    (s : Subdivision) : Prop :=
  s.kind = .rest ∨ s.kind = .blank

instance
    (s : Subdivision) :
    Decidable (IsSilence s) := by
  unfold IsSilence
  infer_instance

/-
  The text drawn under the staff; a blank is drawn as none.
-/
def displayText
    (s : Subdivision) : String :=
  if s.kind = .blank then "" else s.text

end Subdivision

------------------------------------------------------------
-- Lyric lines
------------------------------------------------------------

/- What a beat is made of. -/
inductive BeatElement where
  | subdivision (s : Subdivision)
  | directive (d : Directive)
deriving DecidableEq, Repr

/-
  A beat: subdivisions written without white space between
  them.  Directives may stand among them.
-/
structure Beat where
  elements : List BeatElement := []
  location : Location := {}
deriving DecidableEq, Repr

namespace Beat

/- The subdivisions of a beat, in order. -/
def subdivisions
    (b : Beat) : List Subdivision :=
  b.elements.filterMap fun
    | .subdivision s => some s
    | .directive _ => none

/- The directives of a beat, in order. -/
def directives
    (b : Beat) : List Directive :=
  b.elements.filterMap fun
    | .subdivision _ => none
    | .directive d => some d

end Beat

/-
  Beats up to a barline, or up to the end of a written line
  if there is no barline.
-/
structure LyricMeasure where
  beats : List Beat := []
  barline : Bool := false
  location : Location := {}
deriving DecidableEq, Repr

/- A line of lyrics, with the directives before its beats. -/
structure LyricLine where
  directives : List Directive := []
  measures : List LyricMeasure := []
  location : Location := {}
deriving DecidableEq, Repr

------------------------------------------------------------
-- Pitch lines
------------------------------------------------------------

/-
  A pitch as it is written: a letter, perhaps an accidental,
  and a shift by octaves from where the letter falls.
-/
structure Pitch where
  letter : Letter
  accidental : Option Accidental := none
  shift : Int := 0
  location : Location := {}
deriving DecidableEq, Repr

/- Pitches that sound together, written from the lowest up. -/
structure Chord where
  pitches : List Pitch := []
  location : Location := {}
deriving DecidableEq, Repr

/- What a pitch line is made of. -/
inductive PitchElement where
  | pitch (p : Pitch)
  | chord (c : Chord)
  | directive (d : Directive)
deriving DecidableEq, Repr

/- What stands in a pitch line up to a barline. -/
structure PitchMeasure where
  elements : List PitchElement := []
  barline : Bool := false
  location : Location := {}
deriving DecidableEq, Repr

/- A line of pitches, with the directives before them. -/
structure PitchLine where
  directives : List Directive := []
  measures : List PitchMeasure := []
  location : Location := {}
deriving DecidableEq, Repr

------------------------------------------------------------
-- Scores
------------------------------------------------------------

/- A stanza: lyrics over pitches. -/
structure Block where
  lyricLines : List LyricLine := []
  pitchLines : List PitchLine := []
deriving DecidableEq, Repr

/- A document: the lines of the title, and blocks. -/
structure Score where
  title : List String := []
  blocks : List Block := []
deriving DecidableEq, Repr

end LyricScore
