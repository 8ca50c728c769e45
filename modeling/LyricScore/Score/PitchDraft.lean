import LyricScore.Manuscript.PitchUnit

/-
  This file defines how written pitch lines become one pitch
  line of a score.  Barlines and line ends end a measure.

  Key definitions include:
    * `PitchUnit.elements`
    * `PitchDraft`
    * `PitchDraft.closeMeasure`
    * `PitchDraft.addUnit`
    * `PitchDraft.addLine`
    * `PitchLine.ofUnits`
-/

namespace LyricScore

------------------------------------------------------------
-- Elements of units
------------------------------------------------------------

/- What a unit adds to its measure. -/
def PitchUnit.elements : PitchUnit → List PitchElement
  | barline _ => []
  | group g => g.directives.map .directive
  | chord opening entries =>
    [.chord
      ⟨entries.flatMap ChordEntry.pitches,
        opening.location⟩]
  | run pitches => pitches.map .pitch
  | stray _ => []

------------------------------------------------------------
-- Drafts
------------------------------------------------------------

/-
  A pitch line in the making: its directives and measures so
  far, and the elements of the measure that is open.
-/
structure PitchDraft where
  directives : List Directive := []
  measures : List PitchMeasure := []
  elements : List PitchElement := []
deriving DecidableEq, Repr

namespace PitchDraft

/- Something of the line besides directives is there. -/
def HasContent
    (d : PitchDraft) : Prop :=
  d.measures ≠ [] ∨ d.elements ≠ []

instance
    (d : PitchDraft) :
    Decidable (HasContent d) := by
  unfold HasContent
  infer_instance

/-
  End the open measure, if it has elements or the barline
  that ends it is there.
-/
def closeMeasure
    (barline : Bool)
    (location : Location)
    (d : PitchDraft) : PitchDraft :=
  if d.elements ≠ [] ∨ barline then
    { d with
      measures :=
        d.measures ++ [⟨d.elements, barline, location⟩],
      elements := [] }
  else d

/-
  Add a unit.  The directives of a group go to
  the line as long as nothing else is there, and
  to the open measure later.
-/
def addUnit
    (d : PitchDraft)
    (unit : PitchUnit) : PitchDraft :=
  match unit with
  | .barline t => d.closeMeasure true t.location
  | .group g =>
    if d.HasContent then
      { d with elements := d.elements ++ unit.elements }
    else { d with directives := d.directives ++ g.directives }
  | _ => { d with elements := d.elements ++ unit.elements }

/- Add a written line, whose end ends the open measure. -/
def addLine
    (d : PitchDraft)
    (units : List PitchUnit) : PitchDraft :=
  (units.foldl addUnit d).closeMeasure false {}

/-
  The line that a finished draft is; it starts where its
  first measure ends.
-/
def toLine
    (d : PitchDraft) : PitchLine :=
  ⟨d.directives, d.measures,
    ⟨(d.measures.head?.map (·.location.line)).getD 0, 0⟩⟩

end PitchDraft

/- The pitch line that written lines make. -/
def PitchLine.ofUnits
    (lines : List (List PitchUnit)) : PitchLine :=
  (lines.foldl PitchDraft.addLine {}).toLine

end LyricScore
