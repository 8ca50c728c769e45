import LyricScore.Manuscript.LyricUnit

/-
  This file defines how written lyric lines become one lyric
  line of a score.  White space, line ends and barlines end a
  beat; barlines and line ends end a measure.

  Key definitions include:
    * `Token.beatElements`
    * `LyricDraft`
    * `LyricDraft.closeBeat`
    * `LyricDraft.closeMeasure`
    * `LyricDraft.addUnit`
    * `LyricDraft.addUnits`
    * `LyricDraft.addLine`
    * `LyricLine.ofUnits`
-/

namespace LyricScore

------------------------------------------------------------
-- Elements of units
------------------------------------------------------------

/-
  What a token adds to its beat.  A dot only separates, an
  equals sign stands for two hyphens, and whatever is no
  symbol of rhythm is a syllable.
-/
def Token.beatElements
    (t : Token) : List BeatElement :=
  match t.kind with
  | .dot => []
  | .equals =>
    [.subdivision ⟨.hyphen, "-", t.location⟩,
      .subdivision ⟨.hyphen, "-", t.location⟩]
  | .hyphen => [.subdivision ⟨.hyphen, t.text, t.location⟩]
  | .underscore => [.subdivision ⟨.blank, t.text, t.location⟩]
  | .asterisk => [.subdivision ⟨.melisma, t.text, t.location⟩]
  | .semicolon => [.subdivision ⟨.rest, t.text, t.location⟩]
  | _ => [.subdivision ⟨.syllable, t.text, t.location⟩]

/- Where a beat starts: at its first element. -/
def BeatElement.location : BeatElement → Location
  | subdivision s => s.location
  | directive d => d.location

------------------------------------------------------------
-- Drafts
------------------------------------------------------------

/-
  A lyric line in the making: its directives and measures so
  far, the beats of the measure that is open, and the elements
  of the beat that is open.
-/
structure LyricDraft where
  directives : List Directive := []
  measures : List LyricMeasure := []
  beats : List Beat := []
  elements : List BeatElement := []
deriving DecidableEq, Repr

namespace LyricDraft

/- Something of the line besides directives is there. -/
def HasContent
    (d : LyricDraft) : Prop :=
  d.measures ≠ [] ∨ d.beats ≠ [] ∨ d.elements ≠ []

instance
    (d : LyricDraft) :
    Decidable (HasContent d) := by
  unfold HasContent
  infer_instance

/- End the open beat, if it has elements. -/
def closeBeat
    (d : LyricDraft) : LyricDraft :=
  match d.elements with
  | [] => d
  | e :: es =>
    { d with
      beats := d.beats ++ [⟨e :: es, e.location⟩],
      elements := [] }

/-
  End the open measure, if it has beats or the barline that
  ends it is there.
-/
def closeMeasure
    (barline : Bool)
    (location : Location)
    (d : LyricDraft) : LyricDraft :=
  let d := d.closeBeat
  if d.beats ≠ [] ∨ barline then
    { d with
      measures :=
        d.measures ++ [⟨d.beats, barline, location⟩],
      beats := [] }
  else d

/-
  Add a unit.  The directives of a group go to the line as
  long as nothing else is there, and to the open beat later.
-/
def addUnit
    (d : LyricDraft) : LyricUnit → LyricDraft
  | .mark t =>
    if t.kind = .barline then d.closeMeasure true t.location
    else { d with elements := d.elements ++ t.beatElements }
  | .group g =>
    if d.HasContent then
      { d with
        elements :=
          d.elements ++ g.directives.map .directive }
    else { d with directives := d.directives ++ g.directives }

/-
  White space stands before a unit that
  another unit precedes.
-/
def Gap
    (previous : Option LyricUnit)
    (unit : LyricUnit) : Prop :=
  ∃ p ∈ previous, ¬ unit.first.AdjacentTo p.last

instance
    (previous : Option LyricUnit)
    (unit : LyricUnit) :
    Decidable (Gap previous unit) :=
  match previous with
  | none => isFalse (by simp [Gap])
  | some p =>
    decidable_of_iff (¬ unit.first.AdjacentTo p.last)
      (by simp [Gap])

/-
  Add the units of a written line, of which `previous` is the
  one before.  White space ends the open beat.
-/
def addUnits
    (d : LyricDraft)
    (previous : Option LyricUnit) : List LyricUnit → LyricDraft
  | [] => d
  | u :: us =>
    addUnits
      ((if Gap previous u then d.closeBeat else d).addUnit
        u) (some u) us

/- Add a written line, whose end ends the open measure. -/
def addLine
    (d : LyricDraft)
    (units : List LyricUnit) : LyricDraft :=
  (d.addUnits none units).closeMeasure false {}

/-
  The line that a finished draft is; it starts where its
  first measure ends.
-/
def toLine
    (d : LyricDraft) : LyricLine :=
  ⟨d.directives, d.measures,
    ⟨(d.measures.head?.map (·.location.line)).getD 0, 0⟩⟩

end LyricDraft

/- The lyric line that written lines make. -/
def LyricLine.ofUnits
    (lines : List (List LyricUnit)) : LyricLine :=
  (lines.foldl LyricDraft.addLine {}).toLine

end LyricScore
