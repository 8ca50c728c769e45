import LyricScore.Data.Coerce
import LyricScore.Score.Basic

/-
  This file defines the scores that data are.  A field that
  is left out takes its default, and a field without meaning
  is passed over; anything else that is no score is rejected.

  Key definitions include:
    * `Fields`
    * `Fields.optional`
    * `Fields.required`
    * `Directive.ofData?`
    * `BeatElement.ofData?`
    * `PitchElement.ofData?`
    * `Block.ofData?`
    * `Score.ofData?`
-/

namespace LyricScore

------------------------------------------------------------
-- Fields
------------------------------------------------------------

/- The entries of a mapping, read field by field. -/
abbrev Fields :=
  List (String × Data)

namespace Fields

/- The fields of a mapping. -/
def ofData? : Data → Option Fields
  | .mapping entries => some entries
  | _ => none

variable {α : Type}

/- A field that may be left out. -/
def optional
    (fields : Fields)
    (name : String)
    (read : Data → Option α)
    (default : α) : Option α :=
  match Data.lookup name fields with
  | some d => read d
  | none => some default

/- A field that has to be there. -/
def required
    (fields : Fields)
    (name : String)
    (read : Data → Option α) : Option α :=
  Data.lookup name fields >>= read

/- A field that has one value wherever it is there. -/
def constant
    (fields : Fields)
    (name : String)
    (value : String) : Option Unit :=
  fields.optional name
    (fun
      | .text s => if s = value then some () else none
      | _ => none) ()

/- How many of some fields are there. -/
def count
    (fields : Fields)
    (names : List String) : Nat :=
  (names.filter fun name =>
    (Data.lookup name fields).isSome).length

end Fields

namespace Data

/- A whole number. -/
def integer?
    (d : Data) : Option Int :=
  d.toInteger.toOption

/- A text. -/
def text?
    (d : Data) : Option String :=
  d.toText.toOption

/- A truth value. -/
def bool?
    (d : Data) : Option Bool :=
  d.toBool.toOption

/- A list of values of one sort. -/
def list?
    {α : Type}
    (read : Data → Option α) : Data → Option (List α)
  | list items => items.mapM read
  | _ => none

/- The absence of a value, or an accidental. -/
def accidental? : Data → Option (Option Accidental)
  | null => some none
  | text s => some (some (.ofSign s))
  | _ => none

/- A location. -/
def location?
    (d : Data) : Option Location := do
  let fields ← Fields.ofData? d
  let line ← fields.optional "line" integer? 0
  let column ← fields.optional "col" integer? 0
  return ⟨line, column⟩

end Data

------------------------------------------------------------
-- Choices
------------------------------------------------------------

/-
  One way to read data: the fields that it
  takes, and the reading.
-/
structure Choice (α : Type) where
  names : List String
  read : Fields → Option α

namespace Choice

variable {α β : Type}

/- A choice whose result is taken further. -/
def map
    (f : α → β)
    (c : Choice α) : Choice β :=
  ⟨c.names, fun fields => (c.read fields).map f⟩

/-
  The reading that takes most fields, of those that succeed;
  of two that take equally many the earlier.
-/
def best
    (choices : List (Choice α))
    (fields : Fields) : Option α :=
  (choices.foldl better none).map Prod.snd
where
  /- The better of the best so far and one more. -/
  better
      (found : Option (Nat × α))
      (c : Choice α) : Option (Nat × α) :=
    match c.read fields, found with
    | none, found => found
    | some a, none => some (fields.count c.names, a)
    | some a, some (n, b) =>
      if n < fields.count c.names then
        some (fields.count c.names, a)
      else some (n, b)

end Choice

------------------------------------------------------------
-- Directives
------------------------------------------------------------

namespace DirectiveName

/- The field that holds the number of a directive. -/
def field : DirectiveName → String
  | pickup => "count"
  | beatUnit => "duration"
  | tempo => "bpm"
  | key => "count"
  | referenceOctave => "octave"
  | instrument => "instrument"
  | volume => "level"

/- The order of a directive of this name. -/
def readOrder
    (name : DirectiveName)
    (fields : Fields) : Option Order :=
  match name with
  | pickup =>
      (fields.required name.field Data.integer?).map .pickup
  | beatUnit =>
      (fields.required name.field Data.text?).map .beatUnit
  | tempo =>
      (fields.required name.field Data.integer?).map .tempo
  | key => do
    let accidental ←
      fields.optional "accidental" Data.accidental? none
    let count ← fields.required name.field Data.integer?
    return .key accidental count
  | referenceOctave =>
      (fields.required name.field Data.integer?).map
        .referenceOctave
  | instrument =>
      (fields.required name.field Data.integer?).map
        .instrument
  | volume =>
      (fields.required name.field Data.integer?).map .volume

/- Reading a directive of this name. -/
def choice
    (name : DirectiveName) : Choice Directive where
  names :=
    ["type", "location", name.field] ++
      if name = key then ["accidental"] else []
  read fields := do
    fields.constant "type" name.letter
    let order ← name.readOrder fields
    let location ← fields.optional "location" Data.location? {}
    return ⟨order, location⟩

end DirectiveName

/- A directive that names its type. -/
def Directive.ofData?
    (d : Data) : Option Directive := do
  let fields ← Fields.ofData? d
  let letter ← fields.required "type" Data.text?
  let name ← DirectiveName.ofText? letter
  name.choice.read fields

------------------------------------------------------------
-- Lyric lines
------------------------------------------------------------

/- Reading a subdivision. -/
def Subdivision.choice : Choice Subdivision where
  names := ["kind", "text", "location"]
  read fields := do
    let word ← fields.required "kind" Data.text?
    let kind ← SubdivisionKind.ofName? word
    let text ← fields.required "text" Data.text?
    let location ← fields.optional "location" Data.location? {}
    return ⟨kind, text, location⟩

/- An element of a beat. -/
def BeatElement.ofData?
    (d : Data) : Option BeatElement := do
  let fields ← Fields.ofData? d
  Choice.best
    (Subdivision.choice.map .subdivision ::
      DirectiveName.all.map fun name =>
        name.choice.map .directive) fields

/- A beat. -/
def Beat.ofData?
    (d : Data) : Option Beat := do
  let fields ← Fields.ofData? d
  let elements ←
    fields.optional "elements"
      (Data.list? BeatElement.ofData?) []
  let location ← fields.optional "location" Data.location? {}
  return ⟨elements, location⟩

/- A measure of lyrics. -/
def LyricMeasure.ofData?
    (d : Data) : Option LyricMeasure := do
  let fields ← Fields.ofData? d
  let beats ←
    fields.optional "beats" (Data.list? Beat.ofData?) []
  let barline ← fields.optional "barline" Data.bool? false
  let location ← fields.optional "location" Data.location? {}
  return ⟨beats, barline, location⟩

/- A line of lyrics. -/
def LyricLine.ofData?
    (d : Data) : Option LyricLine := do
  let fields ← Fields.ofData? d
  let directives ←
    fields.optional "directives"
      (Data.list? Directive.ofData?) []
  let measures ←
    fields.optional "measures"
      (Data.list? LyricMeasure.ofData?) []
  let location ← fields.optional "location" Data.location? {}
  return ⟨directives, measures, location⟩

------------------------------------------------------------
-- Pitch lines
------------------------------------------------------------

/- Reading a pitch. -/
def Pitch.choice : Choice Pitch where
  names :=
    ["kind", "note", "accidental", "octave_shift",
      "location"]
  read fields := do
    fields.constant "kind" "Pitch"
    let note ← fields.required "note" Data.text?
    let letter ← Letter.ofName? note
    let accidental ←
      fields.optional "accidental" Data.accidental? none
    let shift ← fields.optional "octave_shift" Data.integer? 0
    let location ← fields.optional "location" Data.location? {}
    return ⟨letter, accidental, shift, location⟩

/- A pitch. -/
def Pitch.ofData?
    (d : Data) : Option Pitch :=
  Fields.ofData? d >>= Pitch.choice.read

/- Reading a chord. -/
def Chord.choice : Choice Chord where
  names := ["kind", "pitches", "location"]
  read fields := do
    fields.constant "kind" "Chord"
    let pitches ←
      fields.optional "pitches"
        (Data.list? Pitch.ofData?) []
    let location ← fields.optional "location" Data.location? {}
    return ⟨pitches, location⟩

/- An element of a pitch line. -/
def PitchElement.ofData?
    (d : Data) : Option PitchElement := do
  let fields ← Fields.ofData? d
  Choice.best
    (Pitch.choice.map .pitch :: Chord.choice.map .chord ::
      DirectiveName.all.map fun name =>
        name.choice.map .directive) fields

/- A measure of pitches. -/
def PitchMeasure.ofData?
    (d : Data) : Option PitchMeasure := do
  let fields ← Fields.ofData? d
  let elements ←
    fields.optional "elements"
      (Data.list? PitchElement.ofData?) []
  let barline ← fields.optional "barline" Data.bool? false
  let location ← fields.optional "location" Data.location? {}
  return ⟨elements, barline, location⟩

/- A line of pitches. -/
def PitchLine.ofData?
    (d : Data) : Option PitchLine := do
  let fields ← Fields.ofData? d
  let directives ←
    fields.optional "directives"
      (Data.list? Directive.ofData?) []
  let measures ←
    fields.optional "measures"
      (Data.list? PitchMeasure.ofData?) []
  let location ← fields.optional "location" Data.location? {}
  return ⟨directives, measures, location⟩

------------------------------------------------------------
-- Scores
------------------------------------------------------------

/- A block. -/
def Block.ofData?
    (d : Data) : Option Block := do
  let fields ← Fields.ofData? d
  fields.constant "kind" "MusicBlock"
  let lyricLines ←
    fields.optional "lyric_lines"
      (Data.list? LyricLine.ofData?) []
  let pitchLines ←
    fields.optional "pitch_lines"
      (Data.list? PitchLine.ofData?) []
  return ⟨lyricLines, pitchLines⟩

/- A score. -/
def Score.ofData?
    (d : Data) : Option Score := do
  let fields ← Fields.ofData? d
  let title ← fields.optional "title" (Data.list? Data.text?) []
  let blocks ←
    fields.optional "blocks" (Data.list? Block.ofData?) []
  return ⟨title, blocks⟩

end LyricScore
