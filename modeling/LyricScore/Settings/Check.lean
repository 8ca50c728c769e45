import LyricScore.Data.Coerce
import LyricScore.Settings.Basic

/-
  This file defines how data become settings.  Every field is
  taken on its own: one that is left out takes its default,
  one that is not acceptable is complained about, and one that
  no setting has is passed over.  The settings are accepted if
  there is no complaint.

  Key definitions include:
    * `Checked`
    * `Checked.field`
    * `Coercion.positive`, `Coercion.notNegative`
    * `Coercion.between`
    * `LayoutSettings.check`
    * `AudioSettings.check`
    * `Settings.check`
    * `ConfigError`
    * `Settings.ofData`
-/

namespace LyricScore

------------------------------------------------------------
-- Checked values
------------------------------------------------------------

/-
  A value, and what is complained about in the data that it
  was taken from, by paths.  A value that is complained about
  is the default.
-/
structure Checked (α : Type) where
  value : α
  complaints : List (String × Complaint) := []

namespace Checked

variable {α β : Type}

/- A value of several parts, whose complaints come in turn. -/
def andThen
    (c : Checked α)
    (f : α → Checked β) : Checked β :=
  let d := f c.value
  ⟨d.value, c.complaints ++ d.complaints⟩

instance : Monad Checked where
  pure a := { value := a }
  bind := andThen

/- A value at a path that was read with or without success. -/
def ofExcept
    (path : String)
    (default : α) : Except Complaint α → Checked α
  | .ok a => { value := a }
  | .error e => ⟨default, [(path, e)]⟩

/- The field `name` of the section `group`. -/
def field
    (group : String)
    (entries : List (String × Data))
    (read : Data → Except Complaint α)
    (name : String)
    (default : α) : Checked α :=
  match Data.lookup name entries with
  | none => { value := default }
  | some d => ofExcept (group ++ "." ++ name) default (read d)

end Checked

------------------------------------------------------------
-- Ranges
------------------------------------------------------------

namespace Coercion

variable (k : Coercion)

/- A measure above zero. -/
def positive
    (d : Data) : Except Complaint Float := do
  let x ← k.toReal d
  if Coordinate.lt (Coordinate.nat 0) x then return x
  else throw .notAbove

/- A measure not below zero. -/
def notNegative
    (d : Data) : Except Complaint Float := do
  let x ← k.toReal d
  if Coordinate.le (Coordinate.nat 0) x then return x
  else throw .below

/- A number above zero. -/
def positiveInteger
    (d : Data) : Except Complaint Int := do
  let n ← k.toInteger d
  if n ≤ 0 then throw .notAbove else return n

/- A number above zero and not above another. -/
def positiveUpTo
    (greatest : Int)
    (d : Data) : Except Complaint Int := do
  let n ← k.positiveInteger d
  if greatest < n then throw .above else return n

/- A number from zero up to another. -/
def between
    (greatest : Int)
    (d : Data) : Except Complaint Int := do
  let n ← k.toInteger d
  if n < 0 then throw .below
  else if greatest < n then throw .above
  else return n

/- The code of a note value. -/
def beatUnit
    (d : Data) : Except Complaint String := do
  let code ← k.toText d
  if code ∈ BeatUnit.lengths.map Prod.fst then return code
  else throw .unknownValue

end Coercion

------------------------------------------------------------
-- Sections
------------------------------------------------------------

/- The settings of drawings that fields give. -/
def LayoutSettings.check
    (k : Coercion)
    (entries : List (String × Data)) :
      Checked (LayoutSettings Float) := do
  let d : LayoutSettings Float := .default
  let positive := Checked.field "layout" entries k.positive
  let notNegative :=
    Checked.field "layout" entries k.notNegative
  let any := Checked.field "layout" entries k.toReal
  let text := Checked.field "layout" entries k.toText
  let fontWidth ← positive "font_width" d.fontWidth
  let fontHeight ← positive "font_height" d.fontHeight
  let staffLineSpacing ←
    positive "staff_line_spacing" d.staffLineSpacing
  let baseMargin ← notNegative "base_margin" d.baseMargin
  let topMargin ← notNegative "top_margin" d.topMargin
  let lyricOffset ← any "lyric_offset" d.lyricOffset
  let counterOffset ← any "counter_offset" d.counterOffset
  let bottomMargin ← notNegative "bottom_margin" d.bottomMargin
  let beatGap ← notNegative "beat_gap" d.beatGap
  let barlinePadding ←
    notNegative "barline_padding" d.barlinePadding
  let chordStagger ← notNegative "chord_stagger" d.chordStagger
  let counterRadius ← positive "counter_radius" d.counterRadius
  let titleX ← notNegative "title_x" d.titleX
  let titleTop ← notNegative "title_top" d.titleTop
  let titleLineHeight ←
    positive "title_line_height" d.titleLineHeight
  let guideColor ← text "guide_color" d.guideColor
  let barlineColor ← text "barline_color" d.barlineColor
  let counterColor ← text "counter_color" d.counterColor
  let annotationColor ←
    text "annotation_color" d.annotationColor
  let naturalColor ← text "natural_color" d.naturalColor
  let sharpColor ← text "sharp_color" d.sharpColor
  let flatColor ← text "flat_color" d.flatColor
  let titleFont ← text "title_font" d.titleFont
  let lyricFont ← text "lyric_font" d.lyricFont
  let pitchFont ← text "pitch_font" d.pitchFont
  let counterFont ← text "counter_font" d.counterFont
  let tempoFont ← text "tempo_font" d.tempoFont
  let octaveFont ← text "octave_font" d.octaveFont
  return {
    fontWidth, fontHeight, staffLineSpacing, baseMargin,
    topMargin, lyricOffset, counterOffset, bottomMargin,
    beatGap, barlinePadding, chordStagger, counterRadius,
    titleX, titleTop, titleLineHeight, guideColor,
    barlineColor, counterColor, annotationColor,
    naturalColor, sharpColor, flatColor, titleFont,
    lyricFont, pitchFont, counterFont, tempoFont,
    octaveFont }

/- The settings of playing that fields give. -/
def AudioSettings.check
    (k : Coercion)
    (entries : List (String × Data)) :
      Checked AudioSettings := do
  let d : AudioSettings := {}
  let field {α : Type} (read : Data → Except Complaint α) :=
    Checked.field "audio" entries read
  let ticksPerQuarter ←
    field (k.positiveUpTo 0x7FFF) "ticks_per_quarter"
      d.ticksPerQuarter
  let defaultTempo ←
    field k.positiveInteger "default_tempo" d.defaultTempo
  let defaultBeatUnit ←
    field k.beatUnit "default_beat_duration" d.defaultBeatUnit
  let defaultVelocity ←
    field (k.between 100) "default_velocity" d.defaultVelocity
  let defaultInstrument ←
    field (k.between 127) "default_instrument"
      d.defaultInstrument
  let channel ← field (k.between 15) "channel" d.channel
  return {
    ticksPerQuarter, defaultTempo, defaultBeatUnit,
    defaultVelocity, defaultInstrument, channel }

/- A section of the settings, with its default. -/
def Checked.group
    {α : Type}
    (entries : List (String × Data))
    (name : String)
    (check : List (String × Data) → Checked α)
    (default : α) : Checked α :=
  match Data.lookup name entries with
  | none => { value := default }
  | some (.mapping fields) => check fields
  | some _ => ⟨default, [(name, .notAMapping)]⟩

------------------------------------------------------------
-- Settings
------------------------------------------------------------

/-
  Why data in a file are no settings: something in
  them is complained about, they are no mapping,
  or the file is malformed.
-/
inductive ConfigError where
  | invalid (complaints : List (String × Complaint))
  | notAMapping
  | unreadable
deriving DecidableEq, Repr

namespace Settings

/- The settings that fields give. -/
def check
    (k : Coercion)
    (entries : List (String × Data)) : Checked Settings := do
  let layout ←
    Checked.group entries "layout" (LayoutSettings.check k)
      .default
  let audio ←
    Checked.group entries "audio" (AudioSettings.check k) {}
  return { layout, audio }

/-
  The settings that data give, if nothing
  is complained about.
-/
def ofData
    (k : Coercion) : Data → Except ConfigError Settings
  | .mapping entries =>
    let checked := check k entries
    if checked.complaints = [] then .ok checked.value
    else .error (.invalid checked.complaints)
  | _ => .error (.invalid [("", .notAMapping)])

end Settings

end LyricScore
