import LyricScore.Drawing.Command
import LyricScore.Score.OfData

/-
  This file defines the drawing commands that data are.

  Key definitions include:
    * `DrawCommand.anchors`
    * `DrawCommand.ofData?`
-/

namespace LyricScore

namespace Data

/- A floating-point number. -/
def real?
    (d : Data) : Option Float :=
  d.toReal.toOption

/- The absence of a value, or a value. -/
def nullable?
    {α : Type}
    (read : Data → Option α) : Data → Option (Option α)
  | null => some none
  | d => (read d).map some

/- Texts by names. -/
def texts? : Data → Option (List (String × String))
  | mapping entries =>
      entries.mapM fun e =>
        (text? e.2).map fun s => (e.1, s)
  | _ => none

end Data

namespace DrawCommand

/- The words for the place that a text is anchored at. -/
def anchors : List String :=
  ["start", "middle", "end"]

/- The word for an anchor. -/
def anchor?
    (d : Data) : Option String := do
  let word ← Data.text? d
  if word ∈ anchors then some word else none

/- A drawing command. -/
def ofData?
    (d : Data) : Option (DrawCommand Float) := do
  let fields ← Fields.ofData? d
  let number (name : String) : Option (Option Float) :=
    fields.optional name (Data.nullable? Data.real?) none
  let word (name : String) : Option (Option String) :=
    fields.optional name (Data.nullable? Data.text?) none
  let primitive ←
    fields.required "type" Data.text? >>= Primitive.ofName?
  let x ← fields.required "x" Data.real?
  let y ← fields.required "y" Data.real?
  let x2 ← number "x2"
  let y2 ← number "y2"
  let width ← number "width"
  let height ← number "height"
  let r ← number "r"
  let text ← word "text"
  let font ← word "font"
  let anchor ←
    fields.optional "anchor" (Data.nullable? anchor?) none
  let color ← word "color"
  let stroke ← word "stroke"
  let strokeWidth ← number "stroke_width"
  let fill ← word "fill"
  let attributes ← fields.optional "attributes" Data.texts? []
  return {
    primitive, x, y, x2, y2, width, height, r, text, font,
    anchor, color, stroke, strokeWidth, fill, attributes }

end DrawCommand

end LyricScore
