/-
  This file defines accidentals: the signs that alter a note.

  Key definitions include:
    * `Accidental`
    * `Accidental.sign`
    * `Accidental.ofSign`
    * `Accidental.semitones`
    * `Accidental.IsSharp`
    * `Accidental.IsFlat`
    * `Accidental.glyph`
-/

namespace LyricScore

/-
  An accidental.  A score that was not read from
  a text may hold a sign that has no meaning;
  such a sign alters nothing.
-/
inductive Accidental where
  | sharp
  | doubleSharp
  | flat
  | doubleFlat
  | natural
  | unknown (sign : String)
deriving DecidableEq, Repr

namespace Accidental

/- The sign that is written for an accidental. -/
def sign : Accidental → String
  | sharp => "#"
  | doubleSharp => "##"
  | flat => "&"
  | doubleFlat => "&&"
  | natural => "%"
  | unknown sign => sign

/- The accidental that a sign is written for. -/
def ofSign
    (sign : String) : Accidental :=
  if sign = "#" then sharp
  else if sign = "##" then doubleSharp
  else if sign = "&" then flat
  else if sign = "&&" then doubleFlat
  else if sign = "%" then natural
  else unknown sign

/- An accidental keeps its sign. -/
theorem sign_ofSign
    (sign : String) :
    (ofSign sign).sign = sign := by
  unfold ofSign
  repeat' split
  all_goals simp_all [Accidental.sign]

/- By how many semitones an accidental raises a note. -/
def semitones : Accidental → Int
  | sharp => 1
  | doubleSharp => 2
  | flat => -1
  | doubleFlat => -2
  | natural => 0
  | unknown _ => 0

/- One or two sharps. -/
def IsSharp
    (x : Accidental) : Prop :=
  x = sharp ∨ x = doubleSharp

instance
    (x : Accidental) :
    Decidable (IsSharp x) := by
  unfold IsSharp
  infer_instance

/- One or two flats. -/
def IsFlat
    (x : Accidental) : Prop :=
  x = flat ∨ x = doubleFlat

instance
    (x : Accidental) :
    Decidable (IsFlat x) := by
  unfold IsFlat
  infer_instance

/-
  The character of engraved music for an accidental.  A sign
  without meaning is drawn as a natural.
-/
def glyph : Accidental → String
  | sharp => "♯"
  | doubleSharp => "𝄪"
  | flat => "♭"
  | doubleFlat => "𝄫"
  | natural => "♮"
  | unknown _ => "♮"

end Accidental

end LyricScore
