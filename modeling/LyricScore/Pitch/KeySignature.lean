import LyricScore.Pitch.Tone

/-
  This file defines key signatures and the memory of a
  measure.  A written accidental holds for its letter in its
  octave until the next barline; elsewhere the key signature
  decides.

  Key definitions include:
    * `KeySignature`
    * `KeySignature.accidentalOf`
    * `KeyMemory`
    * `KeyMemory.setKey`
    * `KeyMemory.endMeasure`
    * `KeyMemory.resolve`
-/

namespace LyricScore

------------------------------------------------------------
-- Key signatures
------------------------------------------------------------

/- The letters in the order in which keys sharpen them. -/
def sharpOrder : List Letter :=
  [.f, .c, .g, .d, .a, .e, .b]

/- The letters in the order in which keys flatten them. -/
def flatOrder : List Letter :=
  [.b, .e, .a, .d, .g, .c, .f]

/-
  The first letters of an order.  A negative count is how many
  letters at the end are left out.
-/
def firstLetters
    (order : List Letter)
    (count : Int) : List Letter :=
  if 0 ≤ count then order.take count.toNat
  else order.take (order.length - count.natAbs)

/- A sign, and how many letters it alters. -/
structure KeySignature where
  accidental : Option Accidental := none
  count : Int := 0
deriving DecidableEq, Repr

namespace KeySignature

/- The accidental that a key gives to a letter. -/
def accidentalOf
    (k : KeySignature)
    (letter : String) : Accidental :=
  let altered (order : List Letter) : Bool :=
    (firstLetters order k.count).any fun l => l.name == letter
  match k.accidental with
  | some .sharp =>
      if altered sharpOrder then .sharp else .natural
  | some .flat => if altered flatOrder then .flat else .natural
  | _ => .natural

end KeySignature

------------------------------------------------------------
-- Memory
------------------------------------------------------------

/-
  A key signature, and the accidentals written in the measure,
  the latest first, under the names of their tones.
-/
structure KeyMemory where
  signature : KeySignature := {}
  marks : List (String × Accidental) := []
deriving DecidableEq, Repr

namespace KeyMemory

/- Change the key signature; written accidentals stay. -/
def setKey
    (m : KeyMemory)
    (accidental : Option Accidental)
    (count : Int) : KeyMemory :=
  { m with signature := ⟨accidental, count⟩ }

/- Forget the accidentals of the measure. -/
def endMeasure
    (m : KeyMemory) : KeyMemory :=
  { m with marks := [] }

/- A sign that is there and not empty. -/
def explicit? : Option Accidental → Option Accidental
  | some (.unknown "") => none
  | written => written

/-
  The accidental that applies to a tone, and the memory
  behind it.  A written one applies and is kept; else the one
  kept for the tone applies, and else that of the key.
-/
def resolve
    (m : KeyMemory)
    (letter : String)
    (octave : Int)
    (written : Option Accidental) : Accidental × KeyMemory :=
  let tone := toneName letter octave
  match explicit? written with
  | some a => (a, { m with marks := (tone, a) :: m.marks })
  | none =>
      ((m.marks.lookup tone).getD
          (m.signature.accidentalOf letter), m)

end KeyMemory

end LyricScore
