import LyricScore.Pitch.KeySignature
import LyricScore.Pitch.Melody
import LyricScore.Stream.Cue

/-
  This file defines the voices of a block: which tones each
  attack sounds, and with which accidentals.  Drawing and
  playing a block both start from its voices.

  Key definitions include:
    * `Attack`
    * `Voicing`
    * `Voicing.follow`
    * `Voicing.sound`
    * `Voicing.attack`
    * `Voicing.cues`
    * `Block.voices`
-/

namespace LyricScore

/-
  What an attack sounds: what it received, the voices of it,
  and the octave that is on the center line then.
-/
structure Attack where
  delivery : Delivery
  voices : List Voice
  referenceOctave : Int
deriving DecidableEq, Repr

/- The state of a block: its key and its melody. -/
structure Voicing where
  memory : KeyMemory := {}
  melody : Melody := {}
deriving DecidableEq, Repr

namespace Voicing

/- Follow a directive of the pitch stream. -/
def follow
    (v : Voicing)
    (d : Directive) : Voicing :=
  match d.order with
  | .key accidental count =>
      { v with memory := v.memory.setKey accidental count }
  | .referenceOctave octave =>
      { v with
        melody := v.melody.setReferenceOctave octave }
  | _ => v

/- Give tones the accidentals that apply to them, in turn. -/
def spellTones
    (m : KeyMemory) : List WrittenTone → List Voice × KeyMemory
  | [] => ([], m)
  | t :: ts =>
    let (accidental, m) :=
      m.resolve t.tone.letter.name t.tone.octave
        t.accidental
    let (voices, m) := spellTones m ts
    (⟨t.tone, accidental⟩ :: voices, m)

/-
  The tones of a pitch or a chord, and
  the melody behind them.
-/
def tones
    (m : Melody) : Sounding → List WrittenTone × Melody
  | .pitch p =>
    let (tone, m) := m.pitch p.letter p.shift
    ([⟨tone, p.accidental⟩], m)
  | .chord c => m.chord c.pitches

/- The voices of a pitch or a chord. -/
def sound
    (v : Voicing)
    (s : Sounding) : List Voice × Voicing :=
  let (written, melody) := tones v.melody s
  let (voices, memory) := spellTones v.memory written
  (voices, ⟨memory, melody⟩)

/- What an attack sounds with what it received. -/
def attack
    (v : Voicing)
    (delivery : Delivery) : Attack × Voicing :=
  let v := delivery.handed.foldl follow v
  match delivery.element with
  | none => (⟨delivery, [], v.melody.referenceOctave⟩, v)
  | some s =>
    let (voices, v) := v.sound s
    (⟨delivery, voices, v.melody.referenceOctave⟩, v)

/- What the subdivisions of a beat sound. -/
def slots
    (v : Voicing) :
      List (Slot Delivery) → List (Slot Attack) × Voicing
  | [] => ([], v)
  | s :: rest =>
    let (attack, v) := v.attack s.content
    let (done, v) := slots v rest
    (⟨s.subdivision, attack⟩ :: done, v)

/- What the beats of a block sound. -/
def cues
    (v : Voicing) : List (Cue Delivery) → List (Cue Attack)
  | [] => []
  | .directive d :: rest => .directive d :: cues v rest
  | .barline i :: rest =>
    .barline i ::
      cues { v with memory := v.memory.endMeasure } rest
  | .beat b received :: rest =>
    let (done, v) := v.slots received
    .beat b done :: cues v rest

end Voicing

/- The lyric stream of a block with what it sounds. -/
def Block.voices
    (b : Block) : List (Cue Attack) :=
  Voicing.cues {} b.cues

end LyricScore
