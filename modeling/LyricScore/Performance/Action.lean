import LyricScore.Midi.Event
import LyricScore.Settings.Basic
import LyricScore.Stream.Voicing

/-
  This file defines how a score is played: as actions at exact
  times.  Tempo, note value, loudness, instrument and sounding
  notes go on from block to block.

  Key definitions include:
    * `Act`
    * `Action`
    * `Player`
    * `Player.start`
    * `Player.followLyrics`
    * `Player.followPitches`
    * `Player.silence`
    * `Player.strike`
    * `Player.attack`
    * `Player.sound`
    * `Player.beat`
    * `Player.cues`
    * `Score.actions`
-/

namespace LyricScore

------------------------------------------------------------
-- Actions
------------------------------------------------------------

/-
  What is done: a tempo is set, a program is changed to, a
  note is struck for a voice, or a note is released.
-/
inductive Act where
  | tempo (microseconds : Int)
  | program (number : Int)
  | strike (voice : Voice) (velocity : Int)
  | release (note : Int)
deriving DecidableEq, Repr

/- What is done, and when, in ticks. -/
structure Action where
  time : Rat
  act : Act
deriving DecidableEq, Repr

/-
  The number of the note that sounds a
  voice: the nearest there is.
-/
def Voice.note
    (v : Voice) : Int :=
  clamp 0 127 v.midiNumber

/- A voice that is outside of the notes there are. -/
def Voice.IsClamped
    (v : Voice) : Prop :=
  v.note ≠ v.midiNumber

instance
    (v : Voice) :
    Decidable v.IsClamped := by
  unfold Voice.IsClamped
  infer_instance

------------------------------------------------------------
-- Players
------------------------------------------------------------

/-
  The state of playing: tempo and note value in force, the
  loudness, the last tempo that was set, the exact time, and
  the sounding notes in the order in which they started.
-/
structure Player where
  bpm : Int
  unit : String
  velocity : Int
  tempo : Int
  now : Rat := 0
  sounding : List Int := []
deriving DecidableEq, Repr

namespace Player

/- The state at the start. -/
def start
    (s : AudioSettings) : Player where
  bpm := s.defaultTempo
  unit := s.defaultBeatUnit
  velocity := s.defaultVelocity
  tempo :=
    microsecondsPerQuarter s.defaultTempo s.defaultBeatUnit

/- Do something now. -/
def act
    (p : Player)
    (a : Act) : Action :=
  ⟨p.now, a⟩

------------------------------------------------------------
-- Directives
------------------------------------------------------------

/- Set the tempo if it is another than the last. -/
def updateTempo
    (p : Player) : List Action × Player :=
  let tempo := microsecondsPerQuarter p.bpm p.unit
  if tempo = p.tempo then ([], p) else
    ([p.act (.tempo tempo)], { p with tempo := tempo })

/- Follow a directive of the lyric stream. -/
def followLyrics
    (p : Player)
    (d : Directive) : List Action × Player :=
  match d.order with
  | .tempo bpm => updateTempo { p with bpm := bpm }
  | .beatUnit code => updateTempo { p with unit := code }
  | _ => ([], p)

/- Follow directives of the lyric stream in turn. -/
def followAllLyrics
    (p : Player) : List Directive → List Action × Player
  | [] => ([], p)
  | d :: ds =>
    let (first, p) := p.followLyrics d
    let (more, p) := followAllLyrics p ds
    (first ++ more, p)

/- Follow a directive of the pitch stream. -/
def followPitches
    (p : Player)
    (d : Directive) : List Action × Player :=
  match d.order with
  | .instrument program =>
      ([p.act (.program (clamp 0 127 (program - 1)))], p)
  | .volume level =>
      ([], { p with velocity := clamp 0 100 level })
  | _ => ([], p)

/- Follow directives of the pitch stream in turn. -/
def followAllPitches
    (p : Player) : List Directive → List Action × Player
  | [] => ([], p)
  | d :: ds =>
    let (first, p) := p.followPitches d
    let (more, p) := followAllPitches p ds
    (first ++ more, p)

------------------------------------------------------------
-- Notes
------------------------------------------------------------

/- Release every sounding note. -/
def silence
    (p : Player) : List Action × Player :=
  (p.sounding.map fun note => p.act (.release note),
    { p with sounding := [] })

/-
  Strike the note of a voice.  The tone of the voice needs a
  name, so its octave may not be too long to be written.
-/
def strike
    (p : Player)
    (v : Voice) : Except NumeralError (Action × Player) :=
  if Numeral.Writable v.tone.octave then
    .ok
      (p.act (.strike v (velocityOfPercent p.velocity)),
        if v.note ∈ p.sounding then p
        else { p with sounding := p.sounding ++ [v.note] })
  else .error .tooLongToWrite

/- Strike the notes of voices in turn. -/
def strikeAll
    (p : Player) :
      List Voice →
        Except NumeralError (List Action × Player)
  | [] => .ok ([], p)
  | v :: vs => do
    let (first, p) ← p.strike v
    let (more, p) ← strikeAll p vs
    return (first :: more, p)

------------------------------------------------------------
-- Beats
------------------------------------------------------------

/-
  Play an attack: follow its directives, release what sounds,
  and strike its voices.
-/
def attack
    (p : Player)
    (a : Attack) :
      Except NumeralError (List Action × Player) := do
  let (directed, p) := p.followAllPitches a.delivery.handed
  let (released, p) := p.silence
  let (struck, p) ← p.strikeAll a.voices
  return (directed ++ released ++ struck, p)

/-
  Play a subdivision; a silence releases,
  and a hyphen lets sound.
-/
def sound
    (p : Player)
    (s : Slot Attack) :
      Except NumeralError (List Action × Player) :=
  if s.subdivision.IsAttack then p.attack s.content
  else if s.subdivision.IsSilence then .ok p.silence
  else .ok ([], p)

/- Let time go on. -/
def wait
    (p : Player)
    (ticks : Rat) : Player :=
  { p with now := p.now + ticks }

/- Play subdivisions that last `step` ticks each in turn. -/
def slots
    (p : Player)
    (step : Rat) :
      List (Slot Attack) →
        Except NumeralError (List Action × Player)
  | [] => .ok ([], p)
  | s :: rest => do
    let (first, p) ← p.sound s
    let (more, p) ← slots (p.wait step) step rest
    return (first ++ more, p)

/-
  Play a beat: follow its directives, and
  share its length out.
-/
def beat
    (ticksPerQuarter : Int)
    (p : Player)
    (b : Beat)
    (parts : List (Slot Attack)) :
      Except NumeralError (List Action × Player) :=
  let (directed, p) := p.followAllLyrics b.directives
  if parts = [] then .ok (directed, p)
  else do
    let ticks ← b.ticks p.unit ticksPerQuarter
    let (played, p) ← p.slots (ticks / parts.length) parts
    return (directed ++ played, p)

/- Play what a block sounds. -/
def cues
    (ticksPerQuarter : Int)
    (p : Player) :
      List (Cue Attack) →
        Except NumeralError (List Action × Player)
  | [] => .ok ([], p)
  | .directive d :: rest => do
    let (first, p) := p.followLyrics d
    let (more, p) ← cues ticksPerQuarter p rest
    return (first ++ more, p)
  | .barline _ :: rest => cues ticksPerQuarter p rest
  | .beat b parts :: rest => do
    let (first, p) ← p.beat ticksPerQuarter b parts
    let (more, p) ← cues ticksPerQuarter p rest
    return (first ++ more, p)

/- Play blocks in turn. -/
def blocks
    (ticksPerQuarter : Int)
    (p : Player) :
      List Block →
        Except NumeralError (List Action × Player)
  | [] => .ok ([], p)
  | b :: rest => do
    let (first, p) ← p.cues ticksPerQuarter b.voices
    let (more, p) ← blocks ticksPerQuarter p rest
    return (first ++ more, p)

end Player

------------------------------------------------------------
-- Scores
------------------------------------------------------------

/-
  Everything that playing a score does.  Tempo
  and instrument are set at the start, and what
  sounds at the end is released.
-/
def Score.actions
    (settings : AudioSettings)
    (s : Score) : Except NumeralError (List Action) := do
  let p := Player.start settings
  let opening :=
    [p.act (.tempo p.tempo),
      p.act (.program settings.defaultInstrument)]
  let (played, p) ← p.blocks settings.ticksPerQuarter s.blocks
  return opening ++ played ++ p.silence.1

end LyricScore
