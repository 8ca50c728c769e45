import LyricScore.Failure
import LyricScore.Midi.File
import LyricScore.Performance.Action

/-
  This file defines how actions become the events of a track.
  The time of an action is rounded to a tick, and an event
  tells its distance from the one before.  A distance that is
  too long for one event is made up by events that repeat the
  tempo in force.

  Key definitions include:
    * `fillerCount`
    * `Schedule`
    * `Schedule.event`
    * `Schedule.action`
    * `Schedule.actions`
    * `Score.events`
    * `Score.midi`
-/

namespace LyricScore

------------------------------------------------------------
-- Schedules
------------------------------------------------------------

/-
  How many events fill a distance until what is left of it
  fits one event.
-/
def fillerCount
    (distance : Int) : Nat :=
  ((distance - 1) / Midi.maxQuantity).toNat

/- The tick of the last event, and the tempo in force. -/
structure Schedule where
  tick : Int := 0
  tempo : Int
deriving DecidableEq, Repr

namespace Schedule

/- The event of an action. -/
def event
    (channel : Int)
    (delta : Int) : Act → Except MidiError MidiEvent
  | .tempo microseconds => MidiEvent.setTempo delta microseconds
  | .program number =>
      MidiEvent.programChange delta number channel
  | .strike voice velocity =>
      MidiEvent.noteOn delta voice.note velocity channel
  | .release note => MidiEvent.noteOn delta note 0 channel

/- The tempo in force behind an action. -/
def tempoAfter
    (tempo : Int) : Act → Int
  | .tempo microseconds => microseconds
  | _ => tempo

/- The events of an action: fillers, and the action's own. -/
def action
    (channel : Int)
    (s : Schedule)
    (a : Action) :
      Except MidiError (List MidiEvent × Schedule) := do
  let tick := roundHalfEven a.time
  let distance := tick - s.tick
  let count := fillerCount distance
  let fillers ← (List.replicate count ()).mapM fun _ =>
    MidiEvent.setTempo Midi.maxQuantity s.tempo
  let own ←
    event channel
      (distance - count * Midi.maxQuantity) a.act
  return (fillers ++ [own], ⟨tick, tempoAfter s.tempo a.act⟩)

/- The events of actions in turn. -/
def actions
    (channel : Int)
    (s : Schedule) :
      List Action → Except MidiError (List MidiEvent)
  | [] => .ok []
  | a :: rest => do
    let (first, s) ← s.action channel a
    let more ← actions channel s rest
    return first ++ more

end Schedule

------------------------------------------------------------
-- Scores
------------------------------------------------------------

namespace Score

/- The events that play a score. -/
def events
    (settings : AudioSettings)
    (s : Score) : Except Failure (List MidiEvent) := do
  let actions ← (s.actions settings).mapError .numeral
  let schedule : Schedule :=
    { tempo := (Player.start settings).tempo }
  (schedule.actions settings.channel actions).mapError .midi

/- The file that plays a score, with one track. -/
def midi
    (settings : AudioSettings)
    (s : Score) : Except Failure (List UInt8) := do
  let events ← s.events settings
  (Midi.file [events] settings.ticksPerQuarter).mapError .midi

/-
  The voices that a score strikes outside
  of the notes there are.
-/
def clampedVoices
    (settings : AudioSettings)
    (s : Score) : Except Failure (List Voice) := do
  let actions ← (s.actions settings).mapError .numeral
  return actions.filterMap fun a =>
    match a.act with
    | .strike v _ => if v.IsClamped then some v else none
    | _ => none

end Score

/-
  What is remarked about a voice outside
  of the notes there are.
-/
def Voice.clampRemark
    (v : Voice) : String :=
  "Pitch " ++ v.tone.name ++ " out of MIDI range, clamped"

end LyricScore
