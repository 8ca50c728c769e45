import LyricScore.Midi.Event
import LyricScore.Midi.Quantity

/-
  This file defines MIDI files: a header and a chunk for each
  track.  A channel message leaves out its status byte if the
  channel message before it had the same one and no meta event
  stands between them.

  Key definitions include:
    * `Midi.fixed`
    * `Midi.message`
    * `Midi.events`
    * `Midi.track`
    * `Midi.header`
    * `Midi.file`
-/

namespace LyricScore

namespace Midi

------------------------------------------------------------
-- Fields
------------------------------------------------------------

/-
  A number in a field of fixed width, the most
  significant byte first.
-/
def bigEndian
    (n : Nat) : Nat → List UInt8
  | 0 => []
  | width + 1 =>
      bigEndian (n / 0x100) width ++
        [UInt8.ofNat (n % 0x100)]

/- A number, if it fits a field of `width` bytes. -/
def fixed
    (width : Nat)
    (n : Int) : Except MidiError (List UInt8) :=
  if 0 ≤ n ∧ n < Nat.pow 0x100 width then
    .ok (bigEndian n.toNat width)
  else .error .fieldTooSmall

/- The bytes of a chunk name. -/
def tag
    (name : String) : List UInt8 :=
  name.toList.map fun c => UInt8.ofNat c.toNat

------------------------------------------------------------
-- Tracks
------------------------------------------------------------

/-
  The bytes of an event behind its delta time, and
  the status that runs on from it, when the status
  `running` runs on to it.
-/
def message
    (running : Option Nat)
    (e : MidiEvent) :
      Except MidiError (List UInt8 × Option Nat) :=
  match e.status? with
  | none => do
    let length ← Quantity.encode e.metaData.length
    let type := UInt8.ofNat (e.metaType.getD 0).toNat
    return (0xFF :: type :: length ++ e.metaData, none)
  | some status =>
    let head :=
      if running = some status then []
      else [UInt8.ofNat status]
    let parameters := e.param1.toList ++ e.param2.toList
    .ok (head ++ parameters.map UInt8.ofNat, some status)

/- The bytes of events. -/
def events
    (running : Option Nat) :
      List MidiEvent → Except MidiError (List UInt8)
  | [] => .ok []
  | e :: rest => do
    let delta ← Quantity.encode e.delta
    let (bytes, running) ← message running e
    let more ← events running rest
    return delta ++ bytes ++ more

/-
  The event that ends a track: it follows
  the last one at once.
-/
def endOfTrack : List UInt8 :=
  [0, 0xFF, UInt8.ofNat endType, 0]

/- A track: its name, its length, its events and its end. -/
def track
    (es : List MidiEvent) : Except MidiError (List UInt8) := do
  let body ← events none es
  let length ← fixed 4 ((body ++ endOfTrack).length : Int)
  return tag "MTrk" ++ length ++ body ++ endOfTrack

------------------------------------------------------------
-- Files
------------------------------------------------------------

/- The format of a file: 0 for one track, 1 for several. -/
def format
    (tracks : Nat) : Nat :=
  if tracks > 1 then 1 else 0

/-
  The header: its length, the format, the count of tracks,
  the resolution.
-/
def header
    (tracks : Nat)
    (ticksPerQuarter : Int) :
      Except MidiError (List UInt8) := do
  let count ← fixed 2 tracks
  let resolution ← fixed 2 ticksPerQuarter
  return tag "MThd" ++ bigEndian 6 4 ++
    bigEndian (format tracks) 2 ++ count ++ resolution

/- A file of tracks. -/
def file
    (tracks : List (List MidiEvent))
    (ticksPerQuarter : Int) :
      Except MidiError (List UInt8) := do
  let head ← header tracks.length ticksPerQuarter
  let chunks ← tracks.mapM track
  return head ++ chunks.flatten

end Midi

end LyricScore
