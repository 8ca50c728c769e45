import LyricScore.Midi.Error
import LyricScore.Text.Quoted

/-
  This file defines the events of a MIDI track.  An event is
  made only if its numbers are in range.

  Key definitions include:
    * `MidiKind`
    * `MidiEvent`
    * `MidiEvent.InRange`
    * `MidiEvent.make`
    * `MidiEvent.noteOn`, `MidiEvent.noteOff`
    * `MidiEvent.controller`, `MidiEvent.programChange`
    * `MidiEvent.setTempo`
    * `MidiEvent.status?`
    * `MidiEvent.tempo?`
    * `MidiEvent.IsNoteOn`
    * `usedPrograms`
-/

namespace LyricScore

------------------------------------------------------------
-- Kinds
------------------------------------------------------------

/- The kinds of events. -/
inductive MidiKind where
  | noteOff
  | noteOn
  | controller
  | programChange
  | metaEvent
deriving DecidableEq, Repr

namespace MidiKind

/- Every kind, once. -/
def all : List MidiKind :=
  [noteOff, noteOn, controller, programChange, metaEvent]

/- The word for a kind. -/
def name : MidiKind → String
  | noteOff => "note_off"
  | noteOn => "note_on"
  | controller => "controller"
  | programChange => "program_change"
  | metaEvent => "meta"

/- The kind that a word names. -/
def ofName
    (word : String) : Except MidiError MidiKind :=
  match all.find? fun kind => kind.name == word with
  | some kind => .ok kind
  | none => .error (.unknownKind (Quoted.quote word))

/- The status byte of a kind on the first channel. -/
def status? : MidiKind → Option Nat
  | noteOff => some 0x80
  | noteOn => some 0x90
  | controller => some 0xB0
  | programChange => some 0xC0
  | metaEvent => none

end MidiKind

------------------------------------------------------------
-- Events
------------------------------------------------------------

/-
  An event.  `delta` is the time in ticks since the event
  before.  The parameters are those of channel messages, and
  the type and the data those of meta events.
-/
structure MidiEvent where
  delta : Nat
  kind : MidiKind
  channel : Nat := 0
  param1 : Option Nat := none
  param2 : Option Nat := none
  metaType : Option Int := none
  metaData : List UInt8 := []
deriving DecidableEq, Repr

/- The type of a meta event that sets the tempo. -/
def tempoType : Nat :=
  0x51

/- The type of the meta event that ends a track. -/
def endType : Nat :=
  0x2F

namespace MidiEvent

/- Every number of an event is in its range. -/
structure InRange
    (e : MidiEvent) : Prop where
  delta : e.delta ≤ Midi.maxQuantity
  channel : e.channel ≤ 15
  param1 : ∀ p ∈ e.param1, p ≤ 127
  param2 : ∀ p ∈ e.param2, p ≤ 127
  metaType :
    e.kind = .metaEvent → ∃ t ∈ e.metaType, 0 ≤ t ∧ t ≤ 127

/- A number from zero up to a greatest one. -/
def check
    (greatest : Nat)
    (error : Int → MidiError)
    (given : Int) : Except MidiError Nat :=
  if 0 ≤ given ∧ given ≤ greatest then .ok given.toNat
  else .error (error given)

/- A number that may be absent. -/
def checkSome
    (greatest : Nat)
    (error : Int → MidiError) :
      Option Int → Except MidiError (Option Nat)
  | none => .ok none
  | some given => (check greatest error given).map some

/- An event, if its numbers are in range. -/
def make
    (delta : Int)
    (kind : MidiKind)
    (channel : Int)
    (param1 param2 : Option Int)
    (metaType : Option Int)
    (metaData : List UInt8) : Except MidiError MidiEvent := do
  let delta ← check Midi.maxQuantity .delta delta
  let channel ← check 15 .channel channel
  let param1 ← checkSome 127 .firstParameter param1
  let param2 ← checkSome 127 .secondParameter param2
  if kind = .metaEvent ∧ ¬ ∃ t ∈ metaType, 0 ≤ t ∧ t ≤ 127 then
    throw (.metaType metaType)
  return ⟨delta, kind, channel, param1, param2, metaType,
    metaData⟩

/- A note starts, or, at velocity zero, ends. -/
def noteOn
    (delta note velocity channel : Int) :
      Except MidiError MidiEvent :=
  make delta .noteOn channel (some note) (some velocity) none []

/- A note ends. -/
def noteOff
    (delta note velocity channel : Int) :
      Except MidiError MidiEvent :=
  make delta .noteOff channel (some note) (some velocity)
    none []

/- A controller takes a value. -/
def controller
    (delta number value channel : Int) :
      Except MidiError MidiEvent :=
  make delta .controller channel (some number) (some value)
    none []

/- The instrument changes. -/
def programChange
    (delta program channel : Int) :
      Except MidiError MidiEvent :=
  make delta .programChange channel (some program) none none []

/- The three bytes of a tempo, the most significant first. -/
def tempoBytes
    (tempo : Nat) : List UInt8 :=
  [UInt8.ofNat (tempo / 0x10000),
    UInt8.ofNat (tempo / 0x100 % 0x100),
    UInt8.ofNat (tempo % 0x100)]

/-
  The tempo changes to a length of a quarter in
  microseconds.
-/
def setTempo
    (delta tempo : Int) : Except MidiError MidiEvent :=
  if tempo < 0 then .error .negativeTempo
  else if tempo > 0xFFFFFF then .error .tempoTooLong
  else
    make delta .metaEvent 0 none none (some tempoType)
      (tempoBytes tempo.toNat)

------------------------------------------------------------
-- Views
------------------------------------------------------------

/- The status byte of a channel message. -/
def status?
    (e : MidiEvent) : Option Nat :=
  e.kind.status?.map (· + e.channel)

/- The number that bytes write, the most significant first. -/
def bigEndian
    (bytes : List UInt8) : Nat :=
  bytes.foldl (fun n b => n * 0x100 + b.toNat) 0

/- The length of a quarter that an event sets. -/
def tempo?
    (e : MidiEvent) : Option Nat :=
  if e.kind = .metaEvent ∧
      e.metaType = some (tempoType : Int) then
    some (bigEndian e.metaData)
  else none

/- A note that starts. -/
def IsNoteOn
    (e : MidiEvent) : Prop :=
  e.kind = .noteOn ∧ ∃ v ∈ e.param2, v ≠ 0

instance
    (e : MidiEvent) :
    Decidable (IsNoteOn e) := by
  unfold IsNoteOn
  infer_instance

end MidiEvent

------------------------------------------------------------
-- Programs
------------------------------------------------------------

/- The programs that events change to, in order. -/
def programChanges
    (events : List MidiEvent) : List Nat :=
  events.filterMap fun e =>
    if e.kind = .programChange then e.param1 else none

/-
  The programs that a player has to load: 0 and those that
  events change to, each once, in ascending order.
-/
def usedPrograms
    (events : List MidiEvent) : List Nat :=
  (0 :: programChanges events).mergeSort.eraseDups

------------------------------------------------------------
-- Loudness
------------------------------------------------------------

/- A number moved into a range. -/
def clamp
    (least greatest : Int)
    (n : Int) : Int :=
  if n < least then least
  else if greatest < n then greatest
  else n

/-
  The velocity from 0 to 127 of a loudness from 0 to 100,
  rounded down.
-/
def velocityOfPercent
    (level : Int) : Int :=
  clamp 0 100 level * 127 / 100

end LyricScore
