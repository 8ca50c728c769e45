import LyricScore.Midi.File
import LyricScore.Proofs.Midi.Quantity

/-
  This file defines how MIDI files are read.  A file is a
  header and chunks.  In a chunk every event stands behind its
  delta time; a channel message without a status byte has the
  status of the one before it, and a meta event leaves no
  status behind.  A chunk ends with the event that ends its
  track, and its length tells where.

  Key definitions include:
    * `MidiFile`
    * `MidiReader.channelMessage`
    * `MidiReader.metaMessage`
    * `MidiReader.event`
    * `MidiReader.events`
    * `MidiReader.chunk`
    * `MidiReader.file`
-/

namespace LyricScore

/- What a reader finds in a file. -/
structure MidiFile where
  format : Nat
  trackCount : Nat
  ticksPerQuarter : Nat
  tracks : List (List MidiEvent)
deriving DecidableEq, Repr

namespace MidiEvent

/- The event that ends a track at once. -/
def endOfTrack : MidiEvent :=
  ⟨0, .metaEvent, 0, none, none, some endType, []⟩

/-
  What is written of an event: the delta time, and of a meta
  event the type and the data, of a channel message the
  channel and the parameters.
-/
def written
    (e : MidiEvent) : MidiEvent :=
  if e.kind = .metaEvent then
    ⟨e.delta, .metaEvent, 0, none, none, e.metaType,
      e.metaData⟩
  else e

end MidiEvent

namespace MidiReader

------------------------------------------------------------
-- Fields
------------------------------------------------------------

/- The first bytes, and what follows them. -/
def field
    (width : Nat)
    (data : List UInt8) : Option (List UInt8 × List UInt8) :=
  if width ≤ data.length then
    some (data.take width, data.drop width)
  else none

/-
  A number in a field of fixed width, the most
  significant byte first.
-/
def number
    (width : Nat)
    (data : List UInt8) : Option (Nat × List UInt8) :=
  (field width data).map fun (bytes, rest) =>
    (MidiEvent.bigEndian bytes, rest)

/- What follows a chunk name. -/
def tag
    (name : String)
    (data : List UInt8) : Option (List UInt8) := do
  let (bytes, rest) ← field name.length data
  if bytes = Midi.tag name then some rest else none

------------------------------------------------------------
-- Messages
------------------------------------------------------------

/- A byte without the high bit. -/
def dataByte : List UInt8 → Option (Nat × List UInt8)
  | [] => none
  | b :: rest =>
      if b.toNat < 0x80 then some (b.toNat, rest) else none

/-
  The kind of a channel message; the channel is the low half
  of the status.
-/
def kind?
    (status : Nat) : Option MidiKind :=
  MidiKind.all.find? fun kind =>
    kind.status? = some (status / 16 * 16)

/-
  A channel message behind its status: one data byte for a
  change of the program, and two for any other.
-/
def channelMessage
    (delta status : Nat)
    (data : List UInt8) : Option (MidiEvent × List UInt8) := do
  let kind ← kind? status
  let (first, rest) ← dataByte data
  if kind = .programChange then
    return (⟨delta, kind, status % 16, some first, none,
        none, []⟩, rest)
  else do
    let (second, rest) ← dataByte rest
    return (⟨delta, kind, status % 16, some first,
        some second, none, []⟩, rest)

/-
  A meta event behind its first byte: a type, a length and
  as many data bytes.
-/
def metaMessage
    (delta : Nat) : List UInt8 → Option (MidiEvent × List UInt8)
  | [] => none
  | type :: rest => do
    let (length, rest) ← Quantity.read rest
    let (data, rest) ← field length rest
    return (⟨delta, .metaEvent, 0, none, none,
        some type.toNat, data⟩, rest)

/-
  An event behind its delta time, the status that runs on from
  it, and what follows it.  A data byte where a status is due
  belongs to a message with the status `running`.
-/
def event
    (running : Option Nat)
    (delta : Nat) :
      List UInt8 →
        Option (MidiEvent × Option Nat × List UInt8)
  | [] => none
  | b :: rest =>
    if b.toNat = 0xFF then
      (metaMessage delta rest).map fun (e, rest) =>
        (e, none, rest)
    else if b.toNat < 0x80 then do
      let status ← running
      let (e, rest) ← channelMessage delta status (b :: rest)
      return (e, some status, rest)
    else
      (channelMessage delta b.toNat rest).map
        fun (e, rest) => (e, some b.toNat, rest)

------------------------------------------------------------
-- Nothing is read twice
------------------------------------------------------------

/- Reading a field puts no bytes back. -/
theorem length_field_le
    {width : Nat}
    {data bytes rest : List UInt8}
    (hField : field width data = some (bytes, rest)) :
    rest.length ≤ data.length := by
  unfold field at hField
  split at hField
  · cases hField
    rw [List.length_drop]
    exact Nat.sub_le _ _
  · cases hField

theorem length_dataByte_lt
    {n : Nat}
    {data rest : List UInt8}
    (hByte : dataByte data = some (n, rest)) :
    rest.length < data.length := by
  cases data with
  | nil =>
      cases hByte
  | cons b data =>
      rw [dataByte] at hByte
      split at hByte
      · cases hByte
        exact Nat.lt_succ_self _
      · cases hByte

theorem length_channelMessage_le
    {delta status : Nat}
    {data rest : List UInt8}
    {e : MidiEvent}
    (hMessage :
      channelMessage delta status data = some (e, rest)) :
    rest.length ≤ data.length := by
  simp only [channelMessage, Option.bind_eq_bind,
    Option.bind_eq_some_iff] at hMessage
  rcases hMessage with ⟨kind, -, ⟨first, behind⟩, hFirst, hRest⟩
  have hBehind := length_dataByte_lt hFirst
  split at hRest
  · cases hRest
    exact Nat.le_of_lt hBehind
  · rw [Option.bind_eq_some_iff] at hRest
    rcases hRest with ⟨⟨second, after⟩, hSecond, hEvent⟩
    cases hEvent
    exact Nat.le_of_lt
      (Nat.lt_trans (length_dataByte_lt hSecond) hBehind)

theorem length_metaMessage_le
    {delta : Nat}
    {data rest : List UInt8}
    {e : MidiEvent}
    (hMessage : metaMessage delta data = some (e, rest)) :
    rest.length ≤ data.length := by
  cases data with
  | nil =>
      cases hMessage
  | cons type data =>
      simp only [metaMessage, Option.bind_eq_bind,
        Option.bind_eq_some_iff] at hMessage
      rcases hMessage with
        ⟨⟨length, behind⟩, hLength, ⟨bytes, after⟩, hField,
          hEvent⟩
      cases hEvent
      have hBehind := Quantity.length_read_lt hLength
      exact Nat.le_succ_of_le
        (Nat.le_trans (length_field_le hField)
          (Nat.le_of_lt hBehind))

theorem length_event_le
    {running last : Option Nat}
    {delta : Nat}
    {data rest : List UInt8}
    {e : MidiEvent}
    (hEvent : event running delta data = some (e, last, rest)) :
    rest.length ≤ data.length := by
  cases data with
  | nil =>
      cases hEvent
  | cons b data =>
      rw [event] at hEvent
      split at hEvent
      · rcases Option.map_eq_some_iff.mp hEvent with
          ⟨found, hMessage, hFound⟩
        cases hFound
        exact Nat.le_succ_of_le (length_metaMessage_le hMessage)
      · split at hEvent
        · simp only [Option.bind_eq_bind,
            Option.bind_eq_some_iff] at hEvent
          rcases hEvent with
            ⟨status, -, found, hMessage, hFound⟩
          cases hFound
          exact length_channelMessage_le hMessage
        · rcases Option.map_eq_some_iff.mp hEvent with
            ⟨found, hMessage, hFound⟩
          cases hFound
          exact Nat.le_succ_of_le
            (length_channelMessage_le hMessage)

------------------------------------------------------------
-- Tracks and files
------------------------------------------------------------

/- The event that ends a track, at whatever time. -/
def IsEndOfTrack
    (e : MidiEvent) : Prop :=
  e.kind = .metaEvent ∧
    e.metaType = some (endType : Int) ∧
    e.metaData = []

instance
    (e : MidiEvent) :
    Decidable (IsEndOfTrack e) := by
  unfold IsEndOfTrack
  infer_instance

/-
  The events up to the one that ends the
  track, and what follows it.
-/
def events
    (running : Option Nat)
    (data : List UInt8) :
      Option (List MidiEvent × List UInt8) :=
  match _hDelta : Quantity.read data with
  | none => none
  | some (delta, behind) =>
    match _hEvent : event running delta behind with
    | none => none
    | some (e, last, rest) =>
      if IsEndOfTrack e then some ([e], rest)
      else
        (events last rest).map fun (es, after) =>
          (e :: es, after)
termination_by data.length
decreasing_by
  have hBehind := Quantity.length_read_lt _hDelta
  have hRest := length_event_le _hEvent
  omega

/-
  A chunk of a track: its events take just as many bytes as
  its length says.
-/
def chunk
    (data : List UInt8) :
      Option (List MidiEvent × List UInt8) := do
  let rest ← tag "MTrk" data
  let (length, rest) ← number 4 rest
  let (body, rest) ← field length rest
  let (es, left) ← events none body
  if left = [] then some (es, rest) else none

/- So many chunks, and what follows them. -/
def chunks :
  Nat →
    List UInt8 →
    Option (List (List MidiEvent) × List UInt8)
  | 0, data => some ([], data)
  | count + 1, data => do
    let (es, rest) ← chunk data
    let (more, rest) ← chunks count rest
    return (es :: more, rest)

/- A file, and what follows it. -/
def file
    (data : List UInt8) : Option (MidiFile × List UInt8) := do
  let rest ← tag "MThd" data
  let (length, rest) ← number 4 rest
  if length ≠ 6 then none
  else do
    let (format, rest) ← number 2 rest
    let (trackCount, rest) ← number 2 rest
    let (ticksPerQuarter, rest) ← number 2 rest
    let (tracks, rest) ← chunks trackCount rest
    return (⟨format, trackCount, ticksPerQuarter, tracks⟩, rest)

end MidiReader

end LyricScore
