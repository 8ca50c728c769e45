import LyricScore.Proofs.Midi.Event
import LyricScore.Proofs.Midi.Reader

/-
  This file shows that a written MIDI file is read back: the
  reader takes every byte of it and finds the same events in
  the same tracks, each track closed by one more event.

  Key definitions include:
    * `MidiEvent.Built`
    * `MidiEvent.IsMessage`, `MidiEvent.IsMeta`, `MidiEvent.IsReadable`
    * `Midi.FitsChunk`

  Key theorems include:
    * `MidiReader.event_message`
    * `MidiReader.events_written`
    * `MidiReader.chunk_track`
    * `Midi.file_reads_back`
-/

namespace LyricScore

------------------------------------------------------------
-- Built events
------------------------------------------------------------

namespace MidiEvent

/-
  Events that are made as a channel message or as a change of
  the tempo, and meta events that end no track and hold no
  more data than a length can tell.
-/
inductive Built
    (e : MidiEvent) : Prop where
  | noteOn (delta note velocity channel : Int)
      (hMake : noteOn delta note velocity channel = .ok e)
  | noteOff (delta note velocity channel : Int)
      (hMake : noteOff delta note velocity channel = .ok e)
  | controller (delta number value channel : Int)
      (hMake : controller delta number value channel = .ok e)
  | programChange (delta program channel : Int)
      (hMake : programChange delta program channel = .ok e)
  | setTempo (delta tempo : Int)
      (hMake : setTempo delta tempo = .ok e)
  | metaEvent (delta channel : Int)
      (param1 param2 metaType : Option Int)
      (data : List UInt8)
      (hMake :
        make delta .metaEvent channel param1 param2
            metaType data =
          .ok e)
      (hType : metaType ≠ some (endType : Int))
      (hLength : data.length ≤ Midi.maxQuantity)

/-
  A channel message with as many data bytes as its kind has.
-/
structure IsMessage
    (e : MidiEvent) : Prop where
  kind : e.kind ≠ .metaEvent
  delta : e.delta ≤ Midi.maxQuantity
  channel : e.channel < 16
  param1 : ∃ first, e.param1 = some first ∧ first < 128
  param2 :
    if e.kind = .programChange then e.param2 = none
    else ∃ second, e.param2 = some second ∧ second < 128
  metaType : e.metaType = none
  metaData : e.metaData = []

/- A meta event that ends no track. -/
structure IsMeta
    (e : MidiEvent) : Prop where
  kind : e.kind = .metaEvent
  delta : e.delta ≤ Midi.maxQuantity
  metaType :
    ∃ type : Nat,
      e.metaType = some (type : Int) ∧
        type < 128 ∧
        type ≠ endType
  metaData : e.metaData.length ≤ Midi.maxQuantity

/-
  An event that one message or one meta
  event of a file tells.
-/
def IsReadable
    (e : MidiEvent) : Prop :=
  e.IsMessage ∨ e.IsMeta

/- An event made with two parameters is a channel message. -/
theorem isMessage_of_two
    {delta channel first second : Int}
    {kind : MidiKind}
    {e : MidiEvent}
    (hKind : kind ≠ .metaEvent)
    (hTwo : kind ≠ .programChange)
    (hMake :
      make delta kind channel (some first) (some second)
          none [] =
        .ok e) :
    e.IsMessage := by
  rcases make_eq_ok_iff.mp hMake with ⟨hAccepts, rfl⟩
  have hDelta := hAccepts.delta
  have hChannel := hAccepts.channel
  have hFirst := hAccepts.param1 first rfl
  have hSecond := hAccepts.param2 second rfl
  refine ⟨hKind, ?_, ?_, ⟨_, rfl, by omega⟩, ?_, rfl, rfl⟩
  · simp only
    omega
  · simp only
    omega
  · rw [if_neg hTwo]
    exact ⟨_, rfl, by omega⟩

/-
  A meta event that does not end the track is a meta
  message, if its data fit.
-/
theorem isMeta_of_make
    {delta channel : Int}
    {param1 param2 metaType : Option Int}
    {data : List UInt8}
    {e : MidiEvent}
    (hMake :
      make delta .metaEvent channel param1 param2
          metaType data =
        .ok e)
    (hType : metaType ≠ some (endType : Int))
    (hLength : data.length ≤ Midi.maxQuantity) :
    e.IsMeta := by
  rcases make_eq_ok_iff.mp hMake with ⟨hAccepts, rfl⟩
  have hDelta := hAccepts.delta
  rcases hAccepts.metaType rfl with ⟨type, hSome, hRange⟩
  rw [Option.mem_def] at hSome
  subst hSome
  have hNat : (type.toNat : Int) = type :=
    Int.toNat_of_nonneg hRange.1
  refine ⟨rfl, ?_, ⟨type.toNat, ?_, by omega, ?_⟩, hLength⟩
  · simp only
    omega
  · rw [hNat]
  · intro hEnd
    rw [← hNat, hEnd] at hType
    exact hType rfl

/- Every built event is readable. -/
theorem Built.isReadable
    {e : MidiEvent}
    (hBuilt : e.Built) :
    e.IsReadable := by
  cases hBuilt with
  | noteOn delta note velocity channel hMake =>
      exact Or.inl
        (isMessage_of_two (by decide) (by decide) hMake)
  | noteOff delta note velocity channel hMake =>
      exact Or.inl
        (isMessage_of_two (by decide) (by decide) hMake)
  | controller delta number value channel hMake =>
      exact Or.inl
        (isMessage_of_two (by decide) (by decide) hMake)
  | programChange delta program channel hMake =>
      left
      rcases make_eq_ok_iff.mp hMake with ⟨hAccepts, rfl⟩
      have hDelta := hAccepts.delta
      have hChannel := hAccepts.channel
      have hProgram := hAccepts.param1 program rfl
      refine
        ⟨by simp, ?_, ?_, ⟨_, rfl, by omega⟩, rfl, rfl, rfl⟩
      · simp only
        omega
      · simp only
        omega
  | setTempo delta tempo hMake =>
      right
      unfold MidiEvent.setTempo at hMake
      split at hMake
      · cases hMake
      · split at hMake
        · cases hMake
        · exact isMeta_of_make hMake (by decide)
            (by simp [tempoBytes, Midi.maxQuantity])
  | metaEvent delta channel param1 param2 metaType data
      hMake hType hLength =>
      exact Or.inr (isMeta_of_make hMake hType hLength)

/- A channel message is written as it is. -/
theorem IsMessage.written
    {e : MidiEvent}
    (hMessage : e.IsMessage) :
    e.written = e :=
  if_neg hMessage.kind

/- A meta message keeps its type and its data alone. -/
theorem IsMeta.written
    {e : MidiEvent}
    (hMeta : e.IsMeta) :
    e.written =
      ⟨e.delta, .metaEvent, 0, none, none, e.metaType,
        e.metaData⟩ :=
  if_pos hMeta.kind

/- What can be read waits for no more than one event can. -/
theorem IsReadable.delta_le
    {e : MidiEvent}
    (hEvent : e.IsReadable) :
    e.delta ≤ Midi.maxQuantity :=
  hEvent.elim IsMessage.delta IsMeta.delta

/- No built event is taken for the end of its track. -/
theorem IsReadable.not_isEndOfTrack
    {e : MidiEvent}
    (hEvent : e.IsReadable) :
    ¬ MidiReader.IsEndOfTrack e.written := by
  rintro ⟨hKind, hType, -⟩
  rcases hEvent with hMessage | hMeta
  · rw [hMessage.written] at hKind
    exact hMessage.kind hKind
  · rcases hMeta.metaType with ⟨type, hSome, -, hOther⟩
    rw [hMeta.written] at hType
    simp only [hSome, Option.some.injEq,
      Int.natCast_inj] at hType
    exact hOther hType

/-
  The low half of the status of a kind is
  free for the channel.
-/
theorem exists_base
    {kind : MidiKind}
    (hKind : kind ≠ .metaEvent) :
    ∃ base,
      kind.status? = some base ∧
        base % 16 = 0 ∧
        0x80 ≤ base ∧
        base ≤ 0xC0 ∧
        (MidiKind.all.find? fun other =>
            other.status? = some base) =
          some kind := by
  cases kind with
  | metaEvent =>
      exact absurd rfl hKind
  | _ =>
      exact ⟨_, rfl, by decide, by decide, by decide, rfl⟩

/- A status byte tells the kind and the channel. -/
theorem exists_status
    {e : MidiEvent}
    (hKind : e.kind ≠ .metaEvent)
    (hChannel : e.channel < 16) :
    ∃ status,
      e.status? = some status ∧
        0x80 ≤ status ∧
        status < 0xFF ∧
        MidiReader.kind? status = some e.kind ∧
        status % 16 = e.channel := by
  rcases exists_base hKind with
    ⟨base, hBase, hLow, hLower, hUpper, hFind⟩
  have hHigh : (base + e.channel) / 16 * 16 = base := by omega
  refine
    ⟨base + e.channel, ?_, by omega, by omega, ?_, by omega⟩
  · rw [status?, hBase, Option.map_some]
  · rw [MidiReader.kind?, hHigh, hFind]

end MidiEvent

------------------------------------------------------------
-- Fields
------------------------------------------------------------

theorem length_bigEndian
    (n width : Nat) :
    (Midi.bigEndian n width).length = width := by
  induction width generalizing n with
  | zero =>
      rfl
  | succ width ih =>
      rw [Midi.bigEndian, List.length_append, ih,
        List.length_singleton]

/- A number is read back from a field that it fits. -/
theorem bigEndian_bigEndian
    {n width : Nat}
    (hFits : n < 256 ^ width) :
    MidiEvent.bigEndian (Midi.bigEndian n width) = n := by
  induction width generalizing n with
  | zero =>
      have hZero : n = 0 := by omega
      rw [hZero]
      rfl
  | succ width ih =>
      have hHead : n / 256 < 256 ^ width := by
        rw [Nat.pow_succ] at hFits
        exact Nat.div_lt_of_lt_mul (by omega)
      have hWritten := ih hHead
      rw [MidiEvent.bigEndian] at hWritten
      rw [MidiEvent.bigEndian, Midi.bigEndian,
        List.foldl_append, hWritten, List.foldl_cons,
        List.foldl_nil,
        toNat_byte (Nat.mod_lt _ (by decide))]
      omega

namespace MidiReader

theorem field_append
    {width : Nat}
    {bytes : List UInt8}
    (hWidth : bytes.length = width)
    (rest : List UInt8) :
    field width (bytes ++ rest) = some (bytes, rest) := by
  subst hWidth
  rw [field, if_pos (by simp), List.take_left, List.drop_left]

/- A number that fits is read as it was written. -/
theorem number_bigEndian
    {n width : Nat}
    (hFits : n < 256 ^ width)
    (rest : List UInt8) :
    number width (Midi.bigEndian n width ++ rest) =
      some (n, rest) := by
  simp only [number,
    field_append (length_bigEndian n width),
    Option.map_some, bigEndian_bigEndian hFits]

theorem tag_append
    (name : String)
    (rest : List UInt8) :
    tag name (Midi.tag name ++ rest) = some rest := by
  have hLength : (Midi.tag name).length = name.length := by
    rw [Midi.tag, List.length_map, String.length_toList]
  simp [tag, field_append hLength]

------------------------------------------------------------
-- Events
------------------------------------------------------------

theorem dataByte_cons
    {n : Nat}
    (hFits : n < 128)
    (rest : List UInt8) :
    dataByte (UInt8.ofNat n :: rest) = some (n, rest) := by
  rw [dataByte, toNat_byte (by omega), if_pos (by omega)]

/- The data bytes behind a status are those of the message. -/
theorem channelMessage_written
    {e : MidiEvent}
    {status : Nat}
    (hMessage : e.IsMessage)
    (hKind : kind? status = some e.kind)
    (hChannel : status % 16 = e.channel)
    (rest : List UInt8) :
    channelMessage e.delta status
        ((e.param1.toList ++ e.param2.toList).map
            UInt8.ofNat ++ rest) =
      some (e, rest) := by
  rcases e with
    ⟨delta, kind, channel, param1, param2, metaType,
      metaData⟩
  rcases hMessage with
    ⟨-, -, -, ⟨first, hFirst, hFits⟩, hSecond, hType, hData⟩
  simp only at hFirst hSecond hType hData hKind hChannel
  subst hFirst hType hData
  by_cases hProgram : kind = .programChange
  · rw [if_pos hProgram] at hSecond
    subst hSecond
    simp [channelMessage, hKind, hChannel, hProgram,
      dataByte_cons hFits]
  · rw [if_neg hProgram] at hSecond
    rcases hSecond with ⟨second, rfl, hFitsSecond⟩
    simp [channelMessage, hKind, hChannel, hProgram,
      dataByte_cons hFits, dataByte_cons hFitsSecond]

/-
  A channel message is read back with its status or without
  it: the status is left out only where it runs on, and there
  the first byte is a data byte.
-/
theorem event_message
    {e : MidiEvent}
    (hMessage : e.IsMessage)
    (running : Option Nat) :
    ∃ bytes last,
      Midi.message running e = .ok (bytes, last) ∧
        ∀ rest,
          event running e.delta (bytes ++ rest) =
            some (e, last, rest) := by
  rcases MidiEvent.exists_status hMessage.kind
    hMessage.channel with
    ⟨status, hStatus, hLower, hUpper, hKind, hChannel⟩
  refine ⟨_, some status, by rw [Midi.message, hStatus], ?_⟩
  intro rest
  have hData :=
    channelMessage_written hMessage hKind hChannel rest
  by_cases hRuns : running = some status
  · rcases hMessage.param1 with ⟨first, hFirst, hFits⟩
    rw [hFirst, Option.toList_some, List.singleton_append,
      List.map_cons, List.cons_append] at hData
    rw [if_pos hRuns, List.nil_append, hFirst,
      Option.toList_some, List.singleton_append,
      List.map_cons, List.cons_append, event,
      toNat_byte (by omega), if_neg (by omega),
      if_pos (by omega), hRuns]
    simp [hData]
  · rw [if_neg hRuns, List.singleton_append,
      List.cons_append, event, toNat_byte (by omega),
      if_neg (by omega), if_neg (by omega), hData]
    rfl

/-
  A meta message is read as it was written,
  whatever status runs on.
-/
theorem event_meta
    {e : MidiEvent}
    (hMeta : e.IsMeta)
    (running : Option Nat) :
    ∃ bytes,
      Midi.message running e = .ok (bytes, none) ∧
        ∀ rest,
          event running e.delta (bytes ++ rest) =
            some (e.written, none, rest) := by
  rcases hMeta.metaType with ⟨type, hType, hFits, -⟩
  have hStatus : e.status? = none := by
    rw [MidiEvent.status?, hMeta.kind]
    rfl
  have hLength := Quantity.encode_of_le hMeta.metaData
  refine ⟨0xFF :: UInt8.ofNat type ::
        Quantity.bytes e.metaData.length ++ e.metaData, ?_,
    ?_⟩
  · simp [Midi.message, hStatus, hLength, hType]
  · intro rest
    have hFirst : (0xFF : UInt8).toNat = 0xFF := rfl
    simp only [List.cons_append, List.append_assoc]
    rw [event, if_pos hFirst, metaMessage,
      Quantity.read_bytes hMeta.metaData, hMeta.written,
      hType]
    simp [field_append,
      toNat_byte
        (Nat.lt_trans hFits (by decide : 128 < 256))]

/-
  The events of a track are read back one by one: whatever
  status runs on to an event, writer and reader agree on the
  one that runs on from it.
-/
theorem events_written
    {es : List MidiEvent}
    (hEvents : ∀ e ∈ es, e.IsReadable)
    (running : Option Nat) :
    ∃ body,
      Midi.events running es = .ok body ∧
        events running (body ++ Midi.endOfTrack) =
          some
            (es.map MidiEvent.written ++
                [MidiEvent.endOfTrack], []) := by
  induction es generalizing running with
  | nil =>
      refine ⟨[], rfl, ?_⟩
      rw [events]
      cases running <;> rfl
  | cons e es ih =>
      have hEvent := hEvents e List.mem_cons_self
      have hDelta := hEvent.delta_le
      have hMessage :
          ∃ bytes last,
            Midi.message running e = .ok (bytes, last) ∧
              ∀ rest,
                event running e.delta (bytes ++ rest) =
                  some (e.written, last, rest) := by
        rcases hEvent with hChannel | hMeta
        · rw [hChannel.written]
          exact event_message hChannel running
        · rcases event_meta hMeta running with
            ⟨bytes, hWritten, hRead⟩
          exact ⟨bytes, none, hWritten, hRead⟩
      rcases hMessage with ⟨bytes, last, hWritten, hRead⟩
      rcases ih
          (fun other hMember =>
            hEvents other (List.mem_cons_of_mem e hMember))
          last with
        ⟨more, hMore, hRest⟩
      refine ⟨Quantity.bytes e.delta ++ bytes ++ more, ?_, ?_⟩
      · simp [Midi.events, Quantity.encode_of_le hDelta,
          hWritten, hMore]
      · have hQuantity :
            Quantity.read
                (Quantity.bytes e.delta ++ bytes ++ more ++
                  Midi.endOfTrack) =
              some
                (e.delta,
                  bytes ++ (more ++ Midi.endOfTrack)) := by
          rw [List.append_assoc, List.append_assoc,
            Quantity.read_bytes hDelta]
        rw [events, hQuantity]
        simp only
        rw [hRead]
        simp only
        rw [if_neg (hEvent.not_isEndOfTrack), hRest]
        rfl

end MidiReader

------------------------------------------------------------
-- Tracks
------------------------------------------------------------

/- The length of the body of a track fits its field. -/
def Midi.FitsChunk
    (es : List MidiEvent) : Prop :=
  ∀ body,
    Midi.events none es = .ok body →
      (body ++ Midi.endOfTrack).length < 2 ^ 32

namespace MidiReader

/- A track that was written is one chunk. -/
theorem chunk_track
    {es : List MidiEvent}
    (hEvents : ∀ e ∈ es, e.IsReadable)
    (hFits : Midi.FitsChunk es) :
    ∃ bytes,
      Midi.track es = .ok bytes ∧
        ∀ rest,
          chunk (bytes ++ rest) =
            some
              (es.map MidiEvent.written ++
                  [MidiEvent.endOfTrack], rest) := by
  rcases events_written hEvents none with ⟨body, hBody, hRead⟩
  have hLength := hFits body hBody
  have hField :
      Midi.fixed 4
          ((body ++ Midi.endOfTrack).length : Int) =
        .ok
          (Midi.bigEndian (body ++ Midi.endOfTrack).length
            4) := by
    have hRange :
        0 ≤ ((body ++ Midi.endOfTrack).length : Int) ∧
          ((body ++ Midi.endOfTrack).length : Int) <
            (Nat.pow 0x100 4 : Nat) := by
      constructor
      · exact Int.natCast_nonneg _
      · exact_mod_cast hLength
    rw [Midi.fixed, if_pos hRange, Int.toNat_natCast]
  refine ⟨Midi.tag "MTrk" ++
      Midi.bigEndian (body ++ Midi.endOfTrack).length 4 ++
      body ++ Midi.endOfTrack, ?_, ?_⟩
  · rw [Midi.track, hBody, Outcome.ok_bind, hField]
    rfl
  · intro rest
    have hSize :
        (body ++ Midi.endOfTrack).length < 256 ^ 4 :=
      hLength
    simp only [List.append_assoc]
    rw [← List.append_assoc body]
    simp only [chunk, tag_append, number_bigEndian hSize,
      field_append rfl, hRead, Option.bind_eq_bind,
      Option.bind_some, if_true]

/- Tracks that were written are as many chunks, in order. -/
theorem chunks_tracks
    {tracks : List (List MidiEvent)}
    (hEvents : ∀ es ∈ tracks, ∀ e ∈ es, e.IsReadable)
    (hFits : ∀ es ∈ tracks, Midi.FitsChunk es) :
    ∃ written,
      tracks.mapM Midi.track = .ok written ∧
        ∀ rest,
          chunks tracks.length (written.flatten ++ rest) =
            some
              (tracks.map fun es =>
                es.map MidiEvent.written ++
                  [MidiEvent.endOfTrack], rest) := by
  induction tracks with
  | nil =>
      exact ⟨[], rfl, fun rest => rfl⟩
  | cons es tracks ih =>
      rcases chunk_track (hEvents es List.mem_cons_self)
          (hFits es List.mem_cons_self) with
        ⟨bytes, hTrack, hChunk⟩
      rcases ih
          (fun other hMember =>
            hEvents other (List.mem_cons_of_mem es hMember))
          (fun other hMember =>
            hFits other
              (List.mem_cons_of_mem es hMember)) with
        ⟨more, hMore, hChunks⟩
      refine ⟨bytes :: more, ?_, ?_⟩
      · rw [List.mapM_cons, hTrack, Outcome.ok_bind, hMore]
        rfl
      · intro rest
        rw [List.length_cons, chunks, List.flatten_cons,
          List.append_assoc, hChunk]
        simp [hChunks]

end MidiReader

------------------------------------------------------------
-- Files
------------------------------------------------------------

/- A number that fits two bytes is written with two. -/
theorem Midi.fixed_two
    {n : Int}
    (hRange : 0 ≤ n ∧ n ≤ 65535) :
    Midi.fixed 2 n = .ok (Midi.bigEndian n.toNat 2) := by
  have hFits : 0 ≤ n ∧ n < (Nat.pow 0x100 2 : Nat) := by
    have hPower : (Nat.pow 0x100 2 : Nat) = 65536 := rfl
    omega
  rw [Midi.fixed, if_pos hFits]

/-
  A file of built events is written and read back.  The
  reader takes every byte; it finds the format, the count of
  tracks, the resolution, and in each track the events that
  were written and one more that ends it at once.
-/
theorem Midi.file_reads_back
    {tracks : List (List MidiEvent)}
    {ticksPerQuarter : Int}
    (hResolution :
      0 ≤ ticksPerQuarter ∧ ticksPerQuarter ≤ 65535)
    (hCount : tracks.length ≤ 65535)
    (hBuilt : ∀ es ∈ tracks, ∀ e ∈ es, e.Built)
    (hFits : ∀ es ∈ tracks, FitsChunk es) :
    ∃ bytes,
      Midi.file tracks ticksPerQuarter = .ok bytes ∧
        MidiReader.file bytes =
          some
            ({ format := if tracks.length ≤ 1 then 0 else 1
               trackCount := tracks.length
               ticksPerQuarter := ticksPerQuarter.toNat
               tracks :=
                tracks.map fun es =>
                  es.map MidiEvent.written ++
                    [MidiEvent.endOfTrack] },
              []) := by
  have hEvents : ∀ es ∈ tracks, ∀ e ∈ es, e.IsReadable := by
    intro es hTrack e hEvent
    exact (hBuilt es hTrack e hEvent).isReadable
  rcases MidiReader.chunks_tracks hEvents hFits with
    ⟨written, hWritten, hRead⟩
  have hTracks :
      Midi.fixed 2 (tracks.length : Int) =
        .ok (bigEndian tracks.length 2) :=
    Midi.fixed_two (by omega)
  have hTicks := Midi.fixed_two hResolution
  refine ⟨tag "MThd" ++ bigEndian 6 4 ++
      bigEndian (format tracks.length) 2 ++
      bigEndian tracks.length 2 ++
      bigEndian ticksPerQuarter.toNat 2 ++ written.flatten,
    ?_, ?_⟩
  · simp [Midi.file, header, hTracks, hTicks, hWritten]
  · have hFormat :
        format tracks.length =
          if tracks.length ≤ 1 then 0 else 1 := by
      unfold format
      split <;> split <;> omega
    have hSmall : format tracks.length < 256 ^ 2 := by
      unfold format
      split <;> decide
    have hBody := hRead []
    rw [List.append_nil] at hBody
    rw [← hFormat]
    simp only [List.append_assoc, MidiReader.file,
      MidiReader.tag_append, Option.bind_eq_bind,
      Option.bind_some,
      MidiReader.number_bigEndian (by decide : 6 < 256 ^ 4),
      MidiReader.number_bigEndian hSmall,
      MidiReader.number_bigEndian
        (by omega : tracks.length < 256 ^ 2),
      MidiReader.number_bigEndian
        (by omega : ticksPerQuarter.toNat < 256 ^ 2), hBody,
      ne_eq, not_true_eq_false, if_false]
    rfl

/-
  Two tracks.  In the first a status runs on over a delta time
  of two bytes, and a text makes the next message repeat it;
  the second is empty.
-/
def spokenTracks : List (List MidiEvent) :=
  [[⟨0, .metaEvent, 0, none, none, some tempoType,
        [0x07, 0xA1, 0x20]⟩,
      ⟨0, .programChange, 2, some 5, none, none, []⟩,
      ⟨0, .noteOn, 2, some 60, some 100, none, []⟩,
      ⟨200, .noteOn, 2, some 60, some 0, none, []⟩,
      ⟨0, .metaEvent, 0, none, none, some 1, [0x61]⟩,
      ⟨0, .noteOn, 2, some 62, some 100, none, []⟩,
      ⟨480, .noteOff, 2, some 62, some 0, none, []⟩], []]

/-
  They are read as they were written, each
  with the end of its track.
-/
theorem Midi.spokenTracks_read_back :
    (∀ es ∈ spokenTracks, ∀ e ∈ es, e.Built) ∧
      (∀ es ∈ spokenTracks, FitsChunk es) ∧
      ∃ bytes,
        Midi.file spokenTracks 480 = .ok bytes ∧
          MidiReader.file bytes =
            some
              (⟨1, 2, 480,
                  spokenTracks.map fun es =>
                    es ++ [MidiEvent.endOfTrack]⟩, []) := by
  have hBuilt : ∀ es ∈ spokenTracks, ∀ e ∈ es, e.Built := by
    intro es hTrack e hEvent
    simp only [spokenTracks, List.mem_cons,
      List.not_mem_nil, or_false] at hTrack
    rcases hTrack with rfl | rfl
    · simp only [List.mem_cons, List.not_mem_nil,
        or_false] at hEvent
      rcases hEvent with rfl | rfl | rfl | rfl | rfl | rfl | rfl
      · exact .setTempo 0 500000 rfl
      · exact .programChange 0 5 2 rfl
      · exact .noteOn 0 60 100 2 rfl
      · exact .noteOn 200 60 0 2 rfl
      · exact .metaEvent 0 0 none none (some 1) [0x61] rfl
          (by decide) (by decide)
      · exact .noteOn 0 62 100 2 rfl
      · exact .noteOff 480 62 0 2 rfl
    · cases hEvent
  have hFits : ∀ es ∈ spokenTracks, FitsChunk es := by
    intro es hTrack body hBody
    have hLength :
        spokenTracks.map (fun es =>
            (Midi.events none es).toOption.map
              List.length) =
          [some 32, some 0] := by
      decide +kernel
    have hSmall : body.length = 32 ∨ body.length = 0 := by
      have hMember :=
        List.mem_map_of_mem
          (f :=
            fun es =>
              (Midi.events none es).toOption.map
                List.length) hTrack
      rw [hLength, hBody] at hMember
      simpa [Except.toOption] using hMember
    rw [List.length_append]
    have hEnd : endOfTrack.length = 4 := rfl
    omega
  exact
    ⟨hBuilt, hFits,
      Midi.file_reads_back (by decide) (by decide) hBuilt hFits⟩

end LyricScore
