import LyricScore.Proofs.Performance.Success

/-
  This file shows that playing a score fails for one reason
  alone, and makes valid events otherwise.  Scores written by
  hand may ask for any tempo, program, loudness or pitch; all
  that playing cannot do is read a number of too many digits
  at the head of a beat.

  Key definitions include:
    * `Score.beats`
    * `MidiEvent.WellShaped`

  Key theorems include:
    * `Score.measurable_iff_beats`
    * `Score.opening_events`
    * `Score.fails_or_plays_validly`
-/

namespace LyricScore

------------------------------------------------------------
-- Beats of a score
------------------------------------------------------------

/-
  Every beat of a score, in order, whether
  it is rendered or not.
-/
def Score.beats
    (s : Score) : List Beat :=
  s.blocks.flatMap fun b =>
    b.lyricLines.flatMap fun l =>
      l.measures.flatMap LyricMeasure.beats

/-
  The items of a measure can be measured just if its beats
  with subdivisions can be.
-/
theorem LyricMeasure.measurable_items_iff
    (m : LyricMeasure)
    (index : Nat) :
    (∀ item ∈ m.items index, item.IsMeasurable) ↔
      ∀ b ∈ m.beats, b.subdivisions ≠ [] → b.IsMeasurable := by
  have hBarline :
      ∀ item ∈
        (if m.barline then
            [LyricItem.barline index]
          else []),
        item.IsMeasurable := by
    intro item hItem
    split at hItem
    · rw [List.mem_singleton.mp hItem]
      trivial
    · cases hItem
  rw [items, List.forall_mem_append, List.forall_mem_map,
    and_iff_left hBarline]
  rfl

/-
  The items of a line can be measured just if its beats with
  subdivisions can be.
-/
theorem LyricLine.measurable_items_iff
    (l : LyricLine) :
    (∀ item ∈ l.items, item.IsMeasurable) ↔
      ∀ b ∈ l.measures.flatMap LyricMeasure.beats,
        b.subdivisions ≠ [] → b.IsMeasurable := by
  have hDirectives :
      ∀ item ∈ l.directives.map LyricItem.directive,
        item.IsMeasurable := by
    intro item hItem
    rcases List.mem_map.mp hItem with ⟨d, -, rfl⟩
    trivial
  rw [items, List.forall_mem_append,
    and_iff_right hDirectives, List.forall_mem_flatMap,
    List.forall_mem_flatMap]
  simp only [LyricMeasure.measurable_items_iff]
  constructor
  · intro hNumbered m hMeasure
    rcases List.mem_iff_getElem?.mp hMeasure with
      ⟨index, hIndex⟩
    exact hNumbered (m, index)
      (List.mk_mem_zipIdx_iff_getElem?.mpr hIndex)
  · intro hMeasures entry hEntry
    exact hMeasures entry.1 (List.fst_mem_of_mem_zipIdx hEntry)

/-
  A score is measurable if each of its beats is, those aside
  that nothing is drawn for.
-/
theorem Score.measurable_iff_beats
    (s : Score) :
    s.IsMeasurable ↔
      ∀ b ∈ s.beats,
        b.subdivisions ≠ [] → b.IsMeasurable := by
  simp only [IsMeasurable, beats, Block.lyricStream,
    List.forall_mem_flatMap, LyricLine.measurable_items_iff]

------------------------------------------------------------
-- Shapes of events
------------------------------------------------------------

namespace MidiEvent

/-
  The events that play a score: a note with its number and
  velocity, a program alone, or a tempo of three bytes.
-/
inductive WellShaped : MidiEvent → Prop where
  | noteOn {delta channel note velocity : Nat}
      (hNote : note ≤ 127)
      (hVelocity : velocity ≤ 127) :
      WellShaped
        ⟨delta, .noteOn, channel, some note, some velocity,
          none, []⟩
  | programChange {delta channel program : Nat}
      (hProgram : program ≤ 127) :
      WellShaped
        ⟨delta, .programChange, channel, some program, none,
          none, []⟩
  | setTempo {delta : Nat} {bytes : List UInt8}
      (hBytes : bytes.length = 3) :
      WellShaped
        ⟨delta, .metaEvent, 0, none, none, some tempoType,
          bytes⟩

/- Whatever event is made, its numbers are in range. -/
theorem inRange_of_make
    {delta channel : Int}
    {kind : MidiKind}
    {param1 param2 metaType : Option Int}
    {metaData : List UInt8}
    {e : MidiEvent}
    (hMake :
      make delta kind channel param1 param2 metaType
          metaData =
        .ok e) :
    e.InRange := by
  rcases make_eq_ok_iff.mp hMake with ⟨hAccepts, rfl⟩
  have hDelta := hAccepts.delta
  have hChannel := hAccepts.channel
  have hParameter (param : Option Int)
      (hRange : ∀ n ∈ param, 0 ≤ n ∧ n ≤ 127) :
      ∀ p ∈ param.map Int.toNat, p ≤ 127 := by
    intro p hMember
    rcases Option.mem_map.mp hMember with ⟨n, hParam, rfl⟩
    have hBounds := hRange n hParam
    omega
  refine ⟨?_, ?_, hParameter param1 hAccepts.param1,
    hParameter param2 hAccepts.param2, hAccepts.metaType⟩
  · simp only
    omega
  · simp only
    omega

/- A tempo that is set is in range. -/
theorem inRange_of_setTempo
    {delta tempo : Int}
    {e : MidiEvent}
    (hMake : setTempo delta tempo = .ok e) :
    e.InRange := by
  unfold setTempo at hMake
  split at hMake
  · cases hMake
  · split at hMake
    · cases hMake
    · exact inRange_of_make hMake

end MidiEvent

namespace Schedule

variable {channel : Int}

/- The event of an act is in range and has its shape. -/
theorem valid_event
    {delta : Int}
    {act : Act}
    {e : MidiEvent}
    (hEvent : event channel delta act = .ok e) :
    e.InRange ∧ e.WellShaped := by
  cases act with
  | tempo microseconds =>
      have hRange := MidiEvent.inRange_of_setTempo hEvent
      rcases MidiEvent.setTempo_eq_ok hEvent with ⟨-, rfl⟩
      exact ⟨hRange, .setTempo rfl⟩
  | program number =>
      have hRange := MidiEvent.inRange_of_make hEvent
      rcases MidiEvent.programChange_eq_ok hEvent with ⟨-, rfl⟩
      exact ⟨hRange, .programChange (hRange.param1 _ rfl)⟩
  | strike voice velocity =>
      have hRange := MidiEvent.inRange_of_make hEvent
      rcases MidiEvent.noteOn_eq_ok hEvent with ⟨-, rfl⟩
      exact ⟨hRange,
        .noteOn (hRange.param1 _ rfl) (hRange.param2 _ rfl)⟩
  | release note =>
      have hRange := MidiEvent.inRange_of_make hEvent
      rcases MidiEvent.noteOn_eq_ok hEvent with ⟨-, rfl⟩
      exact ⟨hRange,
        .noteOn (hRange.param1 _ rfl) (hRange.param2 _ rfl)⟩

/-
  What is done at the start has one event, with no distance
  to the one before.
-/
theorem emission_at_start
    {s t : Schedule}
    {a : Action}
    {e : Emission}
    (hTime : a.time = 0)
    (hTick : s.tick = 0)
    (hEmission : s.emission channel a = .ok (e, t)) :
    e.events = [e.own] ∧
      event channel 0 a.act = .ok e.own ∧
      t.tick = 0 := by
  have hStart : roundHalfEven a.time = 0 := by
    rw [hTime]
    decide +kernel
  rcases emission_eq_ok hEmission with
    ⟨-, hLength, -, hOwn, rfl⟩
  rw [hStart, hTick] at hLength hOwn
  have hFillers : e.fillers = [] :=
    List.length_eq_zero_iff.mp hLength
  exact ⟨by rw [Emission.events, hFillers, List.nil_append],
    hOwn, hStart⟩

end Schedule

------------------------------------------------------------
-- Scores
------------------------------------------------------------

namespace Score

variable {settings : AudioSettings}
variable {s : Score}
variable {events : List MidiEvent}

/-
  The first two events set the tempo and
  the instrument, at once.
-/
theorem opening_events
    (hEvents : s.events settings = .ok events) :
    ∃ tempo program rest,
      events = tempo :: program :: rest ∧
        MidiEvent.setTempo 0
            (microsecondsPerQuarter settings.defaultTempo
              settings.defaultBeatUnit) =
          .ok tempo ∧
        MidiEvent.programChange 0 settings.defaultInstrument
            settings.channel =
          .ok program := by
  simp only [Score.events, Score.actions,
    Outcome.bind_eq_ok, Outcome.mapError_eq_ok,
    Outcome.pure_eq, Except.ok.injEq,
    Schedule.actions_eq_emissions,
    Outcome.map_eq_ok] at hEvents
  rcases hEvents with
    ⟨as, ⟨⟨played, last⟩, -, rfl⟩, ⟨es, t⟩, hEmissions, rfl⟩
  rcases Schedule.emissions_cons_eq_ok hEmissions with
    ⟨first, u, more, hFirst, hMore, rfl⟩
  rcases Schedule.emissions_cons_eq_ok hMore with
    ⟨second, v, rest, hSecond, -, rfl⟩
  rcases Schedule.emission_at_start rfl rfl hFirst with
    ⟨hFirstEvents, hTempo, hTick⟩
  rcases Schedule.emission_at_start rfl hTick hSecond with
    ⟨hSecondEvents, hProgram, -⟩
  have hEvents :
      (first :: second :: rest).flatMap Emission.events =
        first.own :: second.own ::
          rest.flatMap Emission.events := by
    rw [List.flatMap_cons, List.flatMap_cons, hFirstEvents,
      hSecondEvents]
    rfl
  exact ⟨_, _, _, hEvents, hTempo, hProgram⟩

/-
  If no octave that a voice comes to has too many digits to be
  written, playing a score fails exactly if a rendered beat
  starts with too many digits to be read.  Otherwise all events
  are in range and have the shape of their kind, and the first
  two set the tempo and the instrument at the start.
-/
theorem fails_or_plays_validly
    (hSettings : settings.InRange)
    (hNamed :
      ∀ b ∈ s.blocks, ∀ v ∈ b.resolvedVoices, v.IsNamed) :
    ((∃ error, s.events settings = .error error) ↔
        ∃ b ∈ s.beats,
          b.subdivisions ≠ [] ∧
            Numeral.digitLimit < b.scaleDigits.length) ∧
      ∀ events,
        s.events settings = .ok events →
          (∀ e ∈ events, e.InRange ∧ e.WellShaped) ∧
            ∃ tempo program rest,
              events = tempo :: program :: rest ∧
                MidiEvent.setTempo 0
                    (microsecondsPerQuarter
                      settings.defaultTempo
                      settings.defaultBeatUnit) =
                  .ok tempo ∧
                MidiEvent.programChange 0
                    settings.defaultInstrument
                    settings.channel =
                  .ok program := by
  have hSuccess :
      (∃ events, s.events settings = .ok events) ↔
        ∀ b ∈ s.beats,
          b.subdivisions ≠ [] → b.IsMeasurable := by
    rw [s.exists_events_iff hSettings, s.playable_iff,
      and_iff_left hNamed, s.measurable_iff_beats]
  constructor
  · have hFails :
        (∃ error, s.events settings = .error error) ↔
          ¬ ∃ events, s.events settings = .ok events := by
      cases s.events settings <;> simp
    rw [hFails, hSuccess]
    simp only [Beat.IsMeasurable]
    push Not
    rfl
  · intro events hEvents
    refine ⟨?_, opening_events hEvents⟩
    intro e hMember
    rcases exists_event_of_mem_events hEvents hMember with
      ⟨delta, act, hEvent⟩
    exact Schedule.valid_event hEvent

/-
  A score that asks for what there is not: a negative tempo
  and one beyond measure, an unknown note value, a beat longer
  than one event can wait, a program, a loudness and pitches
  out of range, and an accidental without meaning.
-/
def unruly : Score where
  blocks :=
    [{ lyricLines :=
        [{ directives :=
            [⟨.tempo (-7), {}⟩,
              ⟨.beatUnit "half a breve", {}⟩]
           measures :=
            [{ beats :=
                [⟨[.subdivision ⟨.syllable, "999999999la", {}⟩,
                    .directive ⟨.tempo 1000000000, {}⟩], {}⟩,
                  ⟨[.subdivision ⟨.melisma, "*", {}⟩], {}⟩] }] }]
       pitchLines :=
        [{ directives :=
            [⟨.instrument (-40), {}⟩, ⟨.volume 5000, {}⟩]
           measures :=
            [{ elements :=
                [.chord
                  ⟨[⟨.c, none, 700, {}⟩,
                      ⟨.b, some (.ofSign "?"), -1500, {}⟩],
                    {}⟩] }] }] }]

/- Its events are in range and well shaped all the same. -/
theorem unruly_plays_validly :
    ({} : AudioSettings).InRange ∧
      (∀ b ∈ unruly.blocks, ∀ v ∈ b.resolvedVoices,
        v.IsNamed) ∧
      ∃ events,
        unruly.events {} = .ok events ∧
          ∀ e ∈ events, e.InRange ∧ e.WellShaped := by
  have hSettings : ({} : AudioSettings).InRange := by
    constructor <;> decide
  have hNamed :
      ∀ b ∈ unruly.blocks,
        ∀ v ∈ b.resolvedVoices, v.IsNamed := by
    decide +kernel
  have hShort :
      ¬
        ∃ b ∈ unruly.beats,
          b.subdivisions ≠ [] ∧
            Numeral.digitLimit < b.scaleDigits.length := by
    decide +kernel
  have hPlays := fails_or_plays_validly hSettings hNamed
  refine ⟨hSettings, hNamed, ?_⟩
  cases hEvents : unruly.events {} with
  | error error =>
      exact absurd (hPlays.1.mp ⟨error, hEvents⟩) hShort
  | ok events =>
      exact ⟨events, rfl, (hPlays.2 events hEvents).1⟩

end Score

end LyricScore
