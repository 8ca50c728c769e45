import LyricScore.Proofs.Performance.MomentClock
import LyricScore.Proofs.Performance.PianoRoll
import LyricScore.Proofs.Timing.Rounding

/-
  This file shows that the events of a score and its beat map
  agree on when each beat starts: however often distances are
  rounded and filled, an event comes at the rounded exact time
  of its subdivision.

  Key theorems include:
    * `Performance.Renders.deltaSum_through`
    * `Performance.Renders.scale_of_mem_timedBeats`
    * `Performance.Renders.time_le_totalLength`
    * `Score.events_keep_to_beatMap`
-/

namespace LyricScore

namespace Performance

variable {settings : AudioSettings}
variable {s : Score}
variable {perf : Performance}
variable {done : List (Moment × List Action)}
variable {last : Player}

------------------------------------------------------------
-- Ticks of emissions
------------------------------------------------------------

/-
  The events up to that of an action last
  until its rounded time.
-/
theorem Renders.deltaSum_through
    (hRenders : perf.Renders settings s done last)
    {before after : List Emission}
    {e : Emission}
    (hSplit : perf.emissions = before ++ e :: after) :
    (deltaSum ((before ++ [e]).flatMap Emission.events) : Int) =
      roundHalfEven e.action.time := by
  rcases hRenders.schedule with ⟨t, hSchedule⟩
  rw [hSplit] at hSchedule
  have hThrough := Schedule.deltaSum_through hSchedule
  rw [Int.zero_add] at hThrough
  exact hThrough

/- A performance has an emission at least. -/
theorem Renders.emissions_ne_nil
    (hRenders : perf.Renders settings s done last) :
    perf.emissions ≠ [] := by
  intro hEmpty
  have hOpening : perf.opening = [] := by
    simp only [emissions, List.append_eq_nil_iff] at hEmpty
    exact hEmpty.1.1
  have hActions := hRenders.opening
  rw [hOpening] at hActions
  cases hActions

------------------------------------------------------------
-- Times of actions
------------------------------------------------------------

/- A player begins with the clock of the beat map. -/
theorem keeps_start
    (settings : AudioSettings) :
    (Player.start settings).Keeps
      { unit := settings.defaultBeatUnit } :=
  ⟨rfl, rfl⟩

/-
  All that is emitted at a part comes at
  the share of its beat.
-/
theorem Renders.time_of_part
    (hRenders : perf.Renders settings s done last)
    {passage : Passage}
    (hPassage : passage ∈ perf.passages)
    {part : Part}
    (hPart : passage.moment = .part part)
    {e : Emission}
    (hEmission : e ∈ passage.emissions) :
    ∃ t ∈ s.timedBeats settings.defaultBeatUnit,
      t.key = part.key ∧
        t.beat = part.beat ∧
        e.action.time =
          s.start settings.defaultBeatUnit
              settings.ticksPerQuarter t.key +
            part.index * t.length settings.ticksPerQuarter /
              t.beat.subdivisions.length := by
  rcases (keeps_start settings).moments hRenders.run with
    ⟨-, hTimes, -⟩
  rcases hTimes _ (hRenders.mem_done hPassage) with
    ⟨time, hMet, hTime⟩
  rw [hPart] at hMet
  rcases s.parts_in_time _ _ part time hMet with
    ⟨earlier, t, later, hSplit, hKey, hBeat, hShare⟩
  have hMember : t ∈ s.timedBeats settings.defaultBeatUnit := by
    rw [hSplit]
    simp
  refine ⟨t, hMember, hKey, hBeat, ?_⟩
  rw [hTime _ (List.mem_map_of_mem hEmission), hShare, zero_add,
    Score.start_of_split hSplit]

/-
  What is released at the end comes when
  the last beat is over.
-/
theorem Renders.time_of_closing
    (hRenders : perf.Renders settings s done last)
    {e : Emission}
    (hEmission : e ∈ perf.closing) :
    e.action.time =
      totalLength settings.ticksPerQuarter
        (s.timedBeats settings.defaultBeatUnit) := by
  rcases (keeps_start settings).moments hRenders.run with
    ⟨hLast, -, -⟩
  have hAction : e.action ∈ last.silence.1 := by
    rw [← hRenders.closing]
    exact List.mem_map_of_mem hEmission
  rcases List.mem_map.mp hAction with ⟨note, -, hSame⟩
  rw [← hSame, ← s.now_passAll_moments, ← hLast.now]
  rfl

/- Nothing is emitted when the last beat is over. -/
theorem Renders.time_le_totalLength
    (hRenders : perf.Renders settings s done last)
    (hTicks : 0 ≤ settings.ticksPerQuarter)
    {e : Emission}
    (hEmission : e ∈ perf.emissions) :
    e.action.time ≤
      totalLength settings.ticksPerQuarter
        (s.timedBeats settings.defaultBeatUnit) := by
  rcases (keeps_start settings).moments hRenders.run with
    ⟨-, hTimes, -⟩
  have hEnd :=
    s.now_passAll_moments settings.defaultBeatUnit
      settings.ticksPerQuarter
  simp only [emissions, List.mem_append,
    List.mem_flatMap] at hEmission
  rcases hEmission with
    (hOpening | ⟨passage, hPassage, hEmission⟩) | hClosing
  · have hAction : e.action ∈ Player.opening settings := by
      rw [← hRenders.opening]
      exact List.mem_map_of_mem hOpening
    have hZero : e.action.time = 0 := by
      simp only [Player.opening, List.mem_cons,
        List.not_mem_nil, or_false] at hAction
      rcases hAction with hAction | hAction <;>
        rw [hAction] <;> rfl
    rw [hZero, ← hEnd]
    exact BeatClock.now_le_passAll hTicks
      { unit := settings.defaultBeatUnit } s.moments
  · rcases hTimes _ (hRenders.mem_done hPassage) with
      ⟨time, hMet, hTime⟩
    rw [hTime _ (List.mem_map_of_mem hEmission), ← hEnd]
    exact BeatClock.le_of_mem_timeline hTicks hMet
  · exact le_of_eq (hRenders.time_of_closing hClosing)

/-
  A score is only played if the length of every rendered
  beat can be read.
-/
theorem Renders.scale_of_mem_timedBeats
    (hRenders : perf.Renders settings s done last)
    {unit : String}
    {t : TimedBeat}
    (hTimed : t ∈ s.timedBeats unit) :
    t.beat.scale = .ok t.beat.units := by
  rcases (keeps_start settings).moments hRenders.run with
    ⟨-, -, hScales⟩
  rcases List.exists_cons_of_ne_nil
    (rendered_of_mem_timedBlocks hTimed) with
    ⟨subdivision, rest, hSubdivisions⟩
  have hPlace : (t.key, t.beat, 0, subdivision) ∈ t.places := by
    simp [TimedBeat.places, hSubdivisions, List.zipIdx_cons]
  have hPlaces :
      (t.key, t.beat, 0, subdivision) ∈
        s.moments.filterMap Moment.place? := by
    rw [s.places_moments unit]
    exact List.mem_flatMap.mpr ⟨t, hTimed, hPlace⟩
  rcases List.mem_filterMap.mp hPlaces with ⟨m, hMember, hSame⟩
  cases m with
  | part part =>
      have hBeat : part.beat = t.beat := by
        simp only [Moment.place?, Moment.part?, Part.place,
          Option.map_some, Option.some.injEq,
          Prod.mk.injEq] at hSame
        exact hSame.2.1
      rw [← hBeat]
      exact hScales part hMember
  | _ =>
      cases hSame

------------------------------------------------------------
-- The last tick
------------------------------------------------------------

/- The events last until the last action. -/
theorem Renders.deltaSum_events
    (hRenders : perf.Renders settings s done last) :
    ∃ e ∈ perf.emissions,
      perf.emissions.getLast? = some e ∧
        (deltaSum perf.events : Int) =
          roundHalfEven e.action.time := by
  have hLast :=
    List.dropLast_append_getLast hRenders.emissions_ne_nil
  refine ⟨perf.emissions.getLast hRenders.emissions_ne_nil,
    List.getLast_mem _, List.getLast?_eq_some_getLast _, ?_⟩
  rw [events, ← hRenders.deltaSum_through hLast.symm, hLast]

/- No event comes later than the length of all beats. -/
theorem Renders.deltaSum_events_le
    (hRenders : perf.Renders settings s done last)
    (hTicks : 0 ≤ settings.ticksPerQuarter) :
    (deltaSum perf.events : Int) ≤
      roundHalfEven
        (totalLength settings.ticksPerQuarter
          (s.timedBeats settings.defaultBeatUnit)) := by
  rcases hRenders.deltaSum_events with ⟨e, hEmission, -, hSum⟩
  rw [hSum]
  exact roundHalfEven_mono
    (hRenders.time_le_totalLength hTicks hEmission)

/-
  Notes that are held at the end are released when the last
  beat is over.
-/
theorem Renders.deltaSum_events_of_held
    (hRenders : perf.Renders settings s done last)
    (hHeld : heldVoices s.moments ≠ []) :
    (deltaSum perf.events : Int) =
      roundHalfEven
        (totalLength settings.ticksPerQuarter
          (s.timedBeats settings.defaultBeatUnit)) := by
  have hHolds :=
    (Player.holds_start settings).moments hRenders.run
  rcases List.exists_mem_of_ne_nil _ hHeld with ⟨v, hVoice⟩
  have hSounding : v.note ∈ last.sounding := by
    rw [hHolds.sounding]
    exact mem_soundingAfter.mpr (Or.inr ⟨v, hVoice, rfl⟩)
  have hClosing : perf.closing ≠ [] := by
    intro hEmpty
    have hActions := hRenders.closing
    rw [hEmpty, List.map_nil, Player.silence] at hActions
    rw [List.map_eq_nil_iff.mp hActions.symm] at hSounding
    cases hSounding
  rcases hRenders.deltaSum_events with ⟨e, -, hLast, hSum⟩
  have hMember : e ∈ perf.closing := by
    rw [emissions,
      List.getLast?_append_of_ne_nil _ hClosing] at hLast
    exact List.mem_of_getLast? hLast
  rw [hSum, hRenders.time_of_closing hMember]

end Performance

------------------------------------------------------------
-- Scores
------------------------------------------------------------

/-
  No drift.  The beat map of a score holds the exact
  starts of its beats, rounded, and the events up to that
  of an action at a subdivision last until the exact time
  of the subdivision, rounded.  So the events never last
  longer than the beat map says, and just as long if
  notes are held at the end.
-/
theorem Score.events_keep_to_beatMap
    {settings : AudioSettings}
    {s : Score}
    {events : List MidiEvent}
    (hSettings : settings.InRange)
    (hEvents : s.events settings = .ok events) :
    let unit := settings.defaultBeatUnit
    let ticksPerQuarter := settings.ticksPerQuarter
    let beats := s.timedBeats unit
    let total := totalLength ticksPerQuarter beats
    s.beatMap unit ticksPerQuarter =
        .ok
          ⟨beats.map fun t =>
              (t.key,
                roundHalfEven
                  (s.start unit ticksPerQuarter t.key)),
            roundHalfEven total⟩ ∧
      (beats.map TimedBeat.key).Nodup ∧
      (∃ perf,
        s.performance settings = .ok perf ∧
          perf.events = events ∧
          perf.passages.map Passage.moment = s.moments ∧
          s.moments.filterMap Moment.place? =
            beats.flatMap TimedBeat.places ∧
          ∀ before passage after part earlier e later,
            perf.passages = before ++ passage :: after →
              passage.moment = .part part →
              passage.emissions = earlier ++ e :: later →
              ∃ t ∈ beats,
                t.key = part.key ∧
                  t.beat = part.beat ∧
                  (deltaSum
                      (perf.eventsThrough before.length ++
                        (earlier ++ [e]).flatMap
                          Emission.events) :
                      Int) =
                    roundHalfEven
                      (s.start unit ticksPerQuarter t.key +
                        part.index *
                            t.length ticksPerQuarter /
                          t.beat.subdivisions.length)) ∧
      (deltaSum events : Int) ≤ roundHalfEven total ∧
      (heldVoices s.moments ≠ [] →
        (deltaSum events : Int) = roundHalfEven total) := by
  intro unit ticksPerQuarter beats total
  rcases Score.performance_of_events hEvents with
    ⟨perf, hPerformance, rfl⟩
  rcases Score.performance_eq_ok hPerformance with
    ⟨done, last, hRenders⟩
  have hTicks : 0 ≤ settings.ticksPerQuarter :=
    hSettings.ticksPerQuarter.1.le
  refine ⟨?_, nodup_timedBlocks unit 0 s.blocks, ?_, ?_, ?_⟩
  · exact Score.beatMap_eq_starts
      (fun t hTimed =>
        hRenders.scale_of_mem_timedBeats hTimed)
      ticksPerQuarter
  · refine ⟨perf, hPerformance, rfl, hRenders.map_moment,
      s.places_moments unit, ?_⟩
    intro before passage after part earlier e later
      hPassages hPart hEmissions
    have hPassage : passage ∈ perf.passages := by
      rw [hPassages]
      simp
    have hEmission : e ∈ passage.emissions := by
      rw [hEmissions]
      simp
    rcases hRenders.time_of_part hPassage hPart hEmission with
      ⟨t, hTimed, hKey, hBeat, hTime⟩
    have hSplit :
        perf.emissions =
          (perf.emissionsThrough before.length ++
              earlier) ++
            e ::
              (later ++ after.flatMap Passage.emissions ++
                perf.closing) := by
      simp [Performance.emissions,
        Performance.emissionsThrough, hPassages, hEmissions]
    refine ⟨t, hTimed, hKey, hBeat, ?_⟩
    rw [← hTime, ← hRenders.deltaSum_through hSplit,
      Performance.eventsThrough]
    simp only [List.flatMap_append, List.append_assoc]
  · exact hRenders.deltaSum_events_le hTicks
  · exact hRenders.deltaSum_events_of_held

/-
  Beats of a dotted eighth, the first cut into three: with
  seven ticks in a quarter no start but the first is whole.
-/
def Score.triplet : Score where
  blocks := [
    { lyricLines := [
        { directives := [⟨.beatUnit "8.", {}⟩]
          measures := [
            { beats := [
                { elements := [
                    .subdivision ⟨.syllable, "la", {}⟩,
                    .subdivision ⟨.syllable, "la", {}⟩,
                    .subdivision ⟨.syllable, "la", {}⟩] },
                { elements := [
                    .subdivision ⟨.syllable, "2lu", {}⟩,
                    .subdivision ⟨.hyphen, "-", {}⟩] }] }] }]
      pitchLines := [
        { measures := [
            { elements := [
                .pitch { letter := .c },
                .pitch { letter := .d },
                .pitch { letter := .e },
                .pitch { letter := .f }] }] }] }]

/-
  Its beats start at 0 and 5, and its events end where the
  beat map does.
-/
theorem Score.triplet_keeps_to_beatMap :
    let settings : AudioSettings := { ticksPerQuarter := 7 }
    settings.InRange ∧
      ∃ events,
        triplet.events settings = .ok events ∧
          triplet.beatMap "4" 7 =
            .ok ⟨[(⟨0, 0⟩, 0), (⟨0, 1⟩, 5)], 16⟩ ∧
          (deltaSum events : Int) = 16 := by
  intro settings
  have hSettings : settings.InRange :=
    ⟨by decide, by decide, by decide, by decide, by decide,
      by decide⟩
  have hOk : (triplet.events settings).isOk = true := by
    decide +kernel
  rcases Outcome.exists_eq_ok hOk with ⟨events, hEvents⟩
  rcases Score.events_keep_to_beatMap hSettings hEvents with
    ⟨hMap, -, -, -, hSum⟩
  refine ⟨hSettings, events, hEvents, ?_, ?_⟩
  · rw [hMap]
    decide +kernel
  · rw [hSum (by decide +kernel)]
    decide +kernel

end LyricScore
