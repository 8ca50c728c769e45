import Mathlib.Tactic.FieldSimp
import Mathlib.Tactic.Ring
import LyricScore.Proofs.Performance.Drift
import LyricScore.Proofs.Performance.MetBeat
import LyricScore.Proofs.Timing.Tempo

/-
  This file shows that beats last what the tempo says.  The
  note value in force is in the length of a beat and in the
  length of a quarter, and the two cancel: how long a beat
  sounds depends on the tempo and on the units of the beat
  alone, but for the rounding of the quarter and its cap.

  Key definitions include:
    * `TimedBeat.duration`
    * `MetBeat.spoken`
    * `Performance.eventsBefore`
    * `Performance.tempoAt?`

  Key theorems include:
    * `MetBeat.duration_near`
    * `Performance.Renders.tempoAt?_eq`
    * `Score.beats_last_what_tempo_says`
-/

namespace LyricScore

------------------------------------------------------------
-- Durations
------------------------------------------------------------

/-
  How long a beat sounds, in microseconds, where a quarter
  lasts `tempo` of them.
-/
def TimedBeat.duration
    (ticksPerQuarter : Int)
    (tempo : Int)
    (t : TimedBeat) : Rat :=
  tempo * t.length ticksPerQuarter / ticksPerQuarter

/- How the ticks of a quarter are counted is of no matter. -/
theorem TimedBeat.duration_eq
    {ticksPerQuarter : Int}
    (hTicks : 0 < ticksPerQuarter)
    (tempo : Int)
    (t : TimedBeat) :
    t.duration ticksPerQuarter tempo =
      tempo * (BeatUnit.quarters t.unit * t.beat.units) := by
  have hNonzero : (ticksPerQuarter : Rat) ≠ 0 := by
    exact_mod_cast hTicks.ne'
  unfold TimedBeat.duration TimedBeat.length
  field_simp

namespace MetBeat

/-
  How long a beat is to sound by the tempo in force, in
  microseconds.
-/
def spoken
    (settings : AudioSettings)
    (m : MetBeat) : Rat :=
  60000000 * m.beat.units / (max (m.bpm settings) 1 : Int)

/- By how much rounding may make a beat longer or shorter. -/
def slack
    (settings : AudioSettings)
    (m : MetBeat) : Rat :=
  BeatUnit.quarters (m.unit settings) * m.beat.units / 2

variable {settings : AudioSettings}

/-
  The note value cancels; what is left is the
  rounding of the quarter.
-/
theorem duration_near
    (hTicks : 0 < settings.ticksPerQuarter)
    {m : MetBeat}
    (hUncapped : settings.quarterAfter m.met ≠ maxTempo) :
    |(m.timed settings).duration settings.ticksPerQuarter
      (settings.quarterAfter m.met) -
        m.spoken settings| ≤
      m.slack settings := by
  have hQuarters := BeatUnit.quarters_pos (m.unit settings)
  have hBeats : (0 : Rat) < (max (m.bpm settings) 1 : Int) := by
    exact_mod_cast lt_of_lt_of_le Int.one_pos
      (le_max_right (m.bpm settings) 1)
  have hNear :
      |(settings.quarterAfter m.met : Rat) -
          60000000 /
            quartersPerMinute (m.bpm settings)
              (m.unit settings)| ≤
        1 / 2 :=
    microsecondsPerQuarter_near hUncapped
  have hApart :
      (m.timed settings).duration settings.ticksPerQuarter
            (settings.quarterAfter m.met) -
          m.spoken settings =
        BeatUnit.quarters (m.unit settings) * m.beat.units *
          (settings.quarterAfter m.met -
            60000000 /
              quartersPerMinute (m.bpm settings)
                (m.unit settings)) := by
    rw [TimedBeat.duration_eq hTicks, spoken,
      quartersPerMinute, timed]
    field_simp
  have hLength :
      0 ≤
        BeatUnit.quarters (m.unit settings) *
          m.beat.units := by
    positivity
  have hSlack :
      m.slack settings =
        BeatUnit.quarters (m.unit settings) * m.beat.units *
          (1 / 2) := by
    rw [slack]
    ring
  rw [hApart, abs_mul, abs_of_nonneg hLength, hSlack]
  exact mul_le_mul_of_nonneg_left hNear hLength

end MetBeat

------------------------------------------------------------
-- Tempos at beats
------------------------------------------------------------

namespace Performance

/-
  The events that are emitted before the first subdivision of
  a beat is played.
-/
def eventsBefore
    (perf : Performance)
    (key : BeatKey) : List MidiEvent :=
  let earlier :=
    perf.passages.takeWhile fun passage =>
      passage.moment.key? ≠ some key
  (perf.opening ++
    earlier.flatMap Passage.emissions).flatMap
    Emission.events

/- The last tempo that is set when a beat starts. -/
def tempoAt?
    (perf : Performance)
    (key : BeatKey) : Option Int :=
  lastQuarter? (perf.eventsBefore key)

/-
  How long a beat sounds, in microseconds, by the tempo when
  it starts, which is not capped.
-/
def Sounds
    (settings : AudioSettings)
    (perf : Performance)
    (m : MetBeat)
    (duration : Rat) : Prop :=
  ∃ tempo,
    perf.tempoAt? m.key = some tempo ∧
      tempo ≠ 0xFFFFFF ∧
      duration =
        (m.timed settings).duration
          settings.ticksPerQuarter tempo

variable {settings : AudioSettings}
variable {s : Score}
variable {perf : Performance}
variable {done : List (Moment × List Action)}
variable {last : Player}

/-
  The events before the first passage of a beat are those of
  the passages before it.
-/
theorem eventsBefore_of_split
    {earlier later : List Passage}
    {passage : Passage}
    {key : BeatKey}
    (hPassages : perf.passages = earlier ++ passage :: later)
    (hEarlier : ∀ other ∈ earlier, other.moment.key? ≠ some key)
    (hKey : passage.moment.key? = some key) :
    perf.eventsBefore key =
      perf.eventsThrough earlier.length := by
  have hBefore :
      perf.passages.takeWhile (fun passage =>
          passage.moment.key? ≠ some key) =
        earlier := by
    rw [hPassages,
      List.takeWhile_append_of_pos
        (by simpa using hEarlier),
      List.takeWhile_cons_of_neg (by simpa using hKey),
      List.append_nil]
  rw [eventsBefore, hBefore, eventsThrough,
    emissionsThrough, hPassages, List.take_left']
  rfl

/-
  The last tempo when a beat starts is the
  one in force at the beat.
-/
theorem Renders.tempoAt?_eq
    (hRenders : perf.Renders settings s done last)
    {m : MetBeat}
    (hMember : m ∈ s.metBeats) :
    perf.tempoAt? m.key =
      some (settings.quarterAfter m.met) := by
  rcases Score.isMetIn_moments hMember with
    ⟨earlier, part, later, hMoments, hKey, -, -, hEarlier, hMet⟩
  have hPassages :
      perf.passages.map Passage.moment =
        earlier ++ .part part :: later := by
    rw [hRenders.map_moment, hMoments]
  rcases List.map_eq_append_iff.mp hPassages with
    ⟨before, rest, hSplit, hBefore, hRest⟩
  rcases List.map_eq_cons_iff.mp hRest with
    ⟨passage, after, rfl, hPassage, -⟩
  have hNoKey :
      ∀ other ∈ before, other.moment.key? ≠ some m.key := by
    intro other hOther
    apply hEarlier
    rw [← hBefore]
    exact List.mem_map_of_mem hOther
  have hOwn : passage.moment.key? = some m.key := by
    rw [hPassage, ← hKey]
    rfl
  have hTaken : s.moments.take before.length = earlier := by
    rw [hMoments, ← hBefore]
    exact List.take_left' (List.length_map _)
  rw [tempoAt?, eventsBefore_of_split hSplit hNoKey hOwn,
    hRenders.lastQuarter?_eventsThrough, hTaken, hMet,
    List.nil_append]

/- A beat sounds as long as it is to, but for rounding. -/
theorem Renders.sounds_near
    (hRenders : perf.Renders settings s done last)
    (hTicks : 0 < settings.ticksPerQuarter)
    {m : MetBeat}
    (hMember : m ∈ s.metBeats)
    {duration : Rat}
    (hSounds : perf.Sounds settings m duration) :
    |duration - m.spoken settings| ≤ m.slack settings := by
  rcases hSounds with ⟨tempo, hTempo, hUncapped, rfl⟩
  rw [hRenders.tempoAt?_eq hMember, Option.some.injEq] at hTempo
  subst hTempo
  exact MetBeat.duration_near hTicks hUncapped

end Performance

------------------------------------------------------------
-- Other note values
------------------------------------------------------------

/- All directives but those that ask for a note value. -/
def Selection.anyUnit : Selection :=
  .without [.beatUnit]

/-
  The tempo is the same without the directives that ask for
  a note value.
-/
theorem foldl_bpmAfter_anyUnit
    (bpm : Int)
    (ds : List Directive) :
    (ds.filter
        (Directive.isKept Selection.anyUnit.lyrics)).foldl
        Directive.bpmAfter bpm =
      ds.foldl Directive.bpmAfter bpm := by
  induction ds generalizing bpm with
  | nil =>
      rfl
  | cons d ds ih =>
      rw [List.filter_cons]
      by_cases hDeleted :
          Directive.isKept Selection.anyUnit.lyrics d = true
      · rw [if_pos hDeleted]
        exact ih _
      · rw [if_neg hDeleted]
        have hUnit : d.bpmAfter bpm = bpm := by
          unfold Directive.bpmAfter
          unfold Directive.isKept Selection.anyUnit
            Selection.without at hDeleted
          cases hOrder : d.order <;> simp_all [Order.name]
        rw [List.foldl_cons, hUnit]
        exact ih bpm

namespace MetBeat

/-
  A beat is to sound as long whatever note
  values are asked for.
-/
theorem spoken_congr
    {settings other : AudioSettings}
    {m n : MetBeat}
    (hTempo : other.defaultTempo = settings.defaultTempo)
    (hSame :
      n.select Selection.anyUnit.lyrics =
        m.select Selection.anyUnit.lyrics) :
    n.spoken other = m.spoken settings := by
  injection hSame with hKey hBeat hMet
  have hUnits : n.beat.units = m.beat.units := by
    have hSubdivisions := congrArg Beat.subdivisions hBeat
    rw [Beat.subdivisions_select,
      Beat.subdivisions_select] at hSubdivisions
    unfold Beat.units Beat.scaleDigits
    rw [hSubdivisions]
  have hBpm : n.bpm other = m.bpm settings := by
    rw [bpm, bpm, ← foldl_bpmAfter_anyUnit,
      ← foldl_bpmAfter_anyUnit _ m.met, hMet, hTempo]
  rw [spoken, spoken, hUnits, hBpm]

end MetBeat

namespace Score

/- No two met beats of a score have the same key. -/
theorem nodup_keys_metBeats
    (s : Score) :
    (s.metBeats.map MetBeat.key).Nodup := by
  have hKeys :
      s.metBeats.map MetBeat.key =
        (s.timedBeats "4").map TimedBeat.key := by
    rw [show s.timedBeats "4" =
        _ from (s.timed_metBeats {}).symm, List.map_map]
    rfl
  rw [hKeys]
  exact nodup_timedBlocks "4" 0 s.blocks

variable {s r : Score}

/-
  The beats of a score are those of a score
  with other note values.
-/
theorem keys_metBeats_congr
    (hSame :
      r.select Selection.anyUnit =
        s.select Selection.anyUnit) :
    r.metBeats.map MetBeat.key =
      s.metBeats.map MetBeat.key := by
  have hBeats :
      r.metBeats.map
          (MetBeat.select Selection.anyUnit.lyrics) =
        s.metBeats.map
          (MetBeat.select Selection.anyUnit.lyrics) := by
    rw [← r.metBeats_select, hSame, s.metBeats_select]
  have hKeys := congrArg (List.map MetBeat.key) hBeats
  rw [List.map_map, List.map_map] at hKeys
  exact hKeys

/- Beats of the same place differ in note values only. -/
theorem metBeat_congr
    (hSame :
      r.select Selection.anyUnit =
        s.select Selection.anyUnit)
    {m n : MetBeat}
    (hMember : m ∈ s.metBeats)
    (hOther : n ∈ r.metBeats)
    (hKey : n.key = m.key) :
    n.select Selection.anyUnit.lyrics =
      m.select Selection.anyUnit.lyrics := by
  have hSelected :
      n.select Selection.anyUnit.lyrics ∈
        s.metBeats.map
          (MetBeat.select Selection.anyUnit.lyrics) := by
    rw [← s.metBeats_select, ← hSame, r.metBeats_select]
    exact List.mem_map_of_mem hOther
  rcases List.mem_map.mp hSelected with ⟨o, hFound, hSelect⟩
  have hFoundKey : o.key = m.key := by
    have hSelectKey := congrArg MetBeat.key hSelect
    exact hSelectKey.trans hKey
  rw [← hSelect,
    List.inj_on_of_nodup_map s.nodup_keys_metBeats hFound
      hMember hFoundKey]

end Score

------------------------------------------------------------
-- Scores
------------------------------------------------------------

/-
  Beats last what the tempo says.  When a beat starts, the
  last tempo set is the one in force, and unless it is capped
  the beat sounds for its units of the time that the tempo
  gives a beat, give or take the rounding of a quarter.  So if
  only the note values of a score change, its beats sound as
  long as before, give or take the rounding on both sides.
-/
theorem Score.beats_last_what_tempo_says
    {settings : AudioSettings}
    {s : Score}
    {events : List MidiEvent}
    (hSettings : settings.InRange)
    (hEvents : s.events settings = .ok events) :
    let ticksPerQuarter := settings.ticksPerQuarter
    s.metBeats.map (MetBeat.timed settings) =
        s.timedBeats settings.defaultBeatUnit ∧
      (s.metBeats.map MetBeat.key).Nodup ∧
      ∃ perf,
        s.performance settings = .ok perf ∧
          perf.events = events ∧
          perf.passages.map Passage.moment = s.moments ∧
          (∀ m ∈ s.metBeats,
            m.IsMetIn [] s.moments ∧
              ∃ tempo scale length,
                perf.tempoAt? m.key = some tempo ∧
                  m.beat.scale = .ok scale ∧
                  m.beat.ticks (m.unit settings)
                      ticksPerQuarter =
                    .ok length ∧
                  (tempo ≠ 0xFFFFFF →
                    |tempo * length / ticksPerQuarter -
                        60000000 * scale /
                          (max (m.bpm settings) 1 : Int)| ≤
                      BeatUnit.quarters (m.unit settings) *
                        scale / 2)) ∧
          ∀ (other : AudioSettings) (r : Score)
            (perf' : Performance),
            other.InRange →
              other.defaultTempo = settings.defaultTempo →
              r.select (Selection.without [.beatUnit]) =
                s.select (Selection.without [.beatUnit]) →
              r.performance other = .ok perf' →
              r.metBeats.map MetBeat.key =
                  s.metBeats.map MetBeat.key ∧
                ∀ m ∈ s.metBeats,
                  ∀ n ∈ r.metBeats,
                    n.key = m.key →
                      ∀ duration duration',
                        perf.Sounds settings m duration →
                          perf'.Sounds other n duration' →
                              |duration' - duration| ≤
                                n.slack other +
                                  m.slack settings := by
  intro ticksPerQuarter
  rcases Score.performance_of_events hEvents with
    ⟨perf, hPerformance, rfl⟩
  rcases Score.performance_eq_ok hPerformance with
    ⟨done, last, hRenders⟩
  have hTicks : 0 < ticksPerQuarter :=
    hSettings.ticksPerQuarter.1
  refine ⟨s.timed_metBeats settings, s.nodup_keys_metBeats,
    perf, hPerformance, rfl, hRenders.map_moment, ?_, ?_⟩
  · intro m hMember
    have hTimed :
        m.timed settings ∈
          s.timedBeats settings.defaultBeatUnit := by
      rw [← s.timed_metBeats settings]
      exact List.mem_map_of_mem hMember
    have hScale : m.beat.scale = .ok m.beat.units :=
      hRenders.scale_of_mem_timedBeats hTimed
    refine ⟨Score.isMetIn_moments hMember,
      settings.quarterAfter m.met, m.beat.units,
      (m.timed settings).length ticksPerQuarter,
      hRenders.tempoAt?_eq hMember, hScale, ?_,
      fun hUncapped =>
        MetBeat.duration_near hTicks hUncapped⟩
    rw [Beat.ticks, hScale]
    rfl
  · intro other r perf' hOther hTempo hSame hPerformance'
    rcases Score.performance_eq_ok hPerformance' with
      ⟨done', last', hRenders'⟩
    refine ⟨Score.keys_metBeats_congr hSame, ?_⟩
    intro m hMember n hMember' hKey duration duration'
      hSounds hSounds'
    have hSpoken : n.spoken other = m.spoken settings :=
      MetBeat.spoken_congr hTempo
        (Score.metBeat_congr hSame hMember hMember' hKey)
    have hNear := hRenders.sounds_near hTicks hMember hSounds
    have hNear' :=
      hRenders'.sounds_near hOther.ticksPerQuarter.1
        hMember' hSounds'
    rw [hSpoken] at hNear'
    rw [abs_le] at hNear hNear' ⊢
    constructor <;> linarith

/-
  A score of one long beat, at 97 beats in a minute, with
  directives before it.
-/
def Score.march
    (ds : List Directive) : Score where
  blocks := [
    { lyricLines := [
        { directives := ds
          measures := [
            { beats := [
                { elements := [
                    .directive ⟨.tempo 97, {}⟩,
                    .subdivision ⟨.syllable, "3la", {}⟩] }] }] }]
      pitchLines := [
        { measures := [
            { elements := [.pitch { letter := .c }] }] }] }]

/- The beat of the march. -/
def Score.marchBeat
    (ds : List Directive) : MetBeat where
  key := ⟨0, 0⟩
  beat :=
    { elements :=
        [.directive ⟨.tempo 97, {}⟩,
          .subdivision ⟨.syllable, "3la", {}⟩] }
  met := ds ++ [⟨.tempo 97, {}⟩]

/-
  Counted in dotted quarters, the march
  goes on as in quarters.
-/
theorem Score.march_lasts :
    let dotted : List Directive := [⟨.beatUnit "4.", {}⟩]
    AudioSettings.InRange {} ∧
      ∃ perf perf' duration duration',
        (march dotted).performance {} = .ok perf ∧
          (march []).performance {} = .ok perf' ∧
          perf.Sounds {} (marchBeat dotted) duration ∧
          perf'.Sounds {} (marchBeat []) duration' ∧
          |duration - 60000000 * 3 / 97| ≤ 3 / 2 * 3 / 2 ∧
          |duration' - duration| ≤
            1 * 3 / 2 + 3 / 2 * 3 / 2 := by
  intro dotted
  have hSettings : AudioSettings.InRange {} :=
    ⟨by decide, by decide, by decide, by decide, by decide,
      by decide⟩
  have hOk : ((march dotted).events {}).isOk = true := by
    decide +kernel
  have hOk' : ((march []).performance {}).isOk = true := by
    decide +kernel
  rcases Outcome.exists_eq_ok hOk with ⟨events, hEvents⟩
  rcases Outcome.exists_eq_ok hOk' with ⟨perf', hPerformance'⟩
  rcases Score.beats_last_what_tempo_says hSettings hEvents with
    ⟨-, -, perf, hPerformance, -, -, hBeats, hOthers⟩
  have hMember :
      marchBeat dotted ∈ (march dotted).metBeats := by
    decide +kernel
  have hMember' : marchBeat [] ∈ (march []).metBeats := by
    decide +kernel
  have hTempo :
      ((march dotted).performance {}).map (fun perf =>
          perf.tempoAt? ⟨0, 0⟩) =
        .ok (some 412371) := by
    decide +kernel
  have hTempo' :
      ((march []).performance {}).map (fun perf =>
          perf.tempoAt? ⟨0, 0⟩) =
        .ok (some 618557) := by
    decide +kernel
  rw [hPerformance, Outcome.map_ok, Except.ok.injEq] at hTempo
  rw [hPerformance', Outcome.map_ok, Except.ok.injEq] at hTempo'
  have hSounds : perf.Sounds {} (marchBeat dotted) _ :=
    ⟨412371, hTempo, by decide, rfl⟩
  have hSounds' : perf'.Sounds {} (marchBeat []) _ :=
    ⟨618557, hTempo', by decide, rfl⟩
  refine ⟨hSettings, perf, perf', _, _, hPerformance,
    hPerformance', hSounds, hSounds', ?_, ?_⟩
  · rcases hBeats _ hMember with
      ⟨-, tempo, scale, length, hAt, hScale, hLength, hNear⟩
    have hSame : tempo = 412371 :=
      Option.some.inj (hAt.symm.trans hTempo)
    have hUnits :
        (marchBeat dotted).beat.scale = .ok 3 := by
      decide +kernel
    have hTicks :
        (marchBeat dotted).beat.ticks
            ((marchBeat dotted).unit {}) 480 =
          .ok 2160 := by
      decide +kernel
    have hThree : scale = 3 :=
      Except.ok.inj (hScale.symm.trans hUnits)
    have hLong : length = 2160 :=
      Except.ok.inj (hLength.symm.trans hTicks)
    have hBpm : max ((marchBeat dotted).bpm {}) 1 = 97 := by
      decide +kernel
    have hQuarters :
        BeatUnit.quarters ((marchBeat dotted).unit {}) =
          3 / 2 := by
      decide +kernel
    have hDuration :
        ((marchBeat dotted).timed {}).duration 480 412371 =
          (412371 : Int) * 2160 / (480 : Int) := by
      decide +kernel
    subst hSame hThree hLong
    rw [hBpm, hQuarters] at hNear
    exact hDuration ▸ hNear (by decide)
  · have hSelected :
        (march []).select (Selection.without [.beatUnit]) =
          (march dotted).select
            (Selection.without [.beatUnit]) :=
      rfl
    have hSlack : (marchBeat []).slack {} = 1 * 3 / 2 := by
      decide +kernel
    have hSlack' :
        (marchBeat dotted).slack {} = 3 / 2 * 3 / 2 := by
      decide +kernel
    rw [← hSlack, ← hSlack']
    exact (hOthers {} (march []) perf' hSettings rfl
      hSelected hPerformance').2 _ hMember _ hMember' rfl _
      _ hSounds hSounds'

end LyricScore
