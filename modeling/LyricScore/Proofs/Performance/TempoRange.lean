import LyricScore.Proofs.Performance.TempoTrack
import LyricScore.Proofs.Timing.Tempo

/-
  This file tells the range of the tempos in the events of a
  score.  They are the tempos that the directives of the lyric
  streams come to one after the other, and three bytes hold
  each of them.  But the clock stops where the directives ask
  for so many beats in a minute that a quarter rounds to no
  time at all: slow tempos are capped, fast ones are not.

  Key definitions include:
    * `Score.lyricDirectives`
    * `AudioSettings.Hurried`
    * `quartersOfActions`

  Key theorems include:
    * `Score.directives_moments`
    * `Player.Paced.mem_quarters_moments_iff`
    * `Schedule.mem_quarters_emissions_iff`
    * `Score.mem_quarters_events_iff`
    * `Score.tempos_vanish_iff_hurried`
-/

namespace LyricScore

------------------------------------------------------------
-- Directives of a score
------------------------------------------------------------

/-
  The directives of the lyric streams of a score, in order.
-/
def Score.lyricDirectives
    (s : Score) : List Directive :=
  s.blocks.flatMap fun b =>
    b.lyricStream.flatMap LyricItem.directives

/-
  The directives that are met in a score are those of its
  lyric streams.
-/
theorem Score.directives_moments
    (s : Score) :
    s.moments.filterMap Moment.directive? =
      s.lyricDirectives := by
  have hBlocks (index : Nat) (bs : List Block) :
      (blockMoments index bs).filterMap Moment.directive? =
        bs.flatMap fun b =>
          b.lyricStream.flatMap LyricItem.directives := by
    induction bs generalizing index with
    | nil =>
        rfl
    | cons b bs ih =>
        rw [blockMoments, List.filterMap_append,
          b.directives_moments, ih, List.flatMap_cons]
  exact hBlocks 0 s.blocks

/-
  The directives ask for so many beats in a minute that a
  quarter rounds to nothing.
-/
def AudioSettings.Hurried
    (settings : AudioSettings)
    (met : List Directive) : Prop :=
  120000000 <
    quartersPerMinute
      (met.foldl Directive.bpmAfter settings.defaultTempo)
      (met.foldl Directive.unitAfter
        settings.defaultBeatUnit)

/- A tempo vanishes just if the directives hurry. -/
theorem AudioSettings.quarterAfter_eq_zero_iff
    {settings : AudioSettings}
    {met : List Directive} :
    settings.quarterAfter met = 0 ↔ settings.Hurried met :=
  microsecondsPerQuarter_eq_zero_iff

------------------------------------------------------------
-- Tempos of actions
------------------------------------------------------------

/- The lengths of a quarter that actions set, in order. -/
def quartersOfActions
    (as : List Action) : List Int :=
  as.filterMap fun a => a.act.quarter?

@[simp] theorem quartersOfActions_append
    (as more : List Action) :
    quartersOfActions (as ++ more) =
      quartersOfActions as ++ quartersOfActions more :=
  List.filterMap_append

/- Actions that set no tempo set no tempos. -/
theorem quartersOfActions_eq_nil
    {as : List Action}
    (hPlain : ∀ a ∈ as, a.act.quarter? = none) :
    quartersOfActions as = [] :=
  List.filterMap_eq_nil_iff.mpr hPlain

namespace Player

variable {settings : AudioSettings}
variable {ds : List Directive}
variable {ticksPerQuarter : Int}
variable {p q : Player}

/-
  A moment sets the tempo in force behind it, if that is
  another than before.
-/
theorem Paced.mem_quarters_moment_iff
    {m : Moment}
    {done : List Action}
    (hPaced : p.Paced settings ds)
    (hMoment : p.moment ticksPerQuarter m = .ok (done, q))
    (quarter : Int) :
    quarter = p.tempo ∨ quarter ∈ quartersOfActions done ↔
      quarter = p.tempo ∨ quarter = q.tempo := by
  rcases (hPaced.moment hMoment).2 with
    ⟨hPlain, hSame⟩ | ⟨rfl, -⟩
  · simp [quartersOfActions_eq_nil hPlain, hSame]
  · simp [quartersOfActions, act, Act.quarter?]

/-
  The tempos that are set at moments are those that some of
  the directives met, from the first one on, come to.
-/
theorem Paced.mem_quarters_moments_iff
    {ms : List Moment}
    {done : List (Moment × List Action)}
    (hPaced : p.Paced settings ds)
    (hRun : p.moments ticksPerQuarter ms = .ok (done, q))
    (quarter : Int) :
    quarter = p.tempo ∨
        quarter ∈
          quartersOfActions (done.flatMap Prod.snd) ↔
      ∃ met,
        met <+: ms.filterMap Moment.directive? ∧
          quarter = settings.quarterAfter (ds ++ met) := by
  induction ms generalizing p ds done with
  | nil =>
      rcases moments_nil_eq_ok hRun with ⟨rfl, rfl⟩
      simp [quartersOfActions, hPaced.tempo_eq]
  | cons m ms ih =>
      rcases moments_cons_eq_ok hRun with
        ⟨first, r, more, hFirst, hMore, rfl⟩
      have hNext := (hPaced.moment hFirst).1
      have hRest := ih hNext hMore
      have hSplit :
          quarter = p.tempo ∨
              quarter ∈
                quartersOfActions
                  (((m, first) :: more).flatMap Prod.snd) ↔
            quarter = p.tempo ∨
              quarter = r.tempo ∨
              quarter ∈
                quartersOfActions
                  (more.flatMap Prod.snd) := by
        rw [List.flatMap_cons, quartersOfActions_append,
          List.mem_append, ← or_assoc,
          hPaced.mem_quarters_moment_iff hFirst, or_assoc]
      rw [hSplit, hRest]
      cases hDirective : m.directive? with
      | none =>
          have hFirstOf :
              quarter = p.tempo →
                ∃ met,
                  met <+: ms.filterMap Moment.directive? ∧
                    quarter =
                      settings.quarterAfter
                        (ds ++ met) := by
            intro hTempo
            exact ⟨[], List.nil_prefix,
              by
                rw [hTempo, hPaced.tempo_eq,
                  List.append_nil]⟩
          rw [List.filterMap_cons_none hDirective]
          simp only [Option.toList_none, List.append_nil]
          exact or_iff_right_of_imp hFirstOf
      | some d =>
          rw [List.filterMap_cons_some hDirective]
          simp only [Option.toList_some, List.append_assoc,
            List.singleton_append, List.prefix_cons_iff,
            hPaced.tempo_eq]
          constructor
          · rintro (hTempo | ⟨met, hMet, hTempo⟩)
            · exact ⟨[], Or.inl rfl,
                by rw [hTempo, List.append_nil]⟩
            · exact ⟨d :: met, Or.inr ⟨met, rfl, hMet⟩, hTempo⟩
          · rintro ⟨met, rfl | ⟨rest, rfl, hRest⟩, hTempo⟩
            · rw [List.append_nil] at hTempo
              exact Or.inl hTempo
            · exact Or.inr ⟨rest, hRest, hTempo⟩

end Player

------------------------------------------------------------
-- Tempos of events
------------------------------------------------------------

namespace Schedule

variable {channel : Int}
variable {s t : Schedule}

/-
  The events of an action set the tempo it sets, or repeat
  the one in force.
-/
theorem mem_quarters_emission_iff
    {a : Action}
    {e : Emission}
    (hEmission : s.emission channel a = .ok (e, t))
    (quarter : Int) :
    quarter = s.tempo ∨
        quarter ∈ e.events.filterMap MidiEvent.quarter? ↔
      quarter = s.tempo ∨
        a.act.quarter? = some quarter := by
  have hFillers :
      quarter ∈ e.fillers.filterMap MidiEvent.quarter? →
        quarter = s.tempo := by
    intro hMember
    rcases List.mem_filterMap.mp hMember with
      ⟨filler, hFiller, hSets⟩
    rw [(fillers_emission hEmission filler hFiller).2] at hSets
    exact (Option.some.inj hSets).symm
  have hOwn := quarter?_event (emission_eq_ok hEmission).2.2.2.1
  rw [Emission.events, List.filterMap_append,
    List.mem_append, ← or_assoc,
    or_iff_left_of_imp hFillers]
  simp [hOwn]

/-
  Behind an action the tempo in force is its
  own, or the one before.
-/
theorem tempo_emission_eq_or
    {a : Action}
    {e : Emission}
    (hEmission : s.emission channel a = .ok (e, t)) :
    t.tempo = s.tempo ∧ a.act.quarter? = none ∨
      a.act.quarter? = some t.tempo := by
  rcases emission_eq_ok hEmission with ⟨-, -, -, -, rfl⟩
  cases a.act with
  | tempo microseconds =>
      exact Or.inr rfl
  | _ =>
      exact Or.inl ⟨rfl, rfl⟩

/-
  The events of actions set the tempos that the actions set,
  and no others.  By induction on the actions: what is known
  of the rest starts from the tempo behind the first one.
-/
theorem mem_quarters_emissions_iff
    {as : List Action}
    {es : List Emission}
    (hEmissions : s.emissions channel as = .ok (es, t))
    (quarter : Int) :
    quarter = s.tempo ∨
        quarter ∈
          (es.flatMap Emission.events).filterMap
            MidiEvent.quarter? ↔
      quarter = s.tempo ∨
        quarter ∈ quartersOfActions as := by
  induction as generalizing s es with
  | nil =>
      rcases emissions_nil_eq_ok hEmissions with ⟨rfl, rfl⟩
      simp [quartersOfActions]
  | cons a as ih =>
      rcases emissions_cons_eq_ok hEmissions with
        ⟨first, u, more, hFirst, hMore, rfl⟩
      have hAct :
          quarter ∈ quartersOfActions [a] ↔
            a.act.quarter? = some quarter := by
        simp [quartersOfActions]
      have hRest := ih hMore
      rw [List.flatMap_cons, List.filterMap_append,
        List.mem_append, ← or_assoc,
        mem_quarters_emission_iff hFirst,
        ← List.singleton_append, quartersOfActions_append,
        List.mem_append, ← or_assoc, hAct]
      rcases tempo_emission_eq_or hFirst with
        ⟨hStays, hPlain⟩ | hSets
      · rw [hStays] at hRest
        simpa [hPlain] using hRest
      · rw [hSets, Option.some.injEq, or_assoc, or_assoc,
          eq_comm (a := u.tempo), hRest]

end Schedule

------------------------------------------------------------
-- Scores
------------------------------------------------------------

namespace Score

variable {settings : AudioSettings}
variable {s : Score}
variable {events : List MidiEvent}

/-
  The tempos in the events of a score are those that some of
  its directives, from the first one on, come to.
-/
theorem mem_quarters_events_iff
    (hEvents : s.events settings = .ok events)
    (quarter : Int) :
    quarter ∈ events.filterMap MidiEvent.quarter? ↔
      ∃ met,
        met <+: s.lyricDirectives ∧
          quarter = settings.quarterAfter met := by
  rcases opening_events hEvents with
    ⟨first, program, rest, hOpening, hFirst, -⟩
  have hStart :
      quarter = (Player.start settings).tempo →
        quarter ∈ events.filterMap MidiEvent.quarter? := by
    rintro rfl
    exact List.mem_filterMap.mpr
      ⟨first, by simp [hOpening],
        MidiEvent.quarter?_of_setTempo hFirst⟩
  rcases Score.performance_of_events hEvents with
    ⟨perf, hPerformance, rfl⟩
  rcases Score.performance_eq_ok hPerformance with
    ⟨done, last, hRenders⟩
  rcases hRenders.schedule with ⟨t, hSchedule⟩
  have hReleases : quartersOfActions last.silence.1 = [] := by
    apply quartersOfActions_eq_nil
    intro a hAction
    rcases List.mem_map.mp hAction with ⟨note, -, rfl⟩
    rfl
  have hOpens :
      quartersOfActions (Player.opening settings) =
        [(Player.start settings).tempo] :=
    rfl
  have hActions :
      quartersOfActions
          (Player.opening settings ++
            done.flatMap Prod.snd ++ last.silence.1) =
        (Player.start settings).tempo ::
          quartersOfActions (done.flatMap Prod.snd) := by
    simp [hReleases, hOpens]
  calc
    quarter ∈ perf.events.filterMap MidiEvent.quarter? ↔
        quarter = (Player.start settings).tempo ∨
          quarter ∈
            perf.events.filterMap MidiEvent.quarter? :=
      (or_iff_right_of_imp hStart).symm
    _ ↔
      quarter = (Player.start settings).tempo ∨
        quarter ∈
          quartersOfActions (done.flatMap Prod.snd) := by
        rw [Performance.events,
          Schedule.mem_quarters_emissions_iff hSchedule,
          hActions, List.mem_cons, ← or_assoc, or_self]
    _ ↔
      ∃ met,
        met <+: s.lyricDirectives ∧
          quarter = settings.quarterAfter met := by
        rw [(Player.paced_start
            settings).mem_quarters_moments_iff hRenders.run,
          s.directives_moments]
        rfl

/-
  The tempos in the events of a score are those that its
  directives come to one after the other.  Three bytes hold
  each of them, and one of them is zero exactly if at some
  directive more than 120 million quarters make a minute.
-/
theorem tempos_vanish_iff_hurried
    (hEvents : s.events settings = .ok events) :
    (∀ quarter,
        quarter ∈ events.filterMap MidiEvent.quarter? ↔
          ∃ met,
            met <+: s.lyricDirectives ∧
              quarter = settings.quarterAfter met) ∧
      (∀ quarter ∈ events.filterMap MidiEvent.quarter?,
        0 ≤ quarter ∧ quarter ≤ 0xFFFFFF) ∧
      ((∀ quarter ∈ events.filterMap MidiEvent.quarter?,
          1 ≤ quarter) ↔
        ∀ met,
          met <+: s.lyricDirectives →
            ¬settings.Hurried met) := by
  have hRange :
      ∀ quarter ∈ events.filterMap MidiEvent.quarter?,
        0 ≤ quarter ∧ quarter ≤ 0xFFFFFF := by
    intro quarter hMember
    rcases (mem_quarters_events_iff hEvents quarter).mp
        hMember with
      ⟨met, -, rfl⟩
    exact microsecondsPerQuarter_mem _ _
  refine ⟨mem_quarters_events_iff hEvents, hRange, ?_⟩
  constructor
  · intro hPositive met hMet hHurried
    have hMember :=
      (mem_quarters_events_iff hEvents
        (settings.quarterAfter met)).mpr ⟨met, hMet, rfl⟩
    have hOne := hPositive _ hMember
    rw [AudioSettings.quarterAfter_eq_zero_iff.mpr
      hHurried] at hOne
    omega
  · intro hCalm quarter hMember
    rcases (mem_quarters_events_iff hEvents quarter).mp
        hMember with
      ⟨met, hMet, rfl⟩
    have hNonneg := (hRange _ hMember).1
    have hNotZero : settings.quarterAfter met ≠ 0 :=
      fun hZero =>
        hCalm met hMet
          (AudioSettings.quarterAfter_eq_zero_iff.mp hZero)
    omega

/- A score that asks for 200 million quarters in a minute. -/
def breakneck : Score where
  blocks := [
    { lyricLines := [
        { measures := [
            { beats := [
                { elements := [
                    .directive ⟨.tempo 200000000, {}⟩,
                    .subdivision ⟨.syllable, "la", {}⟩] }] }] }]
      pitchLines := [
        { measures := [
            { elements := [.pitch { letter := .c }] }] }] }]

/- Its tempo vanishes, as its directives hurry. -/
theorem breakneck_tempo_vanishes :
    ∃ events,
      breakneck.events {} = .ok events ∧
          0 ∈ events.filterMap MidiEvent.quarter? ∧
          ¬∀ met, met <+: breakneck.lyricDirectives →
        ¬AudioSettings.Hurried {} met := by
  have hOk : (breakneck.events {}).isOk = true := by
    decide +kernel
  rcases Outcome.exists_eq_ok hOk with ⟨events, hEvents⟩
  have hQuarters :
      (breakneck.events {}).map
          (List.filterMap MidiEvent.quarter?) =
        .ok [500000, 0] := by
    decide +kernel
  rw [hEvents, Outcome.map_ok, Except.ok.injEq] at hQuarters
  have hZero : 0 ∈ events.filterMap MidiEvent.quarter? := by
    simp [hQuarters]
  refine ⟨events, hEvents, hZero, ?_⟩
  rw [← (tempos_vanish_iff_hurried hEvents).2.2]
  intro hPositive
  exact absurd (hPositive 0 hZero) (by decide)

end Score

end LyricScore
