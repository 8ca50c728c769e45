import LyricScore.Performance.Schedule
import LyricScore.Proofs.Midi.Event
import LyricScore.Proofs.Performance.Moment

/-
  This file tells which events of a score come from which
  action, and which actions from which moment.  The events of
  a performance are those of the score, in the same order and
  with the same failures; a performance only keeps apart what
  the list of events runs together.

  Key definitions include:
    * `Emission`
    * `Schedule.emission`, `Schedule.emissions`
    * `Passage`
    * `Performance`
    * `Score.performance`

  Key theorems include:
    * `Schedule.emission_eq_ok`
    * `Schedule.deltaSum_emissions`
    * `Score.events_eq_performance`
    * `Score.performance_eq_ok`
-/

namespace LyricScore

------------------------------------------------------------
-- Emissions
------------------------------------------------------------

/-
  An action, the events that fill the distance to it, and the
  event of its own.
-/
structure Emission where
  action : Action
  fillers : List MidiEvent
  own : MidiEvent
deriving DecidableEq, Repr

namespace Emission

/- The events of an emission, in order. -/
def events
    (e : Emission) : List MidiEvent :=
  e.fillers ++ [e.own]

end Emission

namespace Schedule

/- The emission of an action. -/
def emission
    (channel : Int)
    (s : Schedule)
    (a : Action) : Except MidiError (Emission × Schedule) := do
  let tick := roundHalfEven a.time
  let distance := tick - s.tick
  let count := fillerCount distance
  let fillers ← (List.replicate count ()).mapM fun _ =>
    MidiEvent.setTempo Midi.maxQuantity s.tempo
  let own ←
    event channel
      (distance - count * Midi.maxQuantity) a.act
  return (⟨a, fillers, own⟩, ⟨tick, tempoAfter s.tempo a.act⟩)

/- The emissions of actions in turn. -/
def emissions
    (channel : Int)
    (s : Schedule) :
      List Action →
        Except MidiError (List Emission × Schedule)
  | [] => .ok ([], s)
  | a :: rest => do
    let (first, s) ← s.emission channel a
    let (more, s) ← emissions channel s rest
    return (first :: more, s)

variable {channel : Int}

theorem action_eq_emission
    (s : Schedule)
    (a : Action) :
    s.action channel a =
      (s.emission channel a).map fun (e, s) =>
        (e.events, s) := by
  simp only [action, emission]
  cases
    (List.replicate
      (fillerCount (roundHalfEven a.time - s.tick)) ()).mapM
    fun _ =>
      MidiEvent.setTempo Midi.maxQuantity s.tempo with
  | error error =>
      rfl
  | ok fillers =>
      cases event channel
        (roundHalfEven a.time - s.tick -
          fillerCount (roundHalfEven a.time - s.tick) *
            Midi.maxQuantity) a.act <;>
        rfl

theorem actions_eq_emissions
    (s : Schedule)
    (as : List Action) :
    s.actions channel as =
      (s.emissions channel as).map fun (es, _) =>
        es.flatMap Emission.events := by
  induction as generalizing s with
  | nil =>
      rfl
  | cons a as ih =>
      rw [actions, emissions, action_eq_emission]
      cases hFirst : s.emission channel a with
      | error error =>
          rfl
      | ok first =>
          cases hMore : first.2.emissions channel as <;>
            simp [ih, hMore]

theorem emissions_append
    (s : Schedule)
    (as more : List Action) :
    s.emissions channel (as ++ more) = do
      let (first, s) ← s.emissions channel as
      let (rest, s) ← s.emissions channel more
      return (first ++ rest, s) := by
  induction as generalizing s with
  | nil =>
      cases hMore : s.emissions channel more <;>
        simp [emissions, hMore]
  | cons a as ih =>
      simp only [List.cons_append, emissions, ih]
      cases hFirst : s.emission channel a with
      | error error =>
          rfl
      | ok first =>
          cases hAs : first.2.emissions channel as with
          | error error =>
              simp [hAs]
          | ok done =>
              cases hMore : done.2.emissions channel
                more <;>
                simp [hAs, hMore]

------------------------------------------------------------
-- One emission
------------------------------------------------------------

/-
  If a step is repeated, each repetition
  gives what the step does.
-/
theorem mapM_replicate_eq_ok
    {ε α : Type}
    {step : Except ε α}
    {n : Nat}
    {values : List α}
    (hRun :
      ((List.replicate n ()).mapM fun _ => step) =
        .ok values) :
    values.length = n ∧ ∀ a ∈ values, step = .ok a := by
  induction n generalizing values with
  | zero =>
      simp only [List.replicate_zero, List.mapM_nil,
        Outcome.pure_eq, Except.ok.injEq] at hRun
      subst hRun
      simp
  | succ n ih =>
      simp only [List.replicate_succ, List.mapM_cons,
        Outcome.bind_eq_ok, Outcome.pure_eq,
        Except.ok.injEq] at hRun
      rcases hRun with ⟨first, hFirst, more, hMore, rfl⟩
      rcases ih hMore with ⟨hLength, hValues⟩
      refine ⟨by simp [hLength], ?_⟩
      intro a hMember
      rcases List.mem_cons.mp hMember with rfl | hMember
      · exact hFirst
      · exact hValues a hMember

/- The event of an action lasts the ticks that it is given. -/
theorem delta_event
    {delta : Int}
    {act : Act}
    {e : MidiEvent}
    (hEvent : event channel delta act = .ok e) :
    (e.delta : Int) = delta := by
  have hDelta : 0 ≤ delta ∧ e.delta = delta.toNat := by
    cases act with
    | tempo microseconds =>
        rcases MidiEvent.setTempo_eq_ok hEvent with
          ⟨hDelta, rfl⟩
        exact ⟨hDelta, rfl⟩
    | program number =>
        rcases MidiEvent.programChange_eq_ok hEvent with
          ⟨hDelta, rfl⟩
        exact ⟨hDelta, rfl⟩
    | strike voice velocity =>
        rcases MidiEvent.noteOn_eq_ok hEvent with ⟨hDelta, rfl⟩
        exact ⟨hDelta, rfl⟩
    | release note =>
        rcases MidiEvent.noteOn_eq_ok hEvent with ⟨hDelta, rfl⟩
        exact ⟨hDelta, rfl⟩
  omega

/-
  What an emission is: its fillers repeat the tempo
  in force for the greatest distance of one event,
  its own event has the rest, and the schedule has
  come to the tick of the action.
-/
theorem emission_eq_ok
    {s t : Schedule}
    {a : Action}
    {e : Emission}
    (hEmission : s.emission channel a = .ok (e, t)) :
    let count := fillerCount (roundHalfEven a.time - s.tick)
    e.action = a ∧
      e.fillers.length = count ∧
      (∀ filler ∈ e.fillers,
        MidiEvent.setTempo Midi.maxQuantity s.tempo =
          .ok filler) ∧
      event channel
          (roundHalfEven a.time - s.tick -
            count * Midi.maxQuantity) a.act =
        .ok e.own ∧
      t =
        ⟨roundHalfEven a.time,
          tempoAfter s.tempo a.act⟩ := by
  simp only [emission, Outcome.bind_eq_ok, Outcome.pure_eq,
    Except.ok.injEq, Prod.mk.injEq] at hEmission
  rcases hEmission with ⟨fillers, hFillers, own, hOwn, rfl, rfl⟩
  rcases mapM_replicate_eq_ok hFillers with ⟨hLength, hTempo⟩
  exact ⟨rfl, hLength, hTempo, hOwn, rfl⟩

/- Each filler lasts for as long as one event can wait. -/
theorem deltaSum_fillers
    {tempo : Int}
    {fillers : List MidiEvent}
    (hFillers :
      ∀ filler ∈ fillers,
        MidiEvent.setTempo Midi.maxQuantity tempo =
          .ok filler) :
    deltaSum fillers = fillers.length * Midi.maxQuantity := by
  induction fillers with
  | nil =>
      simp
  | cons filler fillers ih =>
      rcases MidiEvent.setTempo_eq_ok
          (hFillers filler (by simp)) with
        ⟨-, hFiller⟩
      have hRest :=
        ih fun other hOther =>
          hFillers other (by simp [hOther])
      rw [deltaSum_cons, hRest, hFiller]
      simp [Nat.add_mul, Nat.add_comm]

/-
  The events of an emission last from the
  tick before to its own.
-/
theorem deltaSum_emission
    {s t : Schedule}
    {a : Action}
    {e : Emission}
    (hEmission : s.emission channel a = .ok (e, t)) :
    s.tick + deltaSum e.events = t.tick ∧
      t.tick = roundHalfEven e.action.time := by
  rcases emission_eq_ok hEmission with
    ⟨rfl, hLength, hFillers, hOwn, rfl⟩
  have hSum := deltaSum_fillers hFillers
  have hDelta := delta_event hOwn
  refine ⟨?_, rfl⟩
  simp only [Emission.events, deltaSum_append,
    deltaSum_cons, deltaSum_nil, hSum, hLength]
  push_cast
  omega

------------------------------------------------------------
-- Emissions in turn
------------------------------------------------------------

theorem emissions_cons_eq_ok
    {s t : Schedule}
    {a : Action}
    {as : List Action}
    {es : List Emission}
    (hEmissions : s.emissions channel (a :: as) = .ok (es, t)) :
    ∃ first u more,
      s.emission channel a = .ok (first, u) ∧
        u.emissions channel as = .ok (more, t) ∧
        es = first :: more := by
  simp only [emissions, Outcome.bind_eq_ok, Outcome.pure_eq,
    Except.ok.injEq, Prod.mk.injEq] at hEmissions
  rcases hEmissions with
    ⟨⟨first, u⟩, hFirst, ⟨more, v⟩, hMore, rfl, rfl⟩
  exact ⟨first, u, more, hFirst, hMore, rfl⟩

theorem emissions_nil_eq_ok
    {s t : Schedule}
    {es : List Emission}
    (hEmissions : s.emissions channel [] = .ok (es, t)) :
    es = [] ∧ t = s := by
  simp only [emissions, Except.ok.injEq,
    Prod.mk.injEq] at hEmissions
  exact ⟨hEmissions.1.symm, hEmissions.2.symm⟩

/- Each action has its emission, in order. -/
theorem map_action_emissions
    {s t : Schedule}
    {as : List Action}
    {es : List Emission}
    (hEmissions : s.emissions channel as = .ok (es, t)) :
    es.map Emission.action = as := by
  induction as generalizing s es with
  | nil =>
      rcases emissions_nil_eq_ok hEmissions with ⟨rfl, -⟩
      rfl
  | cons a as ih =>
      rcases emissions_cons_eq_ok hEmissions with
        ⟨first, u, more, hFirst, hMore, rfl⟩
      rw [List.map_cons, ih hMore, (emission_eq_ok hFirst).1]

/- Emissions may be cut anywhere. -/
theorem emissions_split
    {s t : Schedule}
    {as : List Action}
    {es more : List Emission}
    (hEmissions :
      s.emissions channel as = .ok (es ++ more, t)) :
    ∃ u,
      s.emissions channel (es.map Emission.action) =
          .ok (es, u) ∧
        u.emissions channel (more.map Emission.action) =
          .ok (more, t) := by
  have hActions := map_action_emissions hEmissions
  rw [List.map_append] at hActions
  rw [← hActions, emissions_append] at hEmissions
  simp only [Outcome.bind_eq_ok, Outcome.pure_eq,
    Except.ok.injEq, Prod.mk.injEq] at hEmissions
  rcases hEmissions with
    ⟨⟨first, u⟩, hFirst, ⟨rest, t⟩, hRest, hBoth, rfl⟩
  have hLength : first.length = es.length := by
    have hMap :=
      congrArg List.length (map_action_emissions hFirst)
    simpa using hMap
  rcases List.append_inj hBoth hLength with ⟨rfl, rfl⟩
  exact ⟨u, hFirst, hRest⟩

/-
  The events of emissions last from the tick
  before to the last one.
-/
theorem deltaSum_emissions
    {s t : Schedule}
    {as : List Action}
    {es : List Emission}
    (hEmissions : s.emissions channel as = .ok (es, t)) :
    s.tick + deltaSum (es.flatMap Emission.events) =
      t.tick := by
  induction as generalizing s es with
  | nil =>
      rcases emissions_nil_eq_ok hEmissions with ⟨rfl, rfl⟩
      simp
  | cons a as ih =>
      rcases emissions_cons_eq_ok hEmissions with
        ⟨first, u, more, hFirst, hMore, rfl⟩
      have hTick := (deltaSum_emission hFirst).1
      have hRest := ih hMore
      simp only [List.flatMap_cons, deltaSum_append]
      push_cast
      omega

/-
  Ticks do not drift: the events up to that of an action last
  until the rounded time of the action, however the distances
  before it were rounded and filled.
-/
theorem deltaSum_through
    {s t : Schedule}
    {as : List Action}
    {before after : List Emission}
    {e : Emission}
    (hEmissions :
      s.emissions channel as =
        .ok (before ++ e :: after, t)) :
    s.tick +
        deltaSum ((before ++ [e]).flatMap Emission.events) =
      roundHalfEven e.action.time := by
  rw [List.append_cons] at hEmissions
  rcases emissions_split hEmissions with ⟨u, hThrough, -⟩
  rcases emissions_split hThrough with ⟨v, -, hLast⟩
  rcases emissions_cons_eq_ok hLast with
    ⟨only, w, none, hOnly, hNone, hEmission⟩
  rcases emissions_nil_eq_ok hNone with ⟨rfl, rfl⟩
  rcases List.cons.inj hEmission with ⟨rfl, -⟩
  rw [deltaSum_emissions hThrough]
  exact (deltaSum_emission hOnly).2

/- Each of several emissions is one of some schedule. -/
theorem exists_emission_of_mem
    {s t : Schedule}
    {as : List Action}
    {es : List Emission}
    (hEmissions : s.emissions channel as = .ok (es, t))
    {e : Emission}
    (hMember : e ∈ es) :
    ∃ u v : Schedule,
      u.emission channel e.action = .ok (e, v) := by
  induction as generalizing s es with
  | nil =>
      rcases emissions_nil_eq_ok hEmissions with ⟨rfl, -⟩
      cases hMember
  | cons a as ih =>
      rcases emissions_cons_eq_ok hEmissions with
        ⟨first, u, more, hFirst, hMore, rfl⟩
      rcases List.mem_cons.mp hMember with rfl | hMember
      · refine ⟨s, u, ?_⟩
        rw [(emission_eq_ok hFirst).1]
        exact hFirst
      · exact ih hMore hMember

end Schedule

------------------------------------------------------------
-- Performances
------------------------------------------------------------

/- A moment and what is emitted at it. -/
structure Passage where
  moment : Moment
  emissions : List Emission
deriving DecidableEq, Repr

/-
  A performance: what is emitted before the first moment, at
  each moment, and behind the last.
-/
structure Performance where
  opening : List Emission
  passages : List Passage
  closing : List Emission
deriving DecidableEq, Repr

namespace Performance

/- All emissions of a performance, in order. -/
def emissions
    (p : Performance) : List Emission :=
  p.opening ++ p.passages.flatMap Passage.emissions ++ p.closing

/- All events of a performance, in order. -/
def events
    (p : Performance) : List MidiEvent :=
  p.emissions.flatMap Emission.events

end Performance

namespace Schedule

/- The passages of moments and their actions. -/
def passages
    (channel : Int)
    (s : Schedule) :
    List (Moment × List Action) →
      Except MidiError (List Passage × Schedule)
  | [] => .ok ([], s)
  | (m, as) :: rest => do
    let (first, s) ← s.emissions channel as
    let (more, s) ← passages channel s rest
    return (⟨m, first⟩ :: more, s)

variable {channel : Int}

/- The emissions of a run are those of its passages. -/
theorem emissions_flatMap
    (s : Schedule)
    (done : List (Moment × List Action)) :
    s.emissions channel (done.flatMap Prod.snd) =
      (s.passages channel done).map fun (ps, s) =>
        (ps.flatMap Passage.emissions, s) := by
  induction done generalizing s with
  | nil =>
      rfl
  | cons first done ih =>
      rw [List.flatMap_cons, emissions_append, passages]
      cases hFirst : s.emissions channel first.2 with
      | error error =>
          rfl
      | ok es =>
          cases hMore : es.2.passages channel done <;>
            simp [ih, hMore]

/-
  Each moment of a run has its passage, with
  the actions done in it.
-/
theorem map_passages
    {s t : Schedule}
    {done : List (Moment × List Action)}
    {ps : List Passage}
    (hPassages : s.passages channel done = .ok (ps, t)) :
    ps.map (fun p =>
        (p.moment, p.emissions.map Emission.action)) =
      done := by
  induction done generalizing s ps with
  | nil =>
      simp only [passages, Except.ok.injEq,
        Prod.mk.injEq] at hPassages
      rw [← hPassages.1]
      rfl
  | cons first done ih =>
      simp only [passages, Outcome.bind_eq_ok,
        Outcome.pure_eq, Except.ok.injEq,
        Prod.mk.injEq] at hPassages
      rcases hPassages with
        ⟨⟨es, u⟩, hFirst, ⟨more, t⟩, hMore, rfl, rfl⟩
      rw [List.map_cons, ih hMore, map_action_emissions hFirst]

end Schedule

namespace Score

/- The performance of a score. -/
def performance
    (settings : AudioSettings)
    (s : Score) : Except Failure Performance := do
  let p := Player.start settings
  let schedule : Schedule := { tempo := p.tempo }
  let (done, p) ←
    (p.moments settings.ticksPerQuarter s.moments).mapError
      .numeral
  let (opening, schedule) ←
    (schedule.emissions settings.channel
      (Player.opening settings)).mapError .midi
  let (passages, schedule) ←
    (schedule.passages settings.channel done).mapError .midi
  let (closing, _) ←
    (schedule.emissions settings.channel
      p.silence.1).mapError .midi
  return ⟨opening, passages, closing⟩

/- The events of a score are those of its performance. -/
theorem events_eq_performance
    (settings : AudioSettings)
    (s : Score) :
    s.events settings =
      (s.performance settings).map Performance.events := by
  simp only [events, performance, actions_eq_moments]
  cases (Player.start settings).moments
    settings.ticksPerQuarter s.moments with
  | error error =>
      rfl
  | ok done =>
      generalize
        ({ tempo := (Player.start settings).tempo } :
          Schedule) = schedule
      simp only [Outcome.ok_bind, Outcome.mapError_ok,
        Outcome.pure_eq, Schedule.actions_eq_emissions,
        Schedule.emissions_append,
        Schedule.emissions_flatMap]
      cases schedule.emissions settings.channel
        (Player.opening settings) with
      | error error =>
          rfl
      | ok opening =>
          cases hPassages : opening.2.passages
            settings.channel done.1 with
          | error error =>
              simp [hPassages]
          | ok passages =>
              cases hClosing : passages.2.emissions
                settings.channel done.2.silence.1 <;>
                simp [hPassages, hClosing,
                  Performance.events, Performance.emissions]

/- The events of a score are those of its performance. -/
theorem performance_of_events
    {settings : AudioSettings}
    {s : Score}
    {events : List MidiEvent}
    (hEvents : s.events settings = .ok events) :
    ∃ perf,
      s.performance settings = .ok perf ∧
        perf.events = events := by
  rw [events_eq_performance, Outcome.map_eq_ok] at hEvents
  exact hEvents

end Score

/-
  How a performance came about: `done` tells what the
  player did at the moments of the score, and `last`
  is the player behind them.
-/
structure Performance.Renders
    (settings : AudioSettings)
    (s : Score)
    (perf : Performance)
    (done : List (Moment × List Action))
    (last : Player) : Prop where
  run :
    (Player.start settings).moments settings.ticksPerQuarter
        s.moments =
      .ok (done, last)
  opening :
    perf.opening.map Emission.action =
      Player.opening settings
  passages :
    perf.passages.map (fun p =>
        (p.moment, p.emissions.map Emission.action)) =
      done
  closing : perf.closing.map Emission.action = last.silence.1
  schedule :
    ∃ t : Schedule,
      ({ tempo := (Player.start settings).tempo } :
          Schedule).emissions settings.channel
          (Player.opening settings ++
            done.flatMap Prod.snd ++ last.silence.1) =
        .ok (perf.emissions, t)

/- A performance renders what its player does. -/
theorem Score.performance_eq_ok
    {settings : AudioSettings}
    {s : Score}
    {perf : Performance}
    (hPerformance : s.performance settings = .ok perf) :
    ∃ done last, perf.Renders settings s done last := by
  simp only [Score.performance, Outcome.bind_eq_ok,
    Outcome.mapError_eq_ok, Outcome.pure_eq,
    Except.ok.injEq] at hPerformance
  rcases hPerformance with
    ⟨⟨done, last⟩, hRun, ⟨opening, c⟩, hOpening,
      ⟨passages, d⟩, hPassages, ⟨closing, t⟩, hClosing, rfl⟩
  refine
    ⟨done, last,
      { run := hRun
        opening := Schedule.map_action_emissions hOpening
        passages := Schedule.map_passages hPassages
        closing := Schedule.map_action_emissions hClosing
        schedule := ⟨t, ?_⟩ }⟩
  simp only at hPassages hClosing
  simp [Schedule.emissions_append,
    Schedule.emissions_flatMap, hOpening, hPassages,
    hClosing, Performance.emissions]

namespace Performance

variable {settings : AudioSettings}
variable {s : Score}
variable {perf : Performance}
variable {done : List (Moment × List Action)}
variable {last : Player}

/-
  The passages of a performance are at the
  moments of the score.
-/
theorem Renders.map_moment
    (hRenders : perf.Renders settings s done last) :
    perf.passages.map Passage.moment = s.moments := by
  rw [← Player.map_fst_moments hRenders.run,
    ← hRenders.passages, List.map_map]
  rfl

/-
  What a passage emits is what the player did at its moment.
-/
theorem Renders.mem_done
    (hRenders : perf.Renders settings s done last)
    {passage : Passage}
    (hPassage : passage ∈ perf.passages) :
    (passage.moment,
        passage.emissions.map Emission.action) ∈
      done := by
  rw [← hRenders.passages]
  exact List.mem_map_of_mem hPassage

end Performance

end LyricScore
