import LyricScore.Proofs.Performance.NoteChange
import LyricScore.Proofs.Performance.PianoRoll
import LyricScore.Proofs.Performance.Success

/-
  This file tells which notes start again while they sound.
  An attack first stops what sounds, so it can only be a note
  that two voices of the attack share; of such a note only one
  is stopped.  All other notes are stopped once for each start.

  Key definitions include:
    * `actionChanges`
    * `Stroke`, `Score.strokes`
    * `HoldsHeard`

  Key theorems include:
    * `Player.Holds.restarts_moments`
    * `Player.Holds.idleStops_moments`
    * `Score.notes_restart_only_within_attacks`
-/

namespace LyricScore

------------------------------------------------------------
-- Changes of actions
------------------------------------------------------------

/- The start or stop that is done. -/
def Act.noteChange? : Act → Option NoteChange
  | .strike v velocity =>
    some
      (if 0 < velocity then
          .start v.note.toNat
        else .stop v.note.toNat)
  | .release note => some (.stop note.toNat)
  | _ => none

/- The starts and stops among actions, in order. -/
def actionChanges
    (as : List Action) : List NoteChange :=
  as.filterMap fun a => a.act.noteChange?

theorem actionChanges_append
    (as more : List Action) :
    actionChanges (as ++ more) =
      actionChanges as ++ actionChanges more :=
  List.filterMap_append

/- Actions are replayed by their changes alone. -/
theorem replayActions_eq
    (notes : Finset Nat)
    (as : List Action) :
    replayActions notes as =
      soundingBehind notes (actionChanges as) := by
  induction as generalizing notes with
  | nil =>
      rfl
  | cons a as ih =>
      have hStep :
          replayActions notes (a :: as) =
            replayActions (a.act.replay notes) as :=
        rfl
      rw [hStep, ih]
      cases hAct : a.act with
      | strike v velocity =>
          simp only [actionChanges, List.filterMap_cons,
            hAct, Act.noteChange?, Act.replay]
          split <;> rfl
      | _ =>
          simp [actionChanges, hAct, Act.noteChange?,
            Act.replay, soundingBehind, NoteChange.apply]

namespace Schedule

variable {channel : Int}

/- An event changes the note that its act does. -/
theorem noteChange?_event
    {delta : Int}
    {act : Act}
    {e : MidiEvent}
    (hEvent : event channel delta act = .ok e) :
    e.noteChange? = act.noteChange? := by
  cases act with
  | tempo microseconds =>
      rcases MidiEvent.setTempo_eq_ok hEvent with ⟨-, rfl⟩
      rfl
  | program number =>
      rcases MidiEvent.programChange_eq_ok hEvent with ⟨-, rfl⟩
      rfl
  | strike voice velocity =>
      rcases MidiEvent.noteOn_eq_ok hEvent with ⟨-, rfl⟩
      simp [MidiEvent.noteChange?, Act.noteChange?]
  | release note =>
      rcases MidiEvent.noteOn_eq_ok hEvent with ⟨-, rfl⟩
      rfl

/-
  The events of emissions start and stop what their actions
  do; fillers do neither.
-/
theorem noteChanges_emissions
    {s t : Schedule}
    {as : List Action}
    {es : List Emission}
    (hEmissions : s.emissions channel as = .ok (es, t)) :
    noteChanges (es.flatMap Emission.events) =
      actionChanges as := by
  induction as generalizing s es with
  | nil =>
      rcases emissions_nil_eq_ok hEmissions with ⟨rfl, -⟩
      rfl
  | cons a as ih =>
      rcases emissions_cons_eq_ok hEmissions with
        ⟨first, u, more, hFirst, hMore, rfl⟩
      rcases emission_eq_ok hFirst with
        ⟨-, -, hFillers, hOwn, -⟩
      have hSilent :
          first.fillers.filterMap MidiEvent.noteChange? =
            [] := by
        rw [List.filterMap_eq_nil_iff]
        intro filler hFiller
        rcases MidiEvent.setTempo_eq_ok
            (hFillers filler hFiller) with
          ⟨-, rfl⟩
        rfl
      rw [List.flatMap_cons, noteChanges,
        List.filterMap_append, Emission.events,
        List.filterMap_append, hSilent, List.nil_append,
        actionChanges, List.filterMap_cons,
        List.filterMap_cons, noteChange?_event hOwn,
        List.filterMap_nil]
      have hRest := ih hMore
      rw [noteChanges, actionChanges] at hRest
      rw [hRest]
      cases a.act.noteChange? <;> rfl

end Schedule

------------------------------------------------------------
-- Strokes
------------------------------------------------------------

/-
  What a moment strikes: the notes of its
  voices, and how hard.
-/
structure Stroke where
  velocity : Int
  notes : List Nat
deriving DecidableEq, Repr

/- The notes that a stroke starts a second time. -/
def Stroke.repeated
    (s : Stroke) : List Nat :=
  if 0 < s.velocity then repeats [] s.notes else []

/- What a moment behind others strikes. -/
def Moment.stroke
    (settings : AudioSettings)
    (past : List Moment)
    (m : Moment) : Stroke :=
  ⟨velocityOfPercent (loudnessAfter settings (past ++ [m])),
    m.voices.map fun v => v.note.toNat⟩

/- What moments behind others strike, in order. -/
def strokes
    (settings : AudioSettings)
    (past : List Moment) : List Moment → List Stroke
  | [] => []
  | m :: rest =>
      m.stroke settings past ::
        strokes settings (past ++ [m]) rest

/- What a score strikes, moment by moment. -/
def Score.strokes
    (settings : AudioSettings)
    (s : Score) : List Stroke :=
  LyricScore.strokes settings [] s.moments

------------------------------------------------------------
-- Players
------------------------------------------------------------

namespace Player

theorem actionChanges_tempos
    {p : Player}
    {as : List Action}
    (hTempos : ∀ a ∈ as, ∃ tempo, a = p.act (.tempo tempo)) :
    actionChanges as = [] := by
  rw [actionChanges, List.filterMap_eq_nil_iff]
  intro a hMember
  rcases hTempos a hMember with ⟨tempo, rfl⟩
  rfl

/- Releases stop their notes, in order. -/
theorem actionChanges_releases
    (p : Player)
    (released : List Int) :
    actionChanges
        (released.map fun note => p.act (.release note)) =
      (released.map Int.toNat).map .stop := by
  simp [actionChanges, List.filterMap_map,
    Function.comp_def, act, Act.noteChange?]

/-
  Strikes start their notes, or stop
  them if they are silent.
-/
theorem actionChanges_strikes
    (p : Player)
    (velocity : Int)
    (voices : List Voice) :
    actionChanges
        (voices.map fun v => p.act (.strike v velocity)) =
      (voices.map fun v => v.note.toNat).map
        (if 0 < velocity then .start else .stop) := by
  by_cases hVelocity : 0 < velocity <;>
    simp [actionChanges, List.filterMap_map,
      Function.comp_def, act, Act.noteChange?, hVelocity]

/-
  An attack stops what the player lists, and starts the
  notes of its voices.
-/
theorem actionChanges_attack
    {p q : Player}
    {a : Attack}
    {done : List Action}
    (hAttack : p.attack a = .ok (done, q)) :
    actionChanges done =
      (p.sounding.map Int.toNat).map .stop ++
        (a.voices.map fun v => v.note.toNat).map
          (if 0 < velocityOfPercent
              (velocityAfter p.velocity
                a.delivery.handed) then
            .start
          else .stop) := by
  rcases attack_eq_ok hAttack with ⟨rfl, -⟩
  have hPrograms (numbers : List Int) :
      actionChanges
          (numbers.map fun n => p.act (.program n)) =
        [] := by
    simp [actionChanges, List.filterMap_map, act,
      Act.noteChange?]
  rw [actionChanges_append, actionChanges_append, hPrograms,
    actionChanges_releases, actionChanges_strikes,
    List.nil_append]

end Player

/- Whatever a stroke strikes can be heard. -/
def Stroke.IsHeard
    (s : Stroke) : Prop :=
  s.notes ≠ [] → 0 < s.velocity

instance
    (s : Stroke) :
    Decidable s.IsHeard := by
  unfold Stroke.IsHeard
  infer_instance

/- Whatever is held behind moments can be heard. -/
def HoldsHeard
    (settings : AudioSettings)
    (past : List Moment) : Prop :=
  heldVoices past ≠ [] →
    0 <
      velocityOfPercent
        (loudnessAfter settings (throughDecisive past))

/- If every stroke is heard, what is held is heard. -/
theorem holdsHeard_concat
    {settings : AudioSettings}
    {past : List Moment}
    {m : Moment}
    (hHeard : HoldsHeard settings past)
    (hStroke : (m.stroke settings past).IsHeard) :
    HoldsHeard settings (past ++ [m]) := by
  unfold HoldsHeard
  by_cases hDecides : m.Decides
  · rw [heldVoices_concat_of_decides hDecides,
      throughDecisive_concat_of_decides hDecides]
    intro hVoices
    exact hStroke (by simpa [Moment.stroke] using hVoices)
  · rw [heldVoices_concat_of_not_decides hDecides,
      throughDecisive_concat_of_not_decides hDecides]
    exact hHeard

/- No note is there twice among those that sound. -/
theorem nodup_soundingAfter
    {sounding : List Int}
    (hNodup : sounding.Nodup)
    (voices : List Voice) :
    (soundingAfter sounding voices).Nodup := by
  induction voices generalizing sounding with
  | nil =>
      exact hNodup
  | cons v voices ih =>
      apply ih
      show (if v.note ∈ sounding then
          sounding
        else sounding ++ [v.note]).Nodup
      by_cases hOld : v.note ∈ sounding
      · rw [if_pos hOld]
        exact hNodup
      · rw [if_neg hOld]
        simp only [List.nodup_append, List.mem_singleton,
          forall_eq]
        refine ⟨hNodup, List.nodup_singleton _, ?_⟩
        rintro n hMember rfl
        exact hOld hMember

namespace Player.Holds

variable {settings : AudioSettings}
variable {past : List Moment}
variable {p q : Player}
variable {notes : Finset Nat}
variable {ticksPerQuarter : Int}

/- When all that a player lists stops, nothing sounds. -/
theorem stopped
    (hHolds : p.Holds settings past notes) :
    soundingBehind notes
        ((p.sounding.map Int.toNat).map .stop) =
      ∅ := by
  rw [← actionChanges_releases p, ← replayActions_eq]
  exact hHolds.released p

/- The loudness of an attack is that of its stroke. -/
theorem velocity_stroke
    (hHolds : p.Holds settings past notes)
    {part : Part}
    (hIsAttack : part.slot.subdivision.IsAttack) :
    (Moment.stroke settings past (.part part)).velocity =
      velocityOfPercent
        (velocityAfter p.velocity
          part.slot.content.delivery.handed) := by
  rw [Moment.stroke, loudnessAfter_concat, hHolds.loudness]
  simp [Moment.handed, hIsAttack]

/-
  What starts while it sounds at a moment is
  what its stroke repeats.
-/
theorem restarts_moment
    (hHolds : p.Holds settings past notes)
    {m : Moment}
    {done : List Action}
    (hMoment : p.moment ticksPerQuarter m = .ok (done, q)) :
    restarts notes (actionChanges done) =
      (m.stroke settings past).repeated := by
  have hSilent (hVoices : m.voices = []) :
      (m.stroke settings past).repeated = [] := by
    simp [Moment.stroke, Stroke.repeated, hVoices, repeats]
  cases m with
  | directive d =>
      simp only [Player.moment, Except.ok.injEq] at hMoment
      rw [actionChanges_tempos
          (frame_followLyrics hMoment).2, hSilent rfl,
        restarts]
  | barline measure =>
      simp only [Player.moment, Except.ok.injEq,
        Prod.mk.injEq] at hMoment
      rcases hMoment with ⟨rfl, -⟩
      rw [hSilent rfl]
      rfl
  | part part =>
      simp only [Player.moment, Outcome.bind_eq_ok,
        Outcome.pure_eq, Except.ok.injEq,
        Prod.mk.injEq] at hMoment
      rcases hMoment with
        ⟨ticks, -, ⟨sounded, r⟩, hSound, rfl, -⟩
      rcases sound_eq_ok hSound with
        ⟨hIsAttack, hAttack⟩ | ⟨hNoAttack, -, rfl, -⟩ |
          ⟨hHyphen, rfl, -⟩
      · have hNotes :
            (Moment.stroke settings past
                (.part part)).notes =
              part.slot.content.voices.map fun v =>
                v.note.toNat := by
          simp [Moment.stroke, Moment.voices, hIsAttack]
        rw [actionChanges_attack hAttack, restarts_append,
          restarts_stops, List.nil_append, hHolds.stopped,
          Stroke.repeated, hHolds.velocity_stroke hIsAttack,
          hNotes]
        split
        · exact restarts_starts [] _
        · exact restarts_stops ∅ _
      · rw [actionChanges_releases, restarts_stops,
          hSilent (by simp [Moment.voices, hNoAttack])]
      · rw [hSilent
          (by
            simp [Moment.voices, Subdivision.IsAttack,
              hHyphen])]
        rfl

/-
  Along a run the notes that start again are those that one
  stroke has twice.
-/
theorem restarts_moments
    (hHolds : p.Holds settings past notes)
    {ms : List Moment}
    {done : List (Moment × List Action)}
    (hRun : p.moments ticksPerQuarter ms = .ok (done, q)) :
    restarts notes (actionChanges (done.flatMap Prod.snd)) =
      (strokes settings past ms).flatMap Stroke.repeated := by
  induction ms generalizing p past notes done with
  | nil =>
      rcases moments_nil_eq_ok hRun with ⟨rfl, -⟩
      rfl
  | cons m ms ih =>
      rcases moments_cons_eq_ok hRun with
        ⟨first, r, more, hFirst, hMore, rfl⟩
      have hRest := ih (hHolds.moment hFirst) hMore
      rw [replayActions_eq] at hRest
      rw [List.flatMap_cons, actionChanges_append,
        restarts_append, hHolds.restarts_moment hFirst,
        hRest, strokes, List.flatMap_cons]

/- What a player lists are the notes of what is held. -/
theorem exists_voice_of_mem_sounding
    (hHolds : p.Holds settings past notes)
    {note : Int}
    (hListed : note ∈ p.sounding) :
    ∃ v ∈ heldVoices past, v.note = note := by
  rw [hHolds.sounding, mem_soundingAfter] at hListed
  simpa using hListed

/-
  Notes are not negative, so no two that are
  listed have one number.
-/
theorem nodup_listed
    (hHolds : p.Holds settings past notes) :
    (p.sounding.map Int.toNat).Nodup := by
  have hNote : ∀ note ∈ p.sounding, 0 ≤ note := by
    intro note hListed
    rcases hHolds.exists_voice_of_mem_sounding hListed with
      ⟨v, -, rfl⟩
    exact (clamp_mem (by omega) v.midiNumber).1
  apply List.Nodup.map_on
  · intro note hListed other hOther hSame
    have hFirst := hNote note hListed
    have hSecond := hNote other hOther
    omega
  · rw [hHolds.sounding]
    exact nodup_soundingAfter List.nodup_nil _

/-
  What a player lists does not stop in vain, if what is held
  can be heard.
-/
theorem idleStops_listed
    (hHolds : p.Holds settings past notes)
    (hHeard : HoldsHeard settings past) :
    idleStops notes ((p.sounding.map Int.toNat).map .stop) =
      [] := by
  apply idleStops_stops hHolds.nodup_listed
  rw [List.forall_mem_map]
  intro note hListed
  rcases hHolds.exists_voice_of_mem_sounding hListed with
    ⟨v, hVoice, rfl⟩
  rw [hHolds.held, heldNotes,
    if_pos (hHeard (List.ne_nil_of_mem hVoice)),
    List.mem_toFinset]
  exact List.mem_map.mpr ⟨v, hVoice, rfl⟩

/-
  If all strokes are heard, a moment stops no
  note that does not sound.
-/
theorem idleStops_moment
    (hHolds : p.Holds settings past notes)
    (hHeard : HoldsHeard settings past)
    {m : Moment}
    (hStroke : (m.stroke settings past).IsHeard)
    {done : List Action}
    (hMoment : p.moment ticksPerQuarter m = .ok (done, q)) :
    idleStops notes (actionChanges done) = [] := by
  cases m with
  | directive d =>
      simp only [Player.moment, Except.ok.injEq] at hMoment
      rw [actionChanges_tempos
          (frame_followLyrics hMoment).2, idleStops]
  | barline measure =>
      simp only [Player.moment, Except.ok.injEq,
        Prod.mk.injEq] at hMoment
      rcases hMoment with ⟨rfl, -⟩
      rfl
  | part part =>
      simp only [Player.moment, Outcome.bind_eq_ok,
        Outcome.pure_eq, Except.ok.injEq,
        Prod.mk.injEq] at hMoment
      rcases hMoment with
        ⟨ticks, -, ⟨sounded, r⟩, hSound, rfl, -⟩
      rcases sound_eq_ok hSound with
        ⟨hIsAttack, hAttack⟩ | ⟨hNoAttack, -, rfl, -⟩ |
          ⟨hHyphen, rfl, -⟩
      · rw [actionChanges_attack hAttack, idleStops_append,
          hHolds.idleStops_listed hHeard, List.nil_append,
          hHolds.stopped,
          ← hHolds.velocity_stroke hIsAttack]
        by_cases hSilent :
            0 <
              (Moment.stroke settings past
                (Moment.part part)).velocity
        · rw [if_pos hSilent]
          exact idleStops_starts ∅ _
        · rw [if_neg hSilent]
          have hNone := not_imp_comm.mp hStroke hSilent
          simp only [Moment.stroke, Moment.voices,
            if_pos hIsAttack] at hNone
          rw [hNone]
          rfl
      · rw [actionChanges_releases]
        exact hHolds.idleStops_listed hHeard
      · rfl

/-
  If all that is struck can be heard, no note stops in vain,
  and what is held can be heard.
-/
theorem idleStops_moments
    (hHolds : p.Holds settings past notes)
    (hHeard : HoldsHeard settings past)
    {ms : List Moment}
    (hStrokes : ∀ x ∈ strokes settings past ms, x.IsHeard)
    {done : List (Moment × List Action)}
    (hRun : p.moments ticksPerQuarter ms = .ok (done, q)) :
    idleStops notes
          (actionChanges (done.flatMap Prod.snd)) =
        [] ∧
      HoldsHeard settings (past ++ ms) := by
  induction ms generalizing p past notes done with
  | nil =>
      rcases moments_nil_eq_ok hRun with ⟨rfl, -⟩
      rw [List.append_nil]
      exact ⟨rfl, hHeard⟩
  | cons m ms ih =>
      rcases moments_cons_eq_ok hRun with
        ⟨first, r, more, hFirst, hMore, rfl⟩
      rw [strokes, List.forall_mem_cons] at hStrokes
      rcases ih (hHolds.moment hFirst)
          (holdsHeard_concat hHeard hStrokes.1) hStrokes.2
          hMore with
        ⟨hIdle, hLast⟩
      rw [replayActions_eq] at hIdle
      rw [List.flatMap_cons, actionChanges_append,
        idleStops_append,
        hHolds.idleStops_moment hHeard hStrokes.1 hFirst,
        hIdle, List.append_cons]
      exact ⟨rfl, hLast⟩

end Player.Holds

------------------------------------------------------------
-- Performances
------------------------------------------------------------

namespace Performance

variable {settings : AudioSettings}
variable {s : Score}
variable {perf : Performance}
variable {done : List (Moment × List Action)}
variable {last : Player}

/-
  The starts and stops of a performance are those at its
  moments, and the last stops.
-/
theorem Renders.noteChanges_events
    (hRenders : perf.Renders settings s done last) :
    noteChanges perf.events =
      actionChanges (done.flatMap Prod.snd) ++
        (last.sounding.map Int.toNat).map .stop := by
  rcases hRenders.schedule with ⟨t, hSchedule⟩
  have hOpening :
      actionChanges (Player.opening settings) = [] :=
    rfl
  have hClosing :
      actionChanges last.silence.1 =
        (last.sounding.map Int.toNat).map .stop :=
    Player.actionChanges_releases last last.sounding
  rw [events, Schedule.noteChanges_emissions hSchedule,
    actionChanges_append, actionChanges_append, hOpening,
    hClosing, List.nil_append]

/-
  In a performance the notes that start again are those that
  one stroke has twice.
-/
theorem Renders.restarts_events
    (hRenders : perf.Renders settings s done last) :
    restarts ∅ (noteChanges perf.events) =
      (s.strokes settings).flatMap Stroke.repeated := by
  have hStart := Player.holds_start settings
  rw [hRenders.noteChanges_events, restarts_append,
    restarts_stops, List.append_nil]
  exact hStart.restarts_moments hRenders.run

/-
  If all strokes are heard, no note is
  stopped that does not sound.
-/
theorem Renders.idleStops_events
    (hRenders : perf.Renders settings s done last)
    (hHeard : ∀ x ∈ s.strokes settings, x.IsHeard) :
    idleStops ∅ (noteChanges perf.events) = [] := by
  have hStart := Player.holds_start settings
  rcases hStart.idleStops_moments
    (fun hNone => absurd rfl hNone) hHeard hRenders.run with
    ⟨hIdle, hLast⟩
  have hEnd :=
    (hStart.moments hRenders.run).idleStops_listed hLast
  rw [replayActions_eq] at hEnd
  rw [hRenders.noteChanges_events, idleStops_append]
  exact List.append_eq_nil_iff.mpr ⟨hIdle, hEnd⟩

/- Behind the last event no note sounds. -/
theorem Renders.soundingBehind_events
    (hRenders : perf.Renders settings s done last) :
    soundingBehind ∅ (noteChanges perf.events) = ∅ := by
  have hLast :=
    ((Player.holds_start settings).moments
      hRenders.run).stopped
  rw [replayActions_eq] at hLast
  rw [hRenders.noteChanges_events, soundingBehind_append]
  exact hLast

end Performance

/-
  A stroke repeats nothing just if it is silent or all its
  notes are apart.
-/
theorem Stroke.repeated_eq_nil_iff
    {x : Stroke} :
    x.repeated = [] ↔ (0 < x.velocity → x.notes.Nodup) := by
  unfold Stroke.repeated
  split <;> simp [repeats_eq_nil_iff, *]

/-
  One stop for each start, but for notes that the voices of
  one attack share.  The notes that start while they sound are
  the repeated notes of audible attacks, attack by attack.  So
  between any two starts of a note it stops if and only if no
  audible attack strikes a note twice.  If all that is struck
  can be heard, the notes that start are those that stop and
  these repeated ones; they are as many of each if and only if
  no attack strikes a note twice.
-/
theorem Score.notes_restart_only_within_attacks
    {settings : AudioSettings}
    {s : Score}
    {events : List MidiEvent}
    (hEvents : s.events settings = .ok events) :
    let changes := noteChanges events
    let repeated := (s.strokes settings).flatMap Stroke.repeated
    restarts ∅ changes = repeated ∧
      (StopsBetween changes ↔
        ∀ x ∈ s.strokes settings,
          0 < x.velocity → x.notes.Nodup) ∧
      ((∀ x ∈ s.strokes settings, x.IsHeard) →
        (startedNotes changes).Perm
            (stoppedNotes changes ++ repeated) ∧
          ((startedNotes changes).Perm
              (stoppedNotes changes) ↔
            ∀ x ∈ s.strokes settings, x.notes.Nodup)) := by
  intro changes repeated
  rcases Score.performance_of_events hEvents with
    ⟨perf, hPerformance, rfl⟩
  rcases Score.performance_eq_ok hPerformance with
    ⟨done, last, hRenders⟩
  have hRestarts : restarts ∅ changes = repeated :=
    hRenders.restarts_events
  have hNone :
      repeated = [] ↔
        ∀ x ∈ s.strokes settings,
          0 < x.velocity → x.notes.Nodup := by
    simp only [repeated, List.flatMap_eq_nil_iff,
      Stroke.repeated_eq_nil_iff]
  refine ⟨hRestarts, ?_, ?_⟩
  · rw [stopsBetween_iff, hRestarts, hNone]
  · intro hHeard
    have hBalance :
        (startedNotes changes).Perm
          (stoppedNotes changes ++ repeated) := by
      rw [List.perm_iff_count]
      intro n
      have hCount := count_restarts ∅ changes n
      rw [hRenders.idleStops_events hHeard,
        hRenders.soundingBehind_events, hRestarts] at hCount
      simpa using hCount
    have hAudible :
        (∀ x ∈ s.strokes settings,
            0 < x.velocity → x.notes.Nodup) ↔
          ∀ x ∈ s.strokes settings, x.notes.Nodup := by
      apply forall₂_congr
      intro x hStroke
      by_cases hEmpty : x.notes = []
      · simp [hEmpty]
      · simp [hHeard x hStroke hEmpty]
    refine ⟨hBalance, ?_⟩
    rw [← hAudible, ← hNone]
    constructor
    · intro hSame
      have hLengths :=
        hSame.length_eq.symm.trans hBalance.length_eq
      rw [List.length_append] at hLengths
      exact List.eq_nil_of_length_eq_zero (by omega)
    · intro hEmpty
      simpa [hEmpty] using hBalance

/-
  A chord whose second c is lowered onto its first, a chord
  that holds c once more, and a c that is played without force.
-/
def Score.stumbling : Score where
  blocks := [
    { lyricLines := [
        { measures := [
            { beats := [
                { elements := [
                    .subdivision ⟨.syllable, "la", {}⟩,
                    .subdivision ⟨.syllable, "lu", {}⟩] },
                { elements := [
                    .subdivision ⟨.syllable, "o", {}⟩] }]
              barline := true }] }]
      pitchLines := [
        { measures := [
            { elements := [
                .chord {
                  pitches := [
                    { letter := .c },
                    { letter := .c, shift := -1 }] },
                .chord {
                  pitches := [
                    { letter := .c },
                    { letter := .e },
                    { letter := .g }] },
                .directive ⟨.volume 0, {}⟩,
                .pitch { letter := .c, shift := -1 }]
              barline := true }] }] }]

/-
  Its first chord lets a note start again,
  with no stop between.
-/
theorem Score.stumbling_restarts :
    ∃ events,
      stumbling.events {} = .ok events ∧
        stumbling.strokes {} =
          [⟨88, [60, 60]⟩, ⟨88, [60, 64, 67]⟩, ⟨0, [60]⟩,
            ⟨0, []⟩] ∧
        restarts ∅ (noteChanges events) = [60] ∧
        ¬ StopsBetween (noteChanges events) := by
  have hOk : (stumbling.events {}).isOk = true := by
    decide +kernel
  rcases Outcome.exists_eq_ok hOk with ⟨events, hEvents⟩
  rcases Score.notes_restart_only_within_attacks
      hEvents with
    ⟨hRestarts, hBetween, -⟩
  have hStrokes :
      stumbling.strokes {} =
        [⟨88, [60, 60]⟩, ⟨88, [60, 64, 67]⟩, ⟨0, [60]⟩,
          ⟨0, []⟩] := by
    decide +kernel
  rw [hStrokes] at hRestarts hBetween
  refine ⟨events, hEvents, hStrokes, hRestarts, ?_⟩
  rw [hBetween]
  decide

end LyricScore
