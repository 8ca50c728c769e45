import LyricScore.Proofs.Drawing.Success
import LyricScore.Proofs.Midi.RoundTrip
import LyricScore.Proofs.Performance.MomentClock
import LyricScore.Proofs.Resolution
import LyricScore.Proofs.Timing.Rounding
import LyricScore.Proofs.Timing.Tempo

/-
  This file tells when a score can be played.  Whatever its
  directives ask for, every number of its events is in range
  and no event comes before the one before it; what remains
  are numbers that are too long to be read or written.

  Key definitions include:
    * `Moment.IsPlayable`
    * `Act.IsValid`
    * `Player.Ready`

  Key theorems include:
    * `Player.exists_moments_iff`
    * `Player.ready_moments`
    * `Schedule.exists_actions`
    * `Score.playable_iff`
    * `Score.exists_events_iff`
-/

namespace LyricScore

------------------------------------------------------------
-- What a player needs
------------------------------------------------------------

/- A moment whose numbers can be read and written. -/
def Moment.IsPlayable
    (m : Moment) : Prop :=
  (∀ part ∈ m.part?, part.beat.IsMeasurable) ∧
    ∀ v ∈ m.voices, v.IsNamed

namespace Player

variable {ticksPerQuarter : Int}

/- Voices are struck just if all of them have a name. -/
theorem exists_strikeAll_iff
    (p : Player)
    {voices : List Voice} :
    (∃ r, p.strikeAll voices = .ok r) ↔
      ∀ v ∈ voices, v.IsNamed := by
  induction voices generalizing p with
  | nil =>
      simp [strikeAll]
  | cons v voices ih =>
      have hStrike : (∃ r, p.strike v = .ok r) ↔ v.IsNamed := by
        unfold strike Voice.IsNamed
        split <;> simp [*]
      rw [strikeAll, List.forall_mem_cons]
      apply Outcome.exists_bind_iff hStrike
      intro first _
      exact Iff.trans
        (Outcome.exists_bind_of_total fun _ => ⟨_, rfl⟩)
        (ih _)

/-
  A slot sounds just if the voices that it
  attacks have a name.
-/
theorem exists_sound_iff
    (p : Player)
    {s : Slot Attack} :
    (∃ r, p.sound s = .ok r) ↔
      (s.subdivision.IsAttack →
        ∀ v ∈ s.content.voices, v.IsNamed) := by
  unfold sound
  by_cases hAttack : s.subdivision.IsAttack
  · simp only [hAttack, if_true, true_implies, attack]
    exact Iff.trans
      (Outcome.exists_bind_of_total fun _ => ⟨_, rfl⟩)
      (exists_strikeAll_iff _)
  · by_cases hSilence : s.subdivision.IsSilence <;>
      simp [hAttack, hSilence]

/-
  A moment is played if its numbers allow
  it, whatever came before.
-/
theorem exists_moment_iff
    (p : Player)
    {m : Moment} :
    (∃ r, p.moment ticksPerQuarter m = .ok r) ↔
      m.IsPlayable := by
  cases m with
  | directive d =>
      simp [moment, Moment.IsPlayable, Moment.part?,
        Moment.voices]
  | barline measure =>
      simp [moment, Moment.IsPlayable, Moment.part?,
        Moment.voices]
  | part part =>
      have hVoices :
          (∀ v ∈ (Moment.part part).voices, v.IsNamed) ↔
            (part.slot.subdivision.IsAttack →
              ∀ v ∈ part.slot.content.voices, v.IsNamed) := by
        by_cases hAttack : part.slot.subdivision.IsAttack <;>
          simp [Moment.voices, hAttack]
      have hPart :
          (∀ other ∈ (Moment.part part).part?,
            other.beat.IsMeasurable) ↔
            part.beat.IsMeasurable := by
        simp [Moment.part?]
      rw [Moment.IsPlayable, hVoices, hPart, moment]
      apply Outcome.exists_bind_iff (Beat.exists_ticks_iff _ _)
      intro ticks _
      exact Iff.trans
        (Outcome.exists_bind_of_total fun _ => ⟨_, rfl⟩)
        (exists_sound_iff p)

/- Moments are played just if all of them can be. -/
theorem exists_moments_iff
    (p : Player)
    (ticksPerQuarter : Int)
    {ms : List Moment} :
    (∃ r, p.moments ticksPerQuarter ms = .ok r) ↔
      ∀ m ∈ ms, m.IsPlayable := by
  induction ms generalizing p with
  | nil =>
      simp [moments]
  | cons m ms ih =>
      rw [moments, List.forall_mem_cons]
      apply Outcome.exists_bind_iff (exists_moment_iff p)
      intro first _
      exact Iff.trans
        (Outcome.exists_bind_of_total fun _ => ⟨_, rfl⟩)
        (ih _)

end Player

------------------------------------------------------------
-- Valid acts
------------------------------------------------------------

/- What is clamped is in the range. -/
theorem clamp_mem
    {least greatest : Int}
    (hRange : least ≤ greatest)
    (n : Int) :
    least ≤ clamp least greatest n ∧
      clamp least greatest n ≤ greatest := by
  unfold clamp
  split
  · omega
  · split <;> omega

/- A velocity is in its range. -/
theorem velocityOfPercent_mem
    (level : Int) :
    0 ≤ velocityOfPercent level ∧
      velocityOfPercent level ≤ 127 := by
  have hLevel := clamp_mem (by omega : (0 : Int) ≤ 100) level
  unfold velocityOfPercent
  omega

/- An act whose numbers an event can hold. -/
def Act.IsValid : Act → Prop
  | .tempo microseconds =>
      0 ≤ microseconds ∧ microseconds ≤ maxTempo
  | .program number => 0 ≤ number ∧ number ≤ 127
  | .strike _ velocity => 0 ≤ velocity ∧ velocity ≤ 127
  | .release note => 0 ≤ note ∧ note ≤ 127

namespace Player

/-
  A player whose tempo and sounding notes an event can hold.
-/
structure Ready
    (p : Player) : Prop where
  tempo : 0 ≤ p.tempo ∧ p.tempo ≤ maxTempo
  sounding : ∀ note ∈ p.sounding, 0 ≤ note ∧ note ≤ 127

variable {ticksPerQuarter : Int}
variable {p q : Player}

/- A player is ready at the start. -/
theorem ready_start
    (settings : AudioSettings) :
    (Player.start settings).Ready :=
  ⟨microsecondsPerQuarter_mem _ _, nofun⟩

/-
  A player stays ready if it sets its tempo,
  and the tempo is valid.
-/
theorem ready_updateTempo
    (hReady : p.Ready) :
    p.updateTempo.2.Ready ∧
      ∀ a ∈ p.updateTempo.1, a.act.IsValid := by
  have hTempo := microsecondsPerQuarter_mem p.bpm p.unit
  unfold updateTempo
  simp only
  split
  · exact ⟨hReady, List.forall_mem_nil _⟩
  · refine ⟨⟨hTempo, hReady.sounding⟩, ?_⟩
    intro a hAction
    rw [List.mem_singleton.mp hAction]
    exact hTempo

/- A player stays ready if it follows a lyric directive. -/
theorem ready_followLyrics
    (hReady : p.Ready)
    (d : Directive) :
    (p.followLyrics d).2.Ready ∧
      ∀ a ∈ (p.followLyrics d).1, a.act.IsValid := by
  unfold followLyrics
  split
  · exact ready_updateTempo ⟨hReady.tempo, hReady.sounding⟩
  · exact ready_updateTempo ⟨hReady.tempo, hReady.sounding⟩
  · exact ⟨hReady, List.forall_mem_nil _⟩

/- What a ready player releases is valid. -/
theorem valid_release
    (hReady : p.Ready)
    {a : Action}
    (hAction :
      a ∈
        p.sounding.map fun note => p.act (.release note)) :
    a.act.IsValid := by
  rcases List.mem_map.mp hAction with ⟨note, hNote, rfl⟩
  exact hReady.sounding note hNote

/-
  A slot is played with numbers in range, and leaves such
  notes sounding.
-/
theorem ready_sound
    (hReady : p.Ready)
    {s : Slot Attack}
    {done : List Action}
    (hSound : p.sound s = .ok (done, q)) :
    q.Ready ∧ ∀ a ∈ done, a.act.IsValid := by
  rcases sound_eq_ok hSound with
    ⟨-, hAttack⟩ | ⟨-, -, rfl, rfl⟩ | ⟨-, rfl, rfl⟩
  · rcases attack_eq_ok hAttack with ⟨rfl, rfl⟩
    constructor
    · refine ⟨hReady.tempo, ?_⟩
      intro note hNote
      rcases mem_soundingAfter.mp hNote with hOld | ⟨v, -, rfl⟩
      · cases hOld
      · exact clamp_mem (by omega) v.midiNumber
    · intro a hAction
      simp only [List.mem_append] at hAction
      rcases hAction with (hProgram | hRelease) | hStrike
      · rcases List.mem_map.mp hProgram with ⟨n, hNumber, rfl⟩
        rcases List.mem_filterMap.mp hNumber with ⟨d, -, hAsked⟩
        unfold Directive.program? at hAsked
        split at hAsked
        · cases hAsked
          exact clamp_mem (by omega) _
        · cases hAsked
      · exact valid_release hReady hRelease
      · rcases List.mem_map.mp hStrike with ⟨v, -, rfl⟩
        exact velocityOfPercent_mem _
  · exact ⟨⟨hReady.tempo, nofun⟩,
      fun a hAction => valid_release hReady hAction⟩
  · exact ⟨hReady, List.forall_mem_nil _⟩

/-
  A player stays ready in a moment, and
  does only what is valid.
-/
theorem ready_moment
    (hReady : p.Ready)
    {m : Moment}
    {done : List Action}
    (hMoment : p.moment ticksPerQuarter m = .ok (done, q)) :
    q.Ready ∧ ∀ a ∈ done, a.act.IsValid := by
  cases m with
  | directive d =>
      have hStep := ready_followLyrics hReady d
      simp only [moment, Except.ok.injEq] at hMoment
      rw [hMoment] at hStep
      exact hStep
  | barline measure =>
      simp only [moment, Except.ok.injEq,
        Prod.mk.injEq] at hMoment
      rcases hMoment with ⟨rfl, rfl⟩
      exact ⟨hReady, List.forall_mem_nil _⟩
  | part part =>
      simp only [moment, Outcome.bind_eq_ok,
        Outcome.pure_eq, Except.ok.injEq,
        Prod.mk.injEq] at hMoment
      rcases hMoment with
        ⟨ticks, -, ⟨sounded, r⟩, hSound, rfl, rfl⟩
      rcases ready_sound hReady hSound with ⟨hAfter, hValid⟩
      exact ⟨⟨hAfter.tempo, hAfter.sounding⟩, hValid⟩

/-
  A player stays ready along a run, and
  does only what is valid.
-/
theorem ready_moments
    (hReady : p.Ready)
    {ms : List Moment}
    {done : List (Moment × List Action)}
    (hRun : p.moments ticksPerQuarter ms = .ok (done, q)) :
    q.Ready ∧ ∀ a ∈ done.flatMap Prod.snd, a.act.IsValid := by
  induction ms generalizing p done with
  | nil =>
      rcases moments_nil_eq_ok hRun with ⟨rfl, rfl⟩
      exact ⟨hReady, List.forall_mem_nil _⟩
  | cons m ms ih =>
      rcases moments_cons_eq_ok hRun with
        ⟨first, r, more, hFirst, hMore, rfl⟩
      rcases ready_moment hReady hFirst with ⟨hBetween, hValid⟩
      rcases ih hBetween hMore with ⟨hAfter, hLater⟩
      refine ⟨hAfter, ?_⟩
      intro a hAction
      rcases List.mem_append.mp hAction with hNow | hThen
      · exact hValid a hNow
      · exact hLater a hThen

end Player

------------------------------------------------------------
-- Actions in order
------------------------------------------------------------

/-
  Actions between two times, none before the one before it.
-/
structure InOrder
    (first last : Rat)
    (as : List Action) : Prop where
  within : ∀ a ∈ as, first ≤ a.time ∧ a.time ≤ last
  order : as.Pairwise fun a b => a.time ≤ b.time
  forward : first ≤ last

namespace InOrder

variable {first between last : Rat}
variable {as bs : List Action}

theorem append
    (hFirst : InOrder first between as)
    (hLater : InOrder between last bs) :
    InOrder first last (as ++ bs) where
  within := by
    intro a hAction
    rcases List.mem_append.mp hAction with hNow | hThen
    · have hTime := hFirst.within a hNow
      exact ⟨hTime.1, hTime.2.trans hLater.forward⟩
    · have hTime := hLater.within a hThen
      exact ⟨hFirst.forward.trans hTime.1, hTime.2⟩
  order := by
    rw [List.pairwise_append]
    refine ⟨hFirst.order, hLater.order, ?_⟩
    intro a hNow b hThen
    exact (hFirst.within a hNow).2.trans
      (hLater.within b hThen).1
  forward := hFirst.forward.trans hLater.forward

/- What happens at one time is in order. -/
theorem of_same_time
    (hTime : ∀ a ∈ as, a.time = first)
    (hForward : first ≤ last) :
    InOrder first last as where
  within := by
    intro a hAction
    rw [hTime a hAction]
    exact ⟨le_refl _, hForward⟩
  order := by
    rw [List.pairwise_iff_forall_sublist]
    intro a b hPair
    have hBoth := hPair.subset
    rw [hTime a (hBoth (by simp)), hTime b (hBoth (by simp))]
  forward := hForward

end InOrder

namespace Player

variable {ticksPerQuarter : Int}
variable {p q : Player}

/- The actions of a moment are in order. -/
theorem inOrder_moment
    (hTicks : 0 ≤ ticksPerQuarter)
    {m : Moment}
    {done : List Action}
    (hMoment : p.moment ticksPerQuarter m = .ok (done, q)) :
    InOrder p.now q.now done := by
  have hKeeps : p.Keeps ⟨p.unit, p.now⟩ := ⟨rfl, rfl⟩
  rcases hKeeps.moment hMoment with ⟨hAfter, hTime, -⟩
  have hForward :=
    BeatClock.now_le_pass hTicks ⟨p.unit, p.now⟩ m
  rw [← hAfter.now] at hForward
  exact .of_same_time hTime hForward

/- Time never goes back. -/
theorem inOrder_moments
    (hTicks : 0 ≤ ticksPerQuarter)
    {ms : List Moment}
    {done : List (Moment × List Action)}
    (hRun : p.moments ticksPerQuarter ms = .ok (done, q)) :
    InOrder p.now q.now (done.flatMap Prod.snd) := by
  induction ms generalizing p done with
  | nil =>
      rcases moments_nil_eq_ok hRun with ⟨rfl, rfl⟩
      exact .of_same_time (List.forall_mem_nil _) (le_refl _)
  | cons m ms ih =>
      rcases moments_cons_eq_ok hRun with
        ⟨first, r, more, hFirst, hMore, rfl⟩
      exact (inOrder_moment hTicks hFirst).append (ih hMore)

end Player

------------------------------------------------------------
-- Schedules
------------------------------------------------------------

namespace Schedule

variable {channel : Int}

/-
  What is left of a distance when it is
  filled fits one event.
-/
theorem filled_mem
    {distance : Int}
    (hDistance : 0 ≤ distance) :
    0 ≤ distance - fillerCount distance * Midi.maxQuantity ∧
      distance - fillerCount distance * Midi.maxQuantity ≤
        Midi.maxQuantity := by
  have hMax : (Midi.maxQuantity : Int) = 268435455 := rfl
  unfold fillerCount
  rw [hMax]
  omega

/- A tempo in range makes an event. -/
theorem exists_setTempo
    {delta tempo : Int}
    (hDelta : 0 ≤ delta ∧ delta ≤ Midi.maxQuantity)
    (hTempo : 0 ≤ tempo ∧ tempo ≤ maxTempo) :
    ∃ e, MidiEvent.setTempo delta tempo = .ok e := by
  have hNotNegative : ¬ tempo < 0 := by omega
  have hMax : maxTempo = 0xFFFFFF := rfl
  have hNotLong : ¬ tempo > 0xFFFFFF := by omega
  rw [MidiEvent.setTempo, if_neg hNotNegative, if_neg hNotLong]
  exact ⟨_,
    MidiEvent.make_eq_ok_iff.mpr
      ⟨⟨hDelta, by omega, nofun, nofun,
          fun _ => ⟨_, rfl, by decide⟩⟩, rfl⟩⟩

/- A valid act makes an event, if it is not too far away. -/
theorem exists_event
    {delta : Int}
    {act : Act}
    (hChannel : 0 ≤ channel ∧ channel ≤ 15)
    (hDelta : 0 ≤ delta ∧ delta ≤ Midi.maxQuantity)
    (hValid : act.IsValid) :
    ∃ e, event channel delta act = .ok e := by
  cases act with
  | tempo microseconds =>
      exact exists_setTempo hDelta hValid
  | program number =>
      refine ⟨_,
        MidiEvent.make_eq_ok_iff.mpr
          ⟨⟨hDelta, hChannel, ?_, nofun, nofun⟩, rfl⟩⟩
      rintro n ⟨⟩
      exact hValid
  | strike voice velocity =>
      refine ⟨_,
        MidiEvent.make_eq_ok_iff.mpr
          ⟨⟨hDelta, hChannel, ?_, ?_, nofun⟩, rfl⟩⟩
      · rintro n ⟨⟩
        exact clamp_mem (by omega) _
      · rintro n ⟨⟩
        exact hValid
  | release note =>
      refine ⟨_,
        MidiEvent.make_eq_ok_iff.mpr
          ⟨⟨hDelta, hChannel, ?_, ?_, nofun⟩, rfl⟩⟩
      · rintro n ⟨⟩
        exact hValid
      · rintro n ⟨⟩
        omega

/- If a step succeeds, so do its repetitions. -/
theorem exists_mapM_replicate
    {ε α : Type}
    {step : Except ε α}
    (hStep : ∃ a, step = .ok a)
    (n : Nat) :
    ∃ values,
      ((List.replicate n ()).mapM fun _ => step) =
        .ok values := by
  rcases hStep with ⟨a, rfl⟩
  induction n with
  | zero =>
      exact ⟨[], rfl⟩
  | succ n ih =>
      rcases ih with ⟨values, hValues⟩
      refine ⟨a :: values, ?_⟩
      rw [List.replicate_succ, List.mapM_cons, hValues]
      rfl

/- A valid action that does not lie back has its events. -/
theorem exists_action
    (hChannel : 0 ≤ channel ∧ channel ≤ 15)
    {s : Schedule}
    {a : Action}
    (hTempo : 0 ≤ s.tempo ∧ s.tempo ≤ maxTempo)
    (hValid : a.act.IsValid)
    (hTime : s.tick ≤ roundHalfEven a.time) :
    ∃ es,
      s.action channel a =
        .ok
          (es,
            ⟨roundHalfEven a.time,
              tempoAfter s.tempo a.act⟩) := by
  have hLeft :=
    filled_mem
      (by omega : 0 ≤ roundHalfEven a.time - s.tick)
  have hWhole :
      (0 : Int) ≤ Midi.maxQuantity ∧
        (Midi.maxQuantity : Int) ≤ Midi.maxQuantity := by
    decide
  rcases
    exists_mapM_replicate (exists_setTempo hWhole hTempo)
      (fillerCount (roundHalfEven a.time - s.tick))
    with ⟨fillers, hFillers⟩
  rcases exists_event hChannel hLeft hValid with ⟨own, hOwn⟩
  refine ⟨fillers ++ [own], ?_⟩
  simp only [action, hFillers, hOwn, Outcome.ok_bind]
  rfl

/- Valid actions in order have their events. -/
theorem exists_actions
    (hChannel : 0 ≤ channel ∧ channel ≤ 15)
    {s : Schedule}
    {as : List Action}
    (hTempo : 0 ≤ s.tempo ∧ s.tempo ≤ maxTempo)
    (hValid : ∀ a ∈ as, a.act.IsValid)
    (hOrder : as.Pairwise fun a b => a.time ≤ b.time)
    (hStart : ∀ a ∈ as, s.tick ≤ roundHalfEven a.time) :
    ∃ es, s.actions channel as = .ok es := by
  induction as generalizing s with
  | nil =>
      exact ⟨[], rfl⟩
  | cons a as ih =>
      have hFirst := hValid a List.mem_cons_self
      rcases exists_action hChannel hTempo hFirst
        (hStart a List.mem_cons_self) with
        ⟨es, hAction⟩
      rw [List.pairwise_cons] at hOrder
      have hTempoAfter :
          0 ≤ tempoAfter s.tempo a.act ∧
            tempoAfter s.tempo a.act ≤ maxTempo := by
        cases hAct : a.act with
        | tempo microseconds =>
            rw [hAct] at hFirst
            exact hFirst
        | _ =>
            exact hTempo
      rcases ih
          (s :=
            ⟨roundHalfEven a.time,
              tempoAfter s.tempo a.act⟩) hTempoAfter
          (fun b hMember =>
            hValid b (List.mem_cons_of_mem a hMember))
          hOrder.2 (fun b hMember =>
            roundHalfEven_mono (hOrder.1 b hMember)) with
        ⟨more, hMore⟩
      refine ⟨es ++ more, ?_⟩
      simp only [actions, hAction, Outcome.ok_bind, hMore]
      rfl

/- An event of an act is one of the built ones. -/
theorem built_event
    {delta : Int}
    {act : Act}
    {e : MidiEvent}
    (hEvent : event channel delta act = .ok e) :
    e.Built := by
  cases act with
  | tempo microseconds =>
      exact .setTempo _ _ hEvent
  | program number =>
      exact .programChange _ _ _ hEvent
  | strike voice velocity =>
      exact .noteOn _ _ _ _ hEvent
  | release note =>
      exact .noteOn _ _ _ _ hEvent

/-
  Every event of emissions is the event of an act; fillers
  set the tempo once more.
-/
theorem exists_event_of_mem_emissions
    {s t : Schedule}
    {as : List Action}
    {es : List Emission}
    (hEmissions : s.emissions channel as = .ok (es, t))
    {e : MidiEvent}
    (hMember : e ∈ es.flatMap Emission.events) :
    ∃ delta act, event channel delta act = .ok e := by
  rcases List.mem_flatMap.mp hMember with
    ⟨emission, hEmission, hEvent⟩
  rcases exists_emission_of_mem hEmissions hEmission with
    ⟨u, v, hOne⟩
  rcases emission_eq_ok hOne with ⟨-, -, hFillers, hOwn, -⟩
  rcases List.mem_append.mp hEvent with hFiller | hLast
  · exact ⟨Midi.maxQuantity, .tempo u.tempo, hFillers e hFiller⟩
  · rw [List.mem_singleton.mp hLast]
    exact ⟨_, _, hOwn⟩

end Schedule

------------------------------------------------------------
-- Scores
------------------------------------------------------------

namespace Score

/-
  The voices at the moments of a score are those of its
  blocks, in order.
-/
theorem voices_moments
    (s : Score) :
    s.moments.flatMap Moment.voices =
      s.blocks.flatMap Block.resolvedVoices := by
  have hBlocks (index : Nat) (bs : List Block) :
      (blockMoments index bs).flatMap Moment.voices =
        bs.flatMap Block.resolvedVoices := by
    induction bs generalizing index with
    | nil =>
        rfl
    | cons b bs ih =>
        rw [blockMoments, List.flatMap_append,
          b.voices_moments, ih, List.flatMap_cons]
  exact hBlocks 0 s.blocks

/- The beats that a player measures are the rendered ones. -/
theorem measurable_parts_iff
    (s : Score)
    (unit : String) :
    (∀ m ∈ s.moments, ∀ part ∈ m.part?,
        part.beat.IsMeasurable) ↔
      ∀ t ∈ s.timedBeats unit, t.beat.IsMeasurable := by
  have hPlaces := s.places_moments unit
  constructor
  · intro hParts t hTimed
    rcases List.exists_mem_of_ne_nil _
        (rendered_of_mem_timedBlocks hTimed) with
      ⟨sub, hSub⟩
    rcases List.mem_iff_getElem?.mp hSub with ⟨index, hIndex⟩
    have hPlace :
        (t.key, t.beat, index, sub) ∈
          s.moments.filterMap Moment.place? := by
      rw [hPlaces]
      exact List.mem_flatMap.mpr
        ⟨t, hTimed,
          List.mem_map.mpr
            ⟨(sub, index),
              List.mk_mem_zipIdx_iff_getElem?.mpr hIndex,
              rfl⟩⟩
    rcases List.mem_filterMap.mp hPlace with ⟨m, hMoment, hHere⟩
    rcases Option.map_eq_some_iff.mp hHere with
      ⟨part, hPart, hSame⟩
    have hBeat : part.beat = t.beat :=
      congrArg (fun place => place.2.1) hSame
    rw [← hBeat]
    exact hParts m hMoment part hPart
  · intro hTimed m hMoment part hPart
    have hPlace :
        part.place ∈ s.moments.filterMap Moment.place? :=
      List.mem_filterMap.mpr
        ⟨m, hMoment,
          Option.map_eq_some_iff.mpr ⟨part, hPart, rfl⟩⟩
    rw [hPlaces] at hPlace
    rcases List.mem_flatMap.mp hPlace with ⟨t, hMember, hHere⟩
    rcases List.mem_map.mp hHere with ⟨_, -, hSame⟩
    have hBeat : t.beat = part.beat :=
      congrArg (fun place => place.2.1) hSame
    rw [← hBeat]
    exact hTimed t hMember

/-
  The moments of a score are playable if its rendered beats
  and its voices are.
-/
theorem playable_iff
    (s : Score) :
    (∀ m ∈ s.moments, m.IsPlayable) ↔
      s.IsMeasurable ∧
        ∀ b ∈ s.blocks,
          ∀ v ∈ b.resolvedVoices, v.IsNamed := by
  have hVoices :
      (∀ m ∈ s.moments, ∀ v ∈ m.voices, v.IsNamed) ↔
        ∀ b ∈ s.blocks, ∀ v ∈ b.resolvedVoices, v.IsNamed := by
    rw [← List.forall_mem_flatMap, s.voices_moments,
      List.forall_mem_flatMap]
  rw [← s.measurable_iff "4", ← s.measurable_parts_iff,
    ← hVoices, ← forall₂_and]
  rfl

/- A score is played just if all its moments can be. -/
theorem exists_actions_iff
    (settings : AudioSettings)
    (s : Score) :
    (∃ as, s.actions settings = .ok as) ↔
      ∀ m ∈ s.moments, m.IsPlayable := by
  rw [actions_eq_moments]
  exact
    Iff.trans (Outcome.exists_bind_of_total fun _ => ⟨_, rfl⟩)
      (Player.exists_moments_iff _ _)

/-
  All that playing a score does is in order, from the start
  to the last moment.
-/
theorem inOrder_actions
    {settings : AudioSettings}
    (hSettings : settings.InRange)
    {s : Score}
    {done : List (Moment × List Action)}
    {last : Player}
    (hRun :
      (Player.start settings).moments
          settings.ticksPerQuarter s.moments =
        .ok (done, last)) :
    InOrder 0 last.now
      (Player.opening settings ++ done.flatMap Prod.snd ++
        last.silence.1) := by
  have hTicks : 0 ≤ settings.ticksPerQuarter := by
    have hRange := hSettings.ticksPerQuarter
    omega
  have hPlayed := Player.inOrder_moments hTicks hRun
  have hOpening : InOrder 0 0 (Player.opening settings) := by
    apply InOrder.of_same_time _ (le_refl 0)
    intro a hAction
    simp only [Player.opening, List.mem_cons,
      List.not_mem_nil, or_false] at hAction
    rcases hAction with rfl | rfl <;> rfl
  have hClosing : InOrder last.now last.now last.silence.1 := by
    apply InOrder.of_same_time _ (le_refl _)
    intro a hAction
    rcases List.mem_map.mp hAction with ⟨note, -, rfl⟩
    rfl
  exact (hOpening.append hPlayed).append hClosing

/-
  A score has events if its moments are
  playable, and only then.
-/
theorem exists_events_iff
    {settings : AudioSettings}
    (hSettings : settings.InRange)
    (s : Score) :
    (∃ events, s.events settings = .ok events) ↔
      ∀ m ∈ s.moments, m.IsPlayable := by
  rw [events]
  refine Iff.trans
    (Outcome.exists_bind_iff
      (Iff.trans Outcome.exists_mapError_eq_ok
        (exists_actions_iff settings s)) fun as hActions =>
      iff_true_intro ?_) (and_true _).to_iff
  rw [Outcome.mapError_eq_ok, actions_eq_moments] at hActions
  simp only [Outcome.bind_eq_ok, Outcome.pure_eq,
    Except.ok.injEq] at hActions
  rcases hActions with ⟨⟨done, last⟩, hRun, rfl⟩
  have hStart := Player.ready_start settings
  rcases Player.ready_moments hStart hRun with ⟨hLast, hValid⟩
  have hAll := inOrder_actions hSettings hRun
  rw [Outcome.exists_mapError_eq_ok]
  apply Schedule.exists_actions hSettings.channel
    hStart.tempo _ hAll.order
  · intro a hAction
    have hTime := roundHalfEven_mono (hAll.within a hAction).1
    have hZero : roundHalfEven 0 = 0 := by decide +kernel
    rwa [hZero] at hTime
  · intro a hAction
    simp only [List.mem_append] at hAction
    rcases hAction with (hOpened | hDone) | hClosed
    · simp only [Player.opening, List.mem_cons,
        List.not_mem_nil, or_false] at hOpened
      rcases hOpened with rfl | rfl
      · exact hStart.tempo
      · exact hSettings.defaultInstrument
    · exact hValid a hDone
    · exact Player.valid_release hLast hClosed

/- Every event of a score is the event of an act. -/
theorem exists_event_of_mem_events
    {settings : AudioSettings}
    {s : Score}
    {events : List MidiEvent}
    (hEvents : s.events settings = .ok events)
    {e : MidiEvent}
    (hMember : e ∈ events) :
    ∃ delta act,
      Schedule.event settings.channel delta act =
        .ok e := by
  simp only [Score.events, Outcome.bind_eq_ok,
    Outcome.mapError_eq_ok, Schedule.actions_eq_emissions,
    Outcome.map_eq_ok] at hEvents
  rcases hEvents with ⟨as, -, ⟨es, t⟩, hEmissions, rfl⟩
  exact Schedule.exists_event_of_mem_emissions hEmissions
    hMember

/- The events of a score are built as any others are. -/
theorem built_of_mem_events
    {settings : AudioSettings}
    {s : Score}
    {events : List MidiEvent}
    (hEvents : s.events settings = .ok events)
    {e : MidiEvent}
    (hMember : e ∈ events) :
    e.Built := by
  rcases exists_event_of_mem_events hEvents hMember with
    ⟨delta, act, hEvent⟩
  exact Schedule.built_event hEvent

end Score

end LyricScore
