import Mathlib.Data.Finset.Basic
import Mathlib.Data.Finset.Lattice.Lemmas
import Mathlib.Data.List.DropRight
import LyricScore.Proofs.Performance.Emission

/-
  This file tells which notes sound behind each moment of a
  score when its events are played back: those of the voices
  of the last subdivision that is not a hyphen.  What is
  played back is the list of events alone, and what it is
  compared with is read off the moments of the score alone.

  Key definitions include:
    * `MidiEvent.replay`, `replay`
    * `Moment.Decides`
    * `throughDecisive`
    * `heldVoices`, `heldNotes`
    * `Performance.eventsThrough`

  Key theorems include:
    * `Schedule.replay_emissions`
    * `Player.Holds.moment`
    * `Player.Holds.moments`
    * `Score.replay_events_eq_heldNotes`
-/

namespace LyricScore

------------------------------------------------------------
-- Playing events back
------------------------------------------------------------

/-
  The sounding notes behind an event, if `notes` sound before
  it.  A note is struck with a velocity above zero, and is
  released with the velocity zero.
-/
def MidiEvent.replay
    (notes : Finset Nat)
    (e : MidiEvent) : Finset Nat :=
  match e.kind, e.param1, e.param2 with
  | .noteOn, some note, some velocity =>
    if 0 < velocity then insert note notes
    else notes.erase note
  | _, _, _ => notes

/- The sounding notes behind events. -/
def replay
    (notes : Finset Nat)
    (events : List MidiEvent) : Finset Nat :=
  events.foldl MidiEvent.replay notes

theorem replay_append
    (notes : Finset Nat)
    (events more : List MidiEvent) :
    replay notes (events ++ more) =
      replay (replay notes events) more := by
  simp [replay]

/- The sounding notes behind what is done. -/
def Act.replay
    (notes : Finset Nat) : Act → Finset Nat
  | .strike v velocity =>
    if 0 < velocity then insert v.note.toNat notes
    else notes.erase v.note.toNat
  | .release note => notes.erase note.toNat
  | _ => notes

/- The sounding notes behind actions. -/
def replayActions
    (notes : Finset Nat)
    (as : List Action) : Finset Nat :=
  as.foldl (fun notes a => a.act.replay notes) notes

theorem replayActions_append
    (notes : Finset Nat)
    (as more : List Action) :
    replayActions notes (as ++ more) =
      replayActions (replayActions notes as) more := by
  simp [replayActions]

namespace Schedule

variable {channel : Int}

/- An event is replayed as its act is. -/
theorem replay_event
    {delta : Int}
    {act : Act}
    {e : MidiEvent}
    (hEvent : event channel delta act = .ok e)
    (notes : Finset Nat) :
    e.replay notes = act.replay notes := by
  cases act with
  | tempo microseconds =>
      rcases MidiEvent.setTempo_eq_ok hEvent with ⟨-, rfl⟩
      rfl
  | program number =>
      rcases MidiEvent.programChange_eq_ok hEvent with ⟨-, rfl⟩
      rfl
  | strike voice velocity =>
      rcases MidiEvent.noteOn_eq_ok hEvent with ⟨-, rfl⟩
      simp [MidiEvent.replay, Act.replay]
  | release note =>
      rcases MidiEvent.noteOn_eq_ok hEvent with ⟨-, rfl⟩
      rfl

/- Fillers change nothing that sounds. -/
theorem replay_fillers
    {tempo : Int}
    {fillers : List MidiEvent}
    (hFillers :
      ∀ filler ∈ fillers,
        MidiEvent.setTempo Midi.maxQuantity tempo =
          .ok filler)
    (notes : Finset Nat) :
    replay notes fillers = notes := by
  induction fillers with
  | nil =>
      rfl
  | cons filler fillers ih =>
      rcases MidiEvent.setTempo_eq_ok
          (hFillers filler (by simp)) with
        ⟨-, hFiller⟩
      have hSame : filler.replay notes = notes := by
        rw [hFiller]
        rfl
      have hRest :=
        ih fun other hOther =>
          hFillers other (by simp [hOther])
      rw [replay, List.foldl_cons, hSame]
      exact hRest

/-
  The events of emissions sound like their actions; fillers
  are not heard.
-/
theorem replay_emissions
    {s t : Schedule}
    {as : List Action}
    {es : List Emission}
    (hEmissions : s.emissions channel as = .ok (es, t))
    (notes : Finset Nat) :
    replay notes (es.flatMap Emission.events) =
      replayActions notes as := by
  induction as generalizing s es notes with
  | nil =>
      rcases emissions_nil_eq_ok hEmissions with ⟨rfl, -⟩
      rfl
  | cons a as ih =>
      rcases emissions_cons_eq_ok hEmissions with
        ⟨first, u, more, hFirst, hMore, rfl⟩
      rcases emission_eq_ok hFirst with
        ⟨-, -, hFillers, hOwn, -⟩
      have hSound :
          replay notes first.events =
            a.act.replay notes := by
        rw [Emission.events, replay_append,
          replay_fillers hFillers]
        exact replay_event hOwn notes
      rw [List.flatMap_cons, replay_append, hSound, ih hMore]
      rfl

end Schedule

------------------------------------------------------------
-- Playing actions back
------------------------------------------------------------

namespace Player

/- Tempos change nothing that sounds. -/
theorem replayActions_tempos
    {p : Player}
    {as : List Action}
    (hTempos : ∀ a ∈ as, ∃ tempo, a = p.act (.tempo tempo))
    (notes : Finset Nat) :
    replayActions notes as = notes := by
  induction as with
  | nil =>
      rfl
  | cons a as ih =>
      rcases hTempos a (by simp) with ⟨tempo, rfl⟩
      exact ih fun b hMember => hTempos b (by simp [hMember])

theorem replayActions_programs
    (p : Player)
    (notes : Finset Nat)
    (numbers : List Int) :
    replayActions notes
        (numbers.map fun n => p.act (.program n)) =
      notes := by
  induction numbers with
  | nil =>
      rfl
  | cons n numbers ih =>
      exact ih

/- Released notes sound no more. -/
theorem replayActions_releases
    (p : Player)
    (notes : Finset Nat)
    (released : List Int) :
    replayActions notes
        (released.map fun note => p.act (.release note)) =
      notes \ (released.map Int.toNat).toFinset := by
  induction released generalizing notes with
  | nil =>
      simp [replayActions]
  | cons note released ih =>
      have hStep :
          replayActions notes
              ((note :: released).map fun n =>
                p.act (.release n)) =
            replayActions (notes.erase note.toNat)
              (released.map fun n => p.act (.release n)) :=
        rfl
      rw [hStep, ih]
      ext n
      simp only [List.map_cons, List.toFinset_cons,
        Finset.mem_sdiff, Finset.mem_erase,
        Finset.mem_insert]
      tauto

/-
  Voices that are struck at velocity zero
  end instead of start.
-/
theorem replayActions_strikes
    (p : Player)
    (notes : Finset Nat)
    (velocity : Int)
    (voices : List Voice) :
    let struck := (voices.map fun v => v.note.toNat).toFinset
    replayActions notes
      (voices.map fun v => p.act (.strike v velocity)) =
      if 0 < velocity then notes ∪ struck
      else notes \ struck := by
  induction voices generalizing notes with
  | nil =>
      simp [replayActions]
  | cons v voices ih =>
      have hStep :
          replayActions notes
              ((v :: voices).map fun v =>
                p.act (.strike v velocity)) =
            replayActions
              (Act.replay notes (.strike v velocity))
              (voices.map fun v =>
                p.act (.strike v velocity)) :=
        rfl
      simp only [hStep, ih, Act.replay]
      by_cases hVelocity : 0 < velocity
      · simp only [hVelocity, if_true]
        ext n
        simp only [List.map_cons, List.toFinset_cons,
          Finset.mem_union, Finset.mem_insert]
        tauto
      · simp only [hVelocity, if_false]
        ext n
        simp only [List.map_cons, List.toFinset_cons,
          Finset.mem_sdiff, Finset.mem_erase,
          Finset.mem_insert]
        tauto

end Player

------------------------------------------------------------
-- What should sound
------------------------------------------------------------

namespace Moment

/- A subdivision other than a hyphen decides what sounds. -/
def Decides : Moment → Prop
  | part p => p.slot.subdivision.kind ≠ .hyphen
  | _ => False

instance
    (m : Moment) :
    Decidable m.Decides := by
  unfold Decides
  cases m <;> infer_instance

/-
  The directives of the pitch stream that
  an attack is handed.
-/
def handed : Moment → List Directive
  | part p =>
      if p.slot.subdivision.IsAttack then
        p.slot.content.delivery.handed
      else []
  | _ => []

/- The voices that an attack strikes. -/
def voices : Moment → List Voice
  | part p =>
      if p.slot.subdivision.IsAttack then
        p.slot.content.voices
      else []
  | _ => []

end Moment

/- The loudness in force behind moments. -/
def loudnessAfter
    (settings : AudioSettings)
    (ms : List Moment) : Int :=
  velocityAfter settings.defaultVelocity
    (ms.flatMap Moment.handed)

/- Moments up to the last one that decides what sounds. -/
def throughDecisive
    (ms : List Moment) : List Moment :=
  ms.rdropWhile fun m => ¬ m.Decides

/-
  The voices that are held behind moments: those of the last
  decisive one.
-/
def heldVoices
    (ms : List Moment) : List Voice :=
  ((throughDecisive ms).getLast?.map Moment.voices).getD []

/-
  The notes that are to sound behind moments: those of the
  voices that are held, if the loudness was above zero when
  they were struck.
-/
def heldNotes
    (settings : AudioSettings)
    (ms : List Moment) : Finset Nat :=
  if 0 < velocityOfPercent
      (loudnessAfter settings (throughDecisive ms)) then
    ((heldVoices ms).map fun v => v.note.toNat).toFinset
  else ∅

/-
  The loudness behind a moment is what its directives make
  of the loudness before.
-/
theorem loudnessAfter_concat
    (settings : AudioSettings)
    (ms : List Moment)
    (m : Moment) :
    loudnessAfter settings (ms ++ [m]) =
      velocityAfter (loudnessAfter settings ms) m.handed := by
  simp [loudnessAfter, velocityAfter_append]

/- A moment that decides is the last that decides. -/
theorem throughDecisive_concat_of_decides
    {m : Moment}
    (hDecides : m.Decides)
    (ms : List Moment) :
    throughDecisive (ms ++ [m]) = ms ++ [m] :=
  List.rdropWhile_concat_neg _ _ _ (by simpa using hDecides)

theorem throughDecisive_concat_of_not_decides
    {m : Moment}
    (hDecides : ¬ m.Decides)
    (ms : List Moment) :
    throughDecisive (ms ++ [m]) = throughDecisive ms :=
  List.rdropWhile_concat_pos _ _ _ (by simpa using hDecides)

/- A moment that decides holds its own voices. -/
theorem heldVoices_concat_of_decides
    {m : Moment}
    (hDecides : m.Decides)
    (ms : List Moment) :
    heldVoices (ms ++ [m]) = m.voices := by
  simp [heldVoices, throughDecisive_concat_of_decides hDecides]

theorem heldVoices_concat_of_not_decides
    {m : Moment}
    (hDecides : ¬ m.Decides)
    (ms : List Moment) :
    heldVoices (ms ++ [m]) = heldVoices ms := by
  simp [heldVoices,
    throughDecisive_concat_of_not_decides hDecides]

/-
  A moment that decides holds its own notes,
  if they are to be heard.
-/
theorem heldNotes_concat_of_decides
    {m : Moment}
    (hDecides : m.Decides)
    (settings : AudioSettings)
    (ms : List Moment) :
    heldNotes settings (ms ++ [m]) =
      if 0 < velocityOfPercent
          (loudnessAfter settings (ms ++ [m])) then
        (m.voices.map fun v => v.note.toNat).toFinset
      else ∅ := by
  rw [heldNotes, throughDecisive_concat_of_decides hDecides,
    heldVoices_concat_of_decides hDecides]

theorem heldNotes_concat_of_not_decides
    {m : Moment}
    (hDecides : ¬ m.Decides)
    (settings : AudioSettings)
    (ms : List Moment) :
    heldNotes settings (ms ++ [m]) = heldNotes settings ms := by
  rw [heldNotes, heldNotes,
    throughDecisive_concat_of_not_decides hDecides,
    heldVoices_concat_of_not_decides hDecides]

/-
  What is to sound is among the notes of the
  voices that are held.
-/
theorem heldNotes_subset
    (settings : AudioSettings)
    (ms : List Moment) :
    heldNotes settings ms ⊆
      ((soundingAfter [] (heldVoices ms)).map
        Int.toNat).toFinset := by
  unfold heldNotes
  split
  · intro n hNote
    simp only [List.mem_toFinset, List.mem_map] at hNote
    rcases hNote with ⟨v, hVoice, rfl⟩
    have hSounding :
        v.note ∈ soundingAfter [] (heldVoices ms) :=
      mem_soundingAfter.mpr (Or.inr ⟨v, hVoice, rfl⟩)
    exact List.mem_toFinset.mpr
      (List.mem_map.mpr ⟨v.note, hSounding, rfl⟩)
  · exact Finset.empty_subset _

------------------------------------------------------------
-- Players hold what should sound
------------------------------------------------------------

namespace Player

/-
  A player behind moments `past`, and the notes that sound
  when what it did is played back.  A player lists the notes
  of held voices as sounding even if they were struck at
  velocity zero.
-/
structure Holds
    (settings : AudioSettings)
    (past : List Moment)
    (p : Player)
    (notes : Finset Nat) : Prop where
  loudness : p.velocity = loudnessAfter settings past
  sounding : p.sounding = soundingAfter [] (heldVoices past)
  held : notes = heldNotes settings past

namespace Holds

variable {settings : AudioSettings}
variable {past : List Moment}
variable {p q : Player}
variable {notes : Finset Nat}

/- To release what a player lists leaves nothing. -/
theorem released
    (hHolds : p.Holds settings past notes)
    (r : Player) :
    replayActions notes
        (p.sounding.map fun note => r.act (.release note)) =
      ∅ := by
  rw [replayActions_releases, hHolds.held, hHolds.sounding]
  exact Finset.sdiff_eq_empty_iff_subset.mpr
    (heldNotes_subset settings past)

/-
  What sounds stays right over a moment at
  which nothing is done.
-/
theorem unchanged
    (hHolds : p.Holds settings past notes)
    {m : Moment}
    (hDecides : ¬ m.Decides)
    (hHanded : m.handed = []) :
    p.Holds settings (past ++ [m]) notes := by
  constructor
  · rw [loudnessAfter_concat, hHanded, hHolds.loudness]
    rfl
  · rw [heldVoices_concat_of_not_decides hDecides,
      hHolds.sounding]
  · rw [heldNotes_concat_of_not_decides hDecides, hHolds.held]

/-
  An attack leaves the notes of its voices,
  if they can be heard.
-/
theorem replay_attack
    (hHolds : p.Holds settings past notes)
    {a : Attack}
    {done : List Action}
    (hAttack : p.attack a = .ok (done, q)) :
    replayActions notes done =
      if 0 < velocityOfPercent
          (velocityAfter p.velocity a.delivery.handed) then
        (a.voices.map fun v => v.note.toNat).toFinset
      else ∅ := by
  rcases attack_eq_ok hAttack with ⟨rfl, -⟩
  rw [replayActions_append, replayActions_append,
    replayActions_programs, hHolds.released,
    replayActions_strikes, Finset.empty_union,
    Finset.empty_sdiff]

/- What sounds stays right over a subdivision. -/
theorem sound
    (hHolds : p.Holds settings past notes)
    {part : Part}
    {done : List Action}
    (hSound : p.sound part.slot = .ok (done, q)) :
    q.Holds settings (past ++ [.part part])
      (replayActions notes done) := by
  rcases sound_eq_ok hSound with
    ⟨hIsAttack, hAttack⟩ | ⟨hNoAttack, hSilence, rfl, rfl⟩ |
      ⟨hHyphen, rfl, rfl⟩
  · have hDecides : (Moment.part part).Decides := by
      rcases hIsAttack with hKind | hKind <;>
        simp [Moment.Decides, hKind]
    have hVoices :
        (Moment.part part).voices =
          part.slot.content.voices := by
      simp [Moment.voices, hIsAttack]
    have hLoudness :
        loudnessAfter settings (past ++ [.part part]) =
          velocityAfter p.velocity
            part.slot.content.delivery.handed := by
      rw [loudnessAfter_concat, hHolds.loudness]
      simp [Moment.handed, hIsAttack]
    have hNotes := hHolds.replay_attack hAttack
    rcases attack_eq_ok hAttack with ⟨-, rfl⟩
    constructor
    · exact hLoudness.symm
    · rw [heldVoices_concat_of_decides hDecides, hVoices]
    · rw [hNotes, heldNotes_concat_of_decides hDecides,
        hLoudness, hVoices]
  · have hDecides : (Moment.part part).Decides := by
      rcases hSilence with hKind | hKind <;>
        simp [Moment.Decides, hKind]
    have hVoices : (Moment.part part).voices = [] := by
      simp [Moment.voices, hNoAttack]
    constructor
    · rw [loudnessAfter_concat, hHolds.loudness]
      simp [Moment.handed, hNoAttack, velocityAfter]
    · rw [heldVoices_concat_of_decides hDecides, hVoices]
      rfl
    · rw [hHolds.released,
        heldNotes_concat_of_decides hDecides, hVoices]
      simp
  · have hDecides : ¬ (Moment.part part).Decides := by
      simp [Moment.Decides, hHyphen]
    have hHanded : (Moment.part part).handed = [] := by
      simp [Moment.handed, Subdivision.IsAttack, hHyphen]
    exact hHolds.unchanged hDecides hHanded

/- What sounds stays right over a moment. -/
theorem moment
    (hHolds : p.Holds settings past notes)
    {ticksPerQuarter : Int}
    {m : Moment}
    {done : List Action}
    (hMoment : p.moment ticksPerQuarter m = .ok (done, q)) :
    q.Holds settings (past ++ [m])
      (replayActions notes done) := by
  cases m with
  | directive d =>
      simp only [Player.moment, Except.ok.injEq] at hMoment
      rcases frame_followLyrics hMoment with ⟨hFrame, hHeard⟩
      have hHanded : (Moment.directive d).handed = [] := rfl
      rw [replayActions_tempos hHeard, hFrame]
      rcases hHolds.unchanged (by simp [Moment.Decides])
        hHanded with
        ⟨hLoudness, hSounding, hHeld⟩
      exact ⟨hLoudness, hSounding, hHeld⟩
  | barline measure =>
      simp only [Player.moment, Except.ok.injEq,
        Prod.mk.injEq] at hMoment
      rcases hMoment with ⟨rfl, rfl⟩
      exact hHolds.unchanged (by simp [Moment.Decides]) rfl
  | part part =>
      simp only [Player.moment, Outcome.bind_eq_ok,
        Outcome.pure_eq, Except.ok.injEq,
        Prod.mk.injEq] at hMoment
      rcases hMoment with
        ⟨ticks, -, ⟨sounded, r⟩, hSound, rfl, rfl⟩
      rcases hHolds.sound hSound with
        ⟨hLoudness, hSounding, hHeld⟩
      exact ⟨hLoudness, hSounding, hHeld⟩

/- What sounds stays right over any moments. -/
theorem moments
    (hHolds : p.Holds settings past notes)
    {ticksPerQuarter : Int}
    {ms : List Moment}
    {done : List (Moment × List Action)}
    (hRun : p.moments ticksPerQuarter ms = .ok (done, q)) :
    q.Holds settings (past ++ ms)
      (replayActions notes (done.flatMap Prod.snd)) := by
  induction ms generalizing p past notes done with
  | nil =>
      rcases moments_nil_eq_ok hRun with ⟨rfl, rfl⟩
      simpa [replayActions] using hHolds
  | cons m ms ih =>
      rcases moments_cons_eq_ok hRun with
        ⟨first, r, more, hFirst, hMore, rfl⟩
      have hRest := ih (hHolds.moment hFirst) hMore
      rw [List.flatMap_cons, replayActions_append,
        List.append_cons]
      exact hRest

end Holds

/- Nothing sounds at the start. -/
theorem holds_start
    (settings : AudioSettings) :
    (start settings).Holds settings []
      (replayActions ∅ (opening settings)) := by
  constructor
  · rfl
  · rfl
  · simp [heldNotes, heldVoices, throughDecisive,
      replayActions, opening, Act.replay, act]

end Player

------------------------------------------------------------
-- Performances sound what they should
------------------------------------------------------------

namespace Performance

/- What is emitted up to the first `k` moments. -/
def emissionsThrough
    (perf : Performance)
    (k : Nat) : List Emission :=
  perf.opening ++
    (perf.passages.take k).flatMap Passage.emissions

/- The events up to the first `k` moments. -/
def eventsThrough
    (perf : Performance)
    (k : Nat) : List MidiEvent :=
  (perf.emissionsThrough k).flatMap Emission.events

/- The emissions up to a moment come first. -/
theorem exists_emissions_eq
    (perf : Performance)
    (k : Nat) :
    ∃ later,
      perf.emissions =
        perf.emissionsThrough k ++ later := by
  have hPassages :
      perf.passages.flatMap Passage.emissions =
        (perf.passages.take k).flatMap Passage.emissions ++
          (perf.passages.drop k).flatMap Passage.emissions := by
    rw [← List.flatMap_append, List.take_append_drop]
  refine
    ⟨(perf.passages.drop k).flatMap Passage.emissions ++
        perf.closing, ?_⟩
  simp [emissions, emissionsThrough, hPassages]

variable {settings : AudioSettings}
variable {s : Score}
variable {perf : Performance}
variable {done : List (Moment × List Action)}
variable {last : Player}

/-
  The emissions up to a moment are those of
  the actions up to it.
-/
theorem Renders.map_action_emissionsThrough
    (hRenders : perf.Renders settings s done last)
    (k : Nat) :
    (perf.emissionsThrough k).map Emission.action =
      Player.opening settings ++
        (done.take k).flatMap Prod.snd := by
  simp only [emissionsThrough, List.map_append,
    hRenders.opening, ← hRenders.passages, ← List.map_take,
    List.map_flatMap, List.flatMap_map]

/- Behind each moment the notes sound that are to be held. -/
theorem Renders.replay_eventsThrough
    (hRenders : perf.Renders settings s done last)
    (k : Nat) :
    replay ∅ (perf.eventsThrough k) =
      heldNotes settings (s.moments.take k) := by
  rcases hRenders.schedule with ⟨t, hSchedule⟩
  rcases perf.exists_emissions_eq k with ⟨later, hLater⟩
  rw [hLater] at hSchedule
  rcases Schedule.emissions_split hSchedule with
    ⟨u, hThrough, -⟩
  rcases Player.moments_take hRenders.run k with ⟨r, hRun⟩
  have hHolds := (Player.holds_start settings).moments hRun
  rw [eventsThrough, Schedule.replay_emissions hThrough,
    hRenders.map_action_emissionsThrough, replayActions_append]
  exact hHolds.held

/- Behind the last event nothing sounds. -/
theorem Renders.replay_events
    (hRenders : perf.Renders settings s done last) :
    replay ∅ perf.events = ∅ := by
  rcases hRenders.schedule with ⟨t, hSchedule⟩
  have hHolds :=
    (Player.holds_start settings).moments hRenders.run
  rw [events, Schedule.replay_emissions hSchedule,
    replayActions_append, replayActions_append]
  exact hHolds.released last

end Performance

/-
  Piano roll.  The events of a score are the events at its
  moments in turn.  Up to each moment they leave those notes
  sounding that are to be held behind it; a hyphen, a barline
  or a directive changes none; and the last event leaves
  nothing sounding.
-/
theorem Score.replay_events_eq_heldNotes
    {settings : AudioSettings}
    {s : Score}
    {events : List MidiEvent}
    (hEvents : s.events settings = .ok events) :
    s.moments.filterMap Moment.subdivision? =
        s.blocks.flatMap (fun b =>
          b.lyricStream.flatMap LyricItem.subdivisions) ∧
      ∃ perf,
        s.performance settings = .ok perf ∧
          perf.events = events ∧
          perf.passages.map Passage.moment = s.moments ∧
          (∀ k,
            perf.eventsThrough k <+: events ∧
              replay ∅ (perf.eventsThrough k) =
                heldNotes settings (s.moments.take k)) ∧
          (∀ k m,
            s.moments[k]? = some m →
              ¬ m.Decides →
              replay ∅ (perf.eventsThrough (k + 1)) =
                replay ∅ (perf.eventsThrough k)) ∧
          replay ∅ events = ∅ := by
  refine ⟨s.subdivisions_moments, ?_⟩
  rcases Score.performance_of_events hEvents with
    ⟨perf, hPerformance, rfl⟩
  rcases Score.performance_eq_ok hPerformance with
    ⟨done, last, hRenders⟩
  refine ⟨perf, hPerformance, rfl, hRenders.map_moment, ?_,
    ?_, hRenders.replay_events⟩
  · intro k
    rcases perf.exists_emissions_eq k with ⟨later, hLater⟩
    refine ⟨⟨later.flatMap Emission.events, ?_⟩,
      hRenders.replay_eventsThrough k⟩
    rw [Performance.events, hLater, List.flatMap_append,
      Performance.eventsThrough]
  · intro k m hMoment hDecides
    have hTake :
        s.moments.take (k + 1) =
          s.moments.take k ++ [m] := by
      rw [List.take_add_one, hMoment]
      rfl
    rw [hRenders.replay_eventsThrough,
      hRenders.replay_eventsThrough, hTake]
    exact heldNotes_concat_of_not_decides hDecides settings _

/-
  A score of two blocks: a chord with notes that coincide at
  the upper end, held by a hyphen; an attack at volume zero; a
  note that is held into the second block, and an attack
  without a pitch.
-/
def Score.heldOver : Score where
  blocks := [
    { lyricLines := [
        { measures := [
            { beats := [
                { elements := [
                    .subdivision ⟨.syllable, "2la", {}⟩,
                    .subdivision ⟨.hyphen, "-", {}⟩] },
                { elements := [
                    .subdivision ⟨.melisma, "*", {}⟩] }]
              barline := true },
            { beats := [
                { elements := [
                    .subdivision
                      ⟨.syllable, "lu", {}⟩] }] }] }]
      pitchLines := [
        { measures := [
            { elements := [
                .chord {
                  pitches := [
                    { letter := .c },
                    { letter := .g, shift := 6 },
                    { letter := .b }] },
                .directive ⟨.volume 0, {}⟩,
                .pitch { letter := .e }]
              barline := true },
            { elements := [
                .directive ⟨.volume 50, {}⟩,
                .pitch
                  { letter := .c, shift := -7 }] }] }] },
    { lyricLines := [
        { measures := [
            { beats := [
                { elements := [
                    .subdivision ⟨.hyphen, "-", {}⟩,
                    .subdivision ⟨.syllable, "o", {}⟩] }] }] }] }]

/-
  What sounds behind its moments: two notes, none, one, and
  none at the end.
-/
theorem Score.replay_heldOver :
    ∃ events perf,
      heldOver.events {} = .ok events ∧
        heldOver.performance {} = .ok perf ∧
        perf.events = events ∧
        replay ∅ (perf.eventsThrough 1) = {60, 127} ∧
        replay ∅ (perf.eventsThrough 2) = {60, 127} ∧
        replay ∅ (perf.eventsThrough 3) = ∅ ∧
        replay ∅ (perf.eventsThrough 5) = {60} ∧
        replay ∅ (perf.eventsThrough 6) = {60} ∧
        replay ∅ (perf.eventsThrough 7) = ∅ ∧
        replay ∅ events = ∅ := by
  have hOk : (heldOver.events {}).isOk = true := by
    decide +kernel
  rcases Outcome.exists_eq_ok hOk with ⟨events, hEvents⟩
  rcases Score.replay_events_eq_heldNotes hEvents with
    ⟨-, perf, hPerformance, hSame, -, hHeld, -, hEnd⟩
  refine ⟨events, perf, hEvents, hPerformance, hSame, ?_,
    ?_, ?_, ?_, ?_, ?_, hEnd⟩
  · rw [(hHeld 1).2]
    decide +kernel
  · rw [(hHeld 2).2]
    decide +kernel
  · rw [(hHeld 3).2]
    decide +kernel
  · rw [(hHeld 5).2]
    decide +kernel
  · rw [(hHeld 6).2]
    decide +kernel
  · rw [(hHeld 7).2]
    decide +kernel

end LyricScore
