import Mathlib.Order.Bounds.Basic
import LyricScore.Proofs.Performance.Drift
import LyricScore.Proofs.Performance.Validity

/-
  This file shows that the tempos in the events of a score are
  those in force: each event that sounds finds the tempo that
  the directives of the lyric streams have come to, and no
  tempo is set twice but by events that fill a distance too
  long for one.

  Key definitions include:
    * `LyricItem.steps`
    * `AudioSettings.quarterAfter`
    * `lastQuarter?`
    * `Renewing`
    * `Player.Paced`
    * `Performance.TellsTempo`

  Key theorems include:
    * `Score.steps_moments`
    * `Player.Paced.moment`
    * `Player.Paced.moments`
    * `Schedule.lastQuarter?_emissions`
    * `isLeast_fillerCount`
    * `Score.tempos_are_those_in_force`
-/

namespace LyricScore

------------------------------------------------------------
-- Directives and subdivisions in order
------------------------------------------------------------

namespace Moment

/- The directive that is met. -/
def directive? : Moment → Option Directive
  | directive d => some d
  | _ => none

/- The directive or the subdivision that is met. -/
def step? : Moment → Option (Directive ⊕ Subdivision)
  | directive d => some (.inl d)
  | barline _ => none
  | part p => some (.inr p.slot.subdivision)

end Moment

/- The directives of an item, and then its subdivisions. -/
def LyricItem.steps
    (item : LyricItem) : List (Directive ⊕ Subdivision) :=
  item.directives.map .inl ++ item.subdivisions.map .inr

/- The steps of the parts of a beat are its subdivisions. -/
theorem steps_parts
    (b : Beat)
    (key : BeatKey)
    (count first : Nat)
    (slots : List (Slot Attack)) :
    (b.parts key count first slots).filterMap Moment.step? =
      (slots.map Slot.subdivision).map .inr := by
  induction slots generalizing first with
  | nil =>
      rfl
  | cons slot slots ih =>
      simp [Beat.parts_cons, Moment.step?, ih]

/-
  The steps of cues are their directives and then their
  subdivisions, in order.
-/
theorem steps_cues
    (block : Int)
    (index : Nat)
    (cues : List (Cue Attack)) :
    (Cue.moments block index cues).filterMap Moment.step? =
      cues.flatMap fun cue =>
        cue.item.directives.map .inl ++
          (cue.slots.map Slot.subdivision).map .inr := by
  induction cues generalizing index with
  | nil =>
      rfl
  | cons cue cues ih =>
      cases cue with
      | directive d =>
          exact congrArg (Sum.inl d :: ·) (ih index)
      | barline measure =>
          exact ih index
      | beat b slots =>
          have hDirectives :
              (b.directives.map Moment.directive).filterMap
                  Moment.step? =
                b.directives.map .inl := by
            simp [List.filterMap_map, Function.comp_def,
              Moment.step?]
          rw [Cue.moments, List.filterMap_append,
            List.filterMap_append, hDirectives, steps_parts,
            ih, List.flatMap_cons]
          rfl

/- The moments of a block follow its lyric stream. -/
theorem Block.steps_moments
    (b : Block)
    (block : Int) :
    (b.moments block).filterMap Moment.step? =
      b.lyricStream.flatMap LyricItem.steps :=
  calc
    (b.moments block).filterMap Moment.step?
      = b.voices.flatMap (fun cue =>
          cue.item.directives.map .inl ++
            (cue.slots.map Slot.subdivision).map .inr) :=
        steps_cues block 0 b.voices
    _ = b.voices.flatMap (fun cue => cue.item.steps) :=
        List.flatMap_congr fun cue hCue => by
          rw [Block.subdivisions_of_mem_voices hCue,
            LyricItem.steps]
    _ = b.lyricStream.flatMap LyricItem.steps := by
        rw [← b.map_item_voices, List.flatMap_map]

/- The moments of a score follow its lyric streams. -/
theorem Score.steps_moments
    (s : Score) :
    s.moments.filterMap Moment.step? =
      s.blocks.flatMap fun b =>
        b.lyricStream.flatMap LyricItem.steps := by
  have hBlocks (index : Nat) (bs : List Block) :
      (blockMoments index bs).filterMap Moment.step? =
        bs.flatMap fun b =>
          b.lyricStream.flatMap LyricItem.steps := by
    induction bs generalizing index with
    | nil =>
        rfl
    | cons b bs ih =>
        rw [blockMoments, List.filterMap_append,
          b.steps_moments, ih, List.flatMap_cons]
  exact hBlocks 0 s.blocks

/-
  The directives among the steps of items
  are those of the items.
-/
theorem directives_steps
    (items : List LyricItem) :
    (items.flatMap LyricItem.steps).filterMap Sum.getLeft? =
      items.flatMap LyricItem.directives := by
  have hItem (item : LyricItem) :
      item.steps.filterMap Sum.getLeft? = item.directives := by
    simp [LyricItem.steps, List.filterMap_append,
      List.filterMap_map, Function.comp_def]
  simp only [List.filterMap_flatMap, hItem]

/-
  The directives that are met in a block are those of its
  lyric stream.
-/
theorem Block.directives_moments
    (b : Block)
    (block : Int) :
    (b.moments block).filterMap Moment.directive? =
      b.lyricStream.flatMap LyricItem.directives := by
  have hMoment (m : Moment) :
      m.directive? = m.step?.bind Sum.getLeft? := by
    cases m <;> rfl
  calc
    (b.moments block).filterMap Moment.directive? =
      ((b.moments block).filterMap Moment.step?).filterMap
        Sum.getLeft? := by
        rw [List.filterMap_filterMap]
        exact List.filterMap_congr fun m _ => hMoment m
    _ = b.lyricStream.flatMap LyricItem.directives := by
        rw [b.steps_moments, directives_steps]

------------------------------------------------------------
-- Tempos in force
------------------------------------------------------------

/-
  The tempo behind a directive: the one it asks
  for, or the one before.
-/
def Directive.bpmAfter
    (bpm : Int)
    (d : Directive) : Int :=
  match d.order with
  | .tempo bpm => bpm
  | _ => bpm

/-
  The length of a quarter, in microseconds, behind directives
  of the lyric streams: by the last tempo and the last note
  value that were asked for, or those of the settings.
-/
def AudioSettings.quarterAfter
    (settings : AudioSettings)
    (ds : List Directive) : Int :=
  microsecondsPerQuarter
    (ds.foldl Directive.bpmAfter settings.defaultTempo)
    (ds.foldl Directive.unitAfter settings.defaultBeatUnit)

/- The length of a quarter that is set by what is done. -/
def Act.quarter? : Act → Option Int
  | .tempo microseconds => some microseconds
  | _ => none

/-
  The length of a quarter behind actions, if
  it is `tempo` before.
-/
def quarterAfterActions
    (tempo : Int)
    (as : List Action) : Int :=
  as.foldl
    (fun tempo a => Schedule.tempoAfter tempo a.act) tempo

/-
  Every action that sets the tempo sets
  another than the one before.
-/
def Renewing
    (tempo : Int) : List Action → Prop
  | [] => True
  | a :: as =>
    a.act.quarter? ≠ some tempo ∧
      Renewing (Schedule.tempoAfter tempo a.act) as

/- An act that sets no tempo leaves the tempo. -/
theorem Schedule.tempoAfter_of_quarter?_eq_none
    {tempo : Int}
    {act : Act}
    (hPlain : act.quarter? = none) :
    tempoAfter tempo act = tempo := by
  cases act with
  | tempo microseconds =>
      cases hPlain
  | _ =>
      rfl

theorem quarterAfterActions_append
    (tempo : Int)
    (as more : List Action) :
    quarterAfterActions tempo (as ++ more) =
      quarterAfterActions (quarterAfterActions tempo as)
        more := by
  simp [quarterAfterActions]

/-
  Actions behind others renew the tempo
  just if both do in turn.
-/
theorem renewing_append
    {tempo : Int}
    {as more : List Action} :
    Renewing tempo (as ++ more) ↔
      Renewing tempo as ∧
        Renewing (quarterAfterActions tempo as) more := by
  induction as generalizing tempo with
  | nil =>
      simp [Renewing, quarterAfterActions]
  | cons a as ih =>
      simp [Renewing, ih, quarterAfterActions, and_assoc]

/- Where no tempo is set, the tempo stays. -/
theorem quarterAfterActions_of_plain
    {tempo : Int}
    {as : List Action}
    (hPlain : ∀ a ∈ as, a.act.quarter? = none) :
    quarterAfterActions tempo as = tempo ∧
      Renewing tempo as := by
  induction as with
  | nil =>
      exact ⟨rfl, trivial⟩
  | cons a as ih =>
      have hFirst : a.act.quarter? = none := hPlain a (by simp)
      have hStays : Schedule.tempoAfter tempo a.act = tempo :=
        Schedule.tempoAfter_of_quarter?_eq_none hFirst
      rcases ih fun other hOther =>
          hPlain other (by simp [hOther]) with
        ⟨hAfter, hRest⟩
      rw [quarterAfterActions, List.foldl_cons, Renewing,
        hStays, hFirst]
      exact ⟨hAfter, nofun, hRest⟩

------------------------------------------------------------
-- Tempos of players
------------------------------------------------------------

namespace Player

/-
  A player behind directives of the lyric streams: it has
  their tempo and their note value, and the last tempo that it
  set is what both come to.
-/
structure Paced
    (settings : AudioSettings)
    (ds : List Directive)
    (p : Player) : Prop where
  bpm :
    p.bpm =
      ds.foldl Directive.bpmAfter settings.defaultTempo
  unit :
    p.unit =
      ds.foldl Directive.unitAfter settings.defaultBeatUnit
  tempo : p.tempo = microsecondsPerQuarter p.bpm p.unit

variable {settings : AudioSettings}
variable {ds : List Directive}
variable {ticksPerQuarter : Int}

/-
  A paced player has the tempo that the directives have set.
-/
theorem Paced.tempo_eq
    {p : Player}
    (hPaced : p.Paced settings ds) :
    p.tempo = settings.quarterAfter ds := by
  rw [hPaced.tempo, hPaced.bpm, hPaced.unit,
    AudioSettings.quarterAfter]

/- A player is paced at the start. -/
theorem paced_start
    (settings : AudioSettings) :
    (Player.start settings).Paced settings [] :=
  ⟨rfl, rfl, rfl⟩

/-
  Behind a directive the tempo is what tempo and note value
  come to, and it is set only if that is another than before.
-/
theorem followLyrics_eq
    {p : Player}
    (hTempo : p.tempo = microsecondsPerQuarter p.bpm p.unit)
    (d : Directive) :
    let bpm := d.bpmAfter p.bpm
    let unit := d.unitAfter p.unit
    let tempo := microsecondsPerQuarter bpm unit
    p.followLyrics d =
      (if tempo = p.tempo then
          []
        else [p.act (.tempo tempo)],
        { p with
          bpm := bpm, unit := unit, tempo := tempo }) := by
  intro bpm unit tempo
  have hUpdate :
      updateTempo { p with bpm := bpm, unit := unit } =
        (if tempo = p.tempo then
            []
          else [p.act (.tempo tempo)],
          { p with
            bpm := bpm, unit := unit,
            tempo := tempo }) := by
    by_cases hSame : tempo = p.tempo
    · rw [if_pos hSame, updateTempo, if_pos hSame, hSame]
    · rw [if_neg hSame, updateTempo, if_neg hSame]
      rfl
  cases hOrder : d.order with
  | tempo asked =>
      rw [← hUpdate]
      simp [followLyrics, bpm, unit, hOrder,
        Directive.bpmAfter, Directive.unitAfter]
  | beatUnit code =>
      rw [← hUpdate]
      simp [followLyrics, bpm, unit, hOrder,
        Directive.bpmAfter, Directive.unitAfter]
  | _ =>
      have hSame : tempo = p.tempo := by
        simp [tempo, bpm, unit, hOrder, Directive.bpmAfter,
          Directive.unitAfter, hTempo]
      rw [if_pos hSame, hSame]
      simp [followLyrics, bpm, unit, hOrder,
        Directive.bpmAfter, Directive.unitAfter]

/- No tempo is set at a slot. -/
theorem quarter?_of_mem_sound
    {p q : Player}
    {slot : Slot Attack}
    {done : List Action}
    (hSound : p.sound slot = .ok (done, q))
    {a : Action}
    (hAction : a ∈ done) :
    a.act.quarter? = none := by
  rcases sound_eq_ok hSound with
    ⟨-, hAttack⟩ | ⟨-, -, rfl, -⟩ | ⟨-, rfl, -⟩
  · rcases attack_eq_ok hAttack with ⟨rfl, -⟩
    simp only [List.mem_append, List.mem_map] at hAction
    rcases hAction with
      (⟨n, -, rfl⟩ | ⟨n, -, rfl⟩) | ⟨v, -, rfl⟩ <;>
      rfl
  · rcases List.mem_map.mp hAction with ⟨note, -, rfl⟩
    rfl
  · cases hAction

/-
  A moment sets no tempo, or it does nothing but set a tempo
  that is another than the one before.
-/
theorem Paced.moment
    {p q : Player}
    {m : Moment}
    {done : List Action}
    (hPaced : p.Paced settings ds)
    (hMoment : p.moment ticksPerQuarter m = .ok (done, q)) :
    q.Paced settings (ds ++ m.directive?.toList) ∧
      ((∀ a ∈ done, a.act.quarter? = none) ∧
          q.tempo = p.tempo ∨
        done = [p.act (.tempo q.tempo)] ∧
          q.tempo ≠ p.tempo) := by
  cases m with
  | directive d =>
      simp only [Player.moment,
        followLyrics_eq hPaced.tempo, Except.ok.injEq,
        Prod.mk.injEq] at hMoment
      rcases hMoment with ⟨rfl, rfl⟩
      constructor
      · exact ⟨by simp [Moment.directive?, hPaced.bpm],
          by simp [Moment.directive?, hPaced.unit], rfl⟩
      · by_cases hSame :
            microsecondsPerQuarter (d.bpmAfter p.bpm)
                (d.unitAfter p.unit) =
              p.tempo
        · rw [if_pos hSame]
          exact Or.inl ⟨List.forall_mem_nil _, hSame⟩
        · rw [if_neg hSame]
          exact Or.inr ⟨rfl, hSame⟩
  | barline measure =>
      simp only [Player.moment, Except.ok.injEq,
        Prod.mk.injEq] at hMoment
      rcases hMoment with ⟨rfl, rfl⟩
      refine ⟨?_, Or.inl ⟨List.forall_mem_nil _, rfl⟩⟩
      simpa [Moment.directive?] using hPaced
  | part part =>
      simp only [Player.moment, Outcome.bind_eq_ok,
        Outcome.pure_eq, Except.ok.injEq,
        Prod.mk.injEq] at hMoment
      rcases hMoment with
        ⟨ticks, -, ⟨done, r⟩, hSound, rfl, rfl⟩
      have hFrame := frame_sound hSound
      refine ⟨?_,
        Or.inl
          ⟨fun a hAction =>
              quarter?_of_mem_sound hSound hAction, ?_⟩⟩
      · rw [hFrame,
          show (Moment.part part).directive? =
            none from rfl, Option.toList_none,
          List.append_nil]
        exact ⟨hPaced.bpm, hPaced.unit, hPaced.tempo⟩
      · rw [hFrame]
        rfl

/-
  Behind moments the tempo in force is the
  last one that was set.
-/
theorem Paced.moments
    {p q : Player}
    {ms : List Moment}
    {done : List (Moment × List Action)}
    (hPaced : p.Paced settings ds)
    (hRun : p.moments ticksPerQuarter ms = .ok (done, q)) :
    q.Paced settings
        (ds ++ ms.filterMap Moment.directive?) ∧
      quarterAfterActions p.tempo (done.flatMap Prod.snd) =
        q.tempo ∧
      Renewing p.tempo (done.flatMap Prod.snd) := by
  induction ms generalizing p ds done with
  | nil =>
      rcases moments_nil_eq_ok hRun with ⟨rfl, rfl⟩
      refine ⟨?_, rfl, trivial⟩
      simpa using hPaced
  | cons m ms ih =>
      rcases moments_cons_eq_ok hRun with
        ⟨first, r, more, hFirst, hMore, rfl⟩
      rcases hPaced.moment hFirst with ⟨hNext, hDone⟩
      rcases ih hNext hMore with ⟨hLast, hAfter, hRenewing⟩
      have hStep :
          quarterAfterActions p.tempo first = r.tempo ∧
            Renewing p.tempo first := by
        rcases hDone with ⟨hPlain, hSame⟩ | ⟨rfl, hOther⟩
        · rw [hSame]
          exact quarterAfterActions_of_plain hPlain
        · exact
            ⟨rfl, by simpa [Act.quarter?, act] using hOther,
              trivial⟩
      have hDirectives :
          (m :: ms).filterMap Moment.directive? =
            m.directive?.toList ++
              ms.filterMap Moment.directive? := by
        cases hDirective : m.directive? <;> simp [hDirective]
      rw [hDirectives, ← List.append_assoc,
        List.flatMap_cons, quarterAfterActions_append,
        renewing_append, hStep.1]
      exact ⟨hLast, hAfter, hStep.2, hRenewing⟩

/-
  What sets the tempo at a moment is all that is done there.
-/
theorem plain_or_tempos_of_mem_moments
    {p q : Player}
    {ms : List Moment}
    {done : List (Moment × List Action)}
    (hRun : p.moments ticksPerQuarter ms = .ok (done, q)) :
    ∀ d ∈ done,
      (∀ a ∈ d.2, a.act.quarter? = none) ∨
        ∀ a ∈ d.2, a.act.quarter? ≠ none := by
  have hStep (p q : Player) (m : Moment) (done : List Action)
      (hMoment : p.moment ticksPerQuarter m = .ok (done, q)) :
      (∀ a ∈ done, a.act.quarter? = none) ∨
        ∀ a ∈ done, a.act.quarter? ≠ none := by
    cases m with
    | directive d =>
        simp only [Player.moment, Except.ok.injEq] at hMoment
        right
        intro a hAction
        rcases (frame_followLyrics hMoment).2 a hAction with
          ⟨tempo, rfl⟩
        simp [act, Act.quarter?]
    | barline measure =>
        simp only [Player.moment, Except.ok.injEq,
          Prod.mk.injEq] at hMoment
        rw [← hMoment.1]
        exact Or.inl (List.forall_mem_nil _)
    | part part =>
        simp only [Player.moment, Outcome.bind_eq_ok,
          Outcome.pure_eq, Except.ok.injEq,
          Prod.mk.injEq] at hMoment
        rcases hMoment with
          ⟨ticks, -, ⟨done, r⟩, hSound, rfl, -⟩
        exact Or.inl fun a hAction =>
          quarter?_of_mem_sound hSound hAction
  exact forall_mem_moments hStep hRun

end Player

------------------------------------------------------------
-- Tempos of events
------------------------------------------------------------

namespace MidiEvent

/-
  The length of a quarter that an event sets,
  as tempos are counted.
-/
def quarter?
    (e : MidiEvent) : Option Int :=
  e.tempo?.map Nat.cast

/- Three bytes hold every tempo there is. -/
theorem bigEndian_tempoBytes
    {n : Nat}
    (hFits : n ≤ 0xFFFFFF) :
    bigEndian (tempoBytes n) = n := by
  simp only [bigEndian, tempoBytes, List.foldl_cons,
    List.foldl_nil, UInt8.toNat_ofNat']
  omega

/- An event that sets a tempo tells that tempo. -/
theorem quarter?_of_setTempo
    {delta tempo : Int}
    {e : MidiEvent}
    (hMake : setTempo delta tempo = .ok e) :
    e.quarter? = some tempo := by
  rcases setTempo_eq_ok hMake with ⟨-, rfl⟩
  have hRange : 0 ≤ tempo ∧ tempo ≤ 0xFFFFFF := by
    unfold setTempo at hMake
    split at hMake
    · cases hMake
    · split at hMake
      · cases hMake
      · omega
  have hBytes :
      bigEndian (tempoBytes tempo.toNat) = tempo.toNat :=
    bigEndian_tempoBytes (by omega)
  simp [quarter?, tempo?, hBytes, hRange.1]

end MidiEvent

/- The last length of a quarter that events set. -/
def lastQuarter?
    (events : List MidiEvent) : Option Int :=
  (events.filterMap MidiEvent.quarter?).getLast?

/-
  The last tempo of events is that of the last
  event, if it sets one.
-/
theorem lastQuarter?_concat
    (events : List MidiEvent)
    (e : MidiEvent) :
    lastQuarter? (events ++ [e]) =
      e.quarter?.or (lastQuarter? events) := by
  cases hQuarter : e.quarter? <;>
    simp [lastQuarter?, List.filterMap_append,
      List.getLast?_append, hQuarter]

/- Events that repeat the tempo in force change none. -/
theorem lastQuarter?_append_of_repeats
    {tempo : Int}
    {past events : List MidiEvent}
    (hPast : lastQuarter? past = some tempo)
    (hRepeats : ∀ e ∈ events, e.quarter? = some tempo) :
    lastQuarter? (past ++ events) = some tempo := by
  induction events generalizing past with
  | nil =>
      rw [List.append_nil, hPast]
  | cons e events ih =>
      rw [List.append_cons]
      apply ih
      · rw [lastQuarter?_concat, hRepeats e (by simp)]
        rfl
      · exact fun other hOther =>
          hRepeats other (by simp [hOther])

/-
  As many events fill a distance as it takes for the rest to
  fit one event, and no more.
-/
theorem isLeast_fillerCount
    {distance : Nat} :
    IsLeast
      {n : Nat | distance ≤ (n + 1) * Midi.maxQuantity}
      (fillerCount distance) := by
  constructor
  · simp only [Set.mem_ofPred_eq, fillerCount, Midi.maxQuantity]
    omega
  · intro n hFits
    simp only [Set.mem_ofPred_eq, Midi.maxQuantity] at hFits
    simp only [fillerCount, Midi.maxQuantity]
    omega

namespace Schedule

variable {channel : Int}

/- The event of an act sets the tempo that the act sets. -/
theorem quarter?_event
    {delta : Int}
    {act : Act}
    {e : MidiEvent}
    (hEvent : event channel delta act = .ok e) :
    e.quarter? = act.quarter? := by
  cases act with
  | tempo microseconds =>
      exact MidiEvent.quarter?_of_setTempo hEvent
  | program number =>
      rcases MidiEvent.programChange_eq_ok hEvent with ⟨-, rfl⟩
      rfl
  | strike voice velocity =>
      rcases MidiEvent.noteOn_eq_ok hEvent with ⟨-, rfl⟩
      rfl
  | release note =>
      rcases MidiEvent.noteOn_eq_ok hEvent with ⟨-, rfl⟩
      rfl

/-
  Fillers repeat the tempo in force, and are as long as an
  event can be.
-/
theorem fillers_emission
    {s t : Schedule}
    {a : Action}
    {e : Emission}
    (hEmission : s.emission channel a = .ok (e, t)) :
    ∀ filler ∈ e.fillers,
      filler.delta = Midi.maxQuantity ∧
        filler.quarter? = some s.tempo := by
  rcases emission_eq_ok hEmission with ⟨-, -, hFillers, -, -⟩
  intro filler hFiller
  have hMake := hFillers filler hFiller
  refine ⟨?_, MidiEvent.quarter?_of_setTempo hMake⟩
  rcases MidiEvent.setTempo_eq_ok hMake with ⟨-, rfl⟩
  rfl

/-
  There are as many fillers as the events
  of the emission need.
-/
theorem length_fillers_emission
    {s t : Schedule}
    {a : Action}
    {e : Emission}
    (hEmission : s.emission channel a = .ok (e, t)) :
    e.fillers.length = fillerCount (deltaSum e.events) := by
  rcases deltaSum_emission hEmission with ⟨hTick, -⟩
  rcases emission_eq_ok hEmission with ⟨-, hLength, -, -, rfl⟩
  rw [hLength]
  congr 1
  simp only at hTick
  omega

/-
  Behind an emission, the last tempo is
  that of its schedule.
-/
theorem lastQuarter?_emission
    {s t : Schedule}
    {a : Action}
    {e : Emission}
    {past : List MidiEvent}
    (hPast : lastQuarter? past = some s.tempo)
    (hEmission : s.emission channel a = .ok (e, t)) :
    lastQuarter? (past ++ e.events) = some t.tempo := by
  have hFillers :=
    lastQuarter?_append_of_repeats hPast fun filler hFiller =>
      (fillers_emission hEmission filler hFiller).2
  rcases emission_eq_ok hEmission with ⟨-, -, -, hOwn, rfl⟩
  rw [Emission.events, ← List.append_assoc,
    lastQuarter?_concat, quarter?_event hOwn, hFillers]
  cases a.act <;> rfl

/-
  Behind emissions the last tempo of their
  events is the one in force.
-/
theorem lastQuarter?_emissions
    {s t : Schedule}
    {as : List Action}
    {es : List Emission}
    {past : List MidiEvent}
    (hPast : lastQuarter? past = some s.tempo)
    (hEmissions : s.emissions channel as = .ok (es, t)) :
    lastQuarter? (past ++ es.flatMap Emission.events) =
        some t.tempo ∧
      t.tempo = quarterAfterActions s.tempo as := by
  induction as generalizing s es past with
  | nil =>
      rcases emissions_nil_eq_ok hEmissions with ⟨rfl, rfl⟩
      refine ⟨?_, rfl⟩
      simpa using hPast
  | cons a as ih =>
      rcases emissions_cons_eq_ok hEmissions with
        ⟨first, u, more, hFirst, hMore, rfl⟩
      rcases ih (lastQuarter?_emission hPast hFirst)
          hMore with
        ⟨hLast, hTempo⟩
      rcases emission_eq_ok hFirst with ⟨-, -, -, -, rfl⟩
      rw [List.flatMap_cons, ← List.append_assoc]
      exact ⟨hLast, hTempo⟩

end Schedule

------------------------------------------------------------
-- Tempos of performances
------------------------------------------------------------

/-
  Where an event stands among those of emissions: it is one of
  the fillers of an emission, or its own event behind them.
-/
theorem exists_emission_of_split
    {es : List Emission}
    {earlier later : List MidiEvent}
    {e : MidiEvent}
    (hSplit :
      es.flatMap Emission.events = earlier ++ e :: later) :
    ∃ before em after part,
      es = before ++ em :: after ∧
        earlier = before.flatMap Emission.events ++ part ∧
        ((∃ rest, em.fillers = part ++ e :: rest) ∨
          e = em.own ∧ part = em.fillers) := by
  induction es generalizing earlier with
  | nil =>
      simp at hSplit
  | cons first es ih =>
      rw [List.flatMap_cons, Emission.events,
        List.append_assoc, List.singleton_append,
        List.append_eq_append_iff] at hSplit
      rcases hSplit with
        ⟨past, rfl, hRest⟩ | ⟨part, hFillers, hRest⟩
      · cases past with
        | nil =>
            rcases List.cons.inj hRest with ⟨rfl, -⟩
            exact ⟨[], first, es, first.fillers, rfl,
              by simp, Or.inr ⟨rfl, rfl⟩⟩
        | cons own past =>
            rcases List.cons.inj hRest with ⟨rfl, hPast⟩
            rcases ih hPast with
              ⟨before, em, after, part, rfl, rfl, hStands⟩
            exact ⟨first :: before, em, after, part, rfl,
              by simp [Emission.events], hStands⟩
      · cases part with
        | nil =>
            rcases List.cons.inj hRest with ⟨rfl, -⟩
            rw [List.append_nil] at hFillers
            exact ⟨[], first, es, earlier, rfl, rfl,
              Or.inr ⟨rfl, hFillers.symm⟩⟩
        | cons filler part =>
            rcases List.cons.inj hRest with ⟨rfl, -⟩
            exact ⟨[], first, es, earlier, rfl, rfl,
              Or.inl ⟨part, hFillers⟩⟩

namespace Performance

variable {settings : AudioSettings}
variable {s : Score}
variable {perf : Performance}
variable {done : List (Moment × List Action)}
variable {last : Player}

/-
  Behind some of the emissions of a performance the schedule
  has the tempo that their actions set, and their events set
  that tempo last.
-/
theorem Renders.schedule_of_split
    (hRenders : perf.Renders settings s done last)
    {before after : List Emission}
    (hSplit : perf.emissions = before ++ after)
    (hBefore : before ≠ []) :
    ∃ u v : Schedule,
      u.emissions settings.channel
            (after.map Emission.action) =
          .ok (after, v) ∧
        u.tempo =
          quarterAfterActions (Player.start settings).tempo
            (before.map Emission.action) ∧
        lastQuarter? (before.flatMap Emission.events) =
          some u.tempo := by
  rcases hRenders.schedule with ⟨t, hSchedule⟩
  have hActions := Schedule.map_action_emissions hSchedule
  rw [hSplit] at hSchedule hActions
  rcases Schedule.emissions_split hSchedule with
    ⟨u, hThrough, hRest⟩
  cases before with
  | nil =>
      exact absurd rfl hBefore
  | cons opening before =>
      rcases Schedule.emissions_cons_eq_ok hThrough with
        ⟨first, w, more, hOpening, hMore, hSame⟩
      rcases List.cons.inj hSame with ⟨rfl, rfl⟩
      have hAction :
          opening.action =
            ⟨0, .tempo (Player.start settings).tempo⟩ :=
        (List.cons.inj hActions).1
      rw [hAction] at hOpening
      rcases Schedule.emission_at_start rfl rfl
          hOpening with
        ⟨hEvents, hOwn, -⟩
      have hFirstTempo :
          lastQuarter? opening.events = some w.tempo := by
        rw [hEvents, ← List.nil_append [opening.own],
          lastQuarter?_concat, Schedule.quarter?_event hOwn,
          (Schedule.emission_eq_ok hOpening).2.2.2.2]
        rfl
      rcases Schedule.lastQuarter?_emissions hFirstTempo
          hMore with
        ⟨hLast, hTempo⟩
      refine ⟨u, t, hRest, ?_, ?_⟩
      · rw [hTempo,
          (Schedule.emission_eq_ok hOpening).2.2.2.2,
          List.map_cons, hAction]
        rfl
      · rw [List.flatMap_cons, hLast]

/-
  An emission among those of a performance comes from a
  schedule with the tempo that the actions before it set, and
  the events before it set that tempo last.  Only the first
  emission has no events before it; it sets the tempo that the
  schedule starts with.
-/
theorem Renders.emission_of_split
    (hRenders : perf.Renders settings s done last)
    {before after : List Emission}
    {em : Emission}
    (hSplit : perf.emissions = before ++ em :: after) :
    ∃ u v : Schedule,
      u.emission settings.channel em.action = .ok (em, v) ∧
        u.tempo =
          quarterAfterActions (Player.start settings).tempo
            (before.map Emission.action) ∧
        (before = [] ∧ em.fillers = [] ∨
          before ≠ [] ∧
            lastQuarter? (before.flatMap Emission.events) =
              some u.tempo) := by
  by_cases hBefore : before = []
  · subst hBefore
    rcases hRenders.schedule with ⟨t, hSchedule⟩
    have hActions := Schedule.map_action_emissions hSchedule
    rw [hSplit] at hSchedule hActions
    rw [← hActions] at hSchedule
    rcases Schedule.emissions_cons_eq_ok hSchedule with
      ⟨first, v, more, hFirst, -, hSame⟩
    rcases List.cons.inj hSame with ⟨rfl, -⟩
    have hTime : em.action.time = 0 := by
      rw [(List.cons.inj hActions).1]
      rfl
    have hStart :=
      (Schedule.emission_at_start hTime rfl hFirst).1
    refine ⟨_, v, hFirst, rfl, Or.inl ⟨rfl, ?_⟩⟩
    simpa [Emission.events] using hStart
  · rcases hRenders.schedule_of_split hSplit hBefore with
      ⟨u, t, hRest, hTempo, hLast⟩
    rcases Schedule.emissions_cons_eq_ok hRest with
      ⟨first, v, more, hFirst, -, hSame⟩
    rcases List.cons.inj hSame with ⟨rfl, -⟩
    exact ⟨u, v, hFirst, hTempo, Or.inr ⟨hBefore, hLast⟩⟩

/-
  The last tempo before an own event is the one that the
  actions so far set.
-/
theorem Renders.lastQuarter?_before_own
    (hRenders : perf.Renders settings s done last)
    {before after : List Emission}
    {em : Emission}
    (hSplit : perf.emissions = before ++ em :: after)
    (hBefore : before ≠ []) :
    lastQuarter?
        (before.flatMap Emission.events ++ em.fillers) =
      some
        (quarterAfterActions (Player.start settings).tempo
          (before.map Emission.action)) := by
  rcases hRenders.emission_of_split hSplit with
    ⟨u, v, hEmission, hTempo, hPast⟩
  rw [← hTempo]
  apply lastQuarter?_append_of_repeats
    (hPast.resolve_left fun hNil => hBefore hNil.1).2
  exact fun filler hFiller =>
    (Schedule.fillers_emission hEmission filler hFiller).2

/-
  Only the first emission sets the tempo
  that is in force already.
-/
theorem Renders.quarter?_ne_of_split
    (hRenders : perf.Renders settings s done last)
    {before after : List Emission}
    {em : Emission}
    (hSplit : perf.emissions = before ++ em :: after)
    (hBefore : before ≠ []) :
    em.action.act.quarter? ≠
      some
        (quarterAfterActions (Player.start settings).tempo
          (before.map Emission.action)) := by
  rcases hRenders.schedule with ⟨t, hSchedule⟩
  rcases (Player.paced_start settings).moments
      hRenders.run with
    ⟨-, -, hRenewing⟩
  have hReleases :
      ∀ tempo, Renewing tempo last.silence.1 := by
    intro tempo
    apply (quarterAfterActions_of_plain _).2
    intro a hAction
    rcases List.mem_map.mp hAction with ⟨note, -, rfl⟩
    rfl
  have hActions := Schedule.map_action_emissions hSchedule
  cases before with
  | nil =>
      exact absurd rfl hBefore
  | cons first before =>
      rw [hSplit] at hActions
      rcases List.cons.inj hActions with ⟨hFirst, hRest⟩
      have hAll :
          Renewing (Player.start settings).tempo
            ((before ++ em :: after).map Emission.action) := by
        rw [show (before ++ em :: after).map
            Emission.action =
          _ from hRest]
        exact ⟨nofun,
          renewing_append.mpr ⟨hRenewing, hReleases _⟩⟩
      rw [List.map_append, renewing_append] at hAll
      rw [List.map_cons, hFirst]
      exact hAll.2.1

/- Something is emitted before the first moment. -/
theorem Renders.emissionsThrough_ne_nil
    (hRenders : perf.Renders settings s done last)
    (k : Nat) :
    perf.emissionsThrough k ≠ [] := by
  intro hNil
  have hThrough := hRenders.map_action_emissionsThrough k
  rw [hNil] at hThrough
  cases hThrough

/-
  The actions up to `k` moments set the tempo that the
  directives among them come to.
-/
theorem Renders.quarterAfterActions_through
    (hRenders : perf.Renders settings s done last)
    (k : Nat) :
    quarterAfterActions (Player.start settings).tempo
        ((perf.emissionsThrough k).map Emission.action) =
      settings.quarterAfter
        ((s.moments.take k).filterMap
          Moment.directive?) := by
  rcases Player.moments_take hRenders.run k with ⟨r, hRun⟩
  rcases (Player.paced_start settings).moments hRun with
    ⟨hPaced, hAfter, -⟩
  rw [List.nil_append] at hPaced
  rw [← hPaced.tempo_eq, ← hAfter,
    hRenders.map_action_emissionsThrough,
    quarterAfterActions_append]
  rfl

/-
  The last tempo in the events up to `k` moments is the one
  that the directives among these moments have come to.
-/
theorem Renders.lastQuarter?_eventsThrough
    (hRenders : perf.Renders settings s done last)
    (k : Nat) :
    lastQuarter? (perf.eventsThrough k) =
      some
        (settings.quarterAfter
          ((s.moments.take k).filterMap
            Moment.directive?)) := by
  rcases perf.exists_emissions_eq k with ⟨later, hLater⟩
  rcases hRenders.schedule_of_split hLater
    (hRenders.emissionsThrough_ne_nil k) with
    ⟨u, v, -, hTempo, hLast⟩
  rw [eventsThrough, hLast, hTempo,
    hRenders.quarterAfterActions_through]

/-
  If no tempo is set between `k` moments and an emission, its
  own event finds the tempo that the directives among these
  moments have come to.
-/
theorem Renders.lastQuarter?_behind_moments
    (hRenders : perf.Renders settings s done last)
    {k : Nat}
    {before after : List Emission}
    {em : Emission}
    (hSplit :
      perf.emissions =
        perf.emissionsThrough k ++ before ++ em :: after)
    (hPlain : ∀ e ∈ before, e.action.act.quarter? = none) :
    lastQuarter?
        (perf.eventsThrough k ++
          (before.flatMap Emission.events ++ em.fillers)) =
      some
        (settings.quarterAfter
          ((s.moments.take k).filterMap
            Moment.directive?)) := by
  have hOpened : perf.emissionsThrough k ++ before ≠ [] := by
    intro hNil
    exact hRenders.emissionsThrough_ne_nil k
      (List.append_eq_nil_iff.mp hNil).1
  have hStays (tempo : Int) :
      quarterAfterActions tempo
          (before.map Emission.action) =
        tempo := by
    apply (quarterAfterActions_of_plain _).1
    intro a hAction
    rcases List.mem_map.mp hAction with ⟨e, hEmission, rfl⟩
    exact hPlain e hEmission
  have hLast := hRenders.lastQuarter?_before_own hSplit hOpened
  rw [List.map_append, quarterAfterActions_append, hStays,
    hRenders.quarterAfterActions_through] at hLast
  rw [← hLast, eventsThrough]
  simp only [List.flatMap_append, List.append_assoc]

/-
  Every event that sets no tempo finds the tempo in force: the
  last tempo before it is what the directives of the moments
  before it have come to.
-/
structure TellsTempo
    (settings : AudioSettings)
    (perf : Performance) : Prop where
  opening :
    ∀ earlier e later,
      perf.opening.flatMap Emission.events =
          earlier ++ e :: later →
        e.quarter? = none →
        lastQuarter? earlier =
          some (settings.quarterAfter [])
  passages :
    ∀ before passage after earlier e later,
      perf.passages = before ++ passage :: after →
        passage.emissions.flatMap Emission.events =
          earlier ++ e :: later →
        e.quarter? = none →
        lastQuarter?
            (perf.eventsThrough before.length ++ earlier) =
          some
            (settings.quarterAfter
              (before.filterMap fun p =>
                p.moment.directive?))
  closing :
    ∀ earlier e later,
      perf.closing.flatMap Emission.events =
          earlier ++ e :: later →
        e.quarter? = none →
        lastQuarter?
            (perf.eventsThrough perf.passages.length ++
              earlier) =
          some
            (settings.quarterAfter
              (perf.passages.filterMap fun p =>
                p.moment.directive?))

/-
  An event that sets no tempo is the own event of an action
  that sets none.
-/
theorem Renders.own_of_quarter?_eq_none
    (hRenders : perf.Renders settings s done last)
    {es : List Emission}
    (hEmissions : ∀ em ∈ es, em ∈ perf.emissions)
    {earlier later : List MidiEvent}
    {e : MidiEvent}
    (hSplit :
      es.flatMap Emission.events = earlier ++ e :: later)
    (hPlain : e.quarter? = none) :
    ∃ before em after,
      es = before ++ em :: after ∧
        em.action.act.quarter? = none ∧
        earlier =
          before.flatMap Emission.events ++ em.fillers := by
  rcases exists_emission_of_split hSplit with
    ⟨before, em, after, part, rfl, hEarlier, hStands⟩
  rcases hRenders.schedule with ⟨t, hSchedule⟩
  rcases Schedule.exists_emission_of_mem hSchedule
    (hEmissions em (by simp)) with
    ⟨u, v, hEmission⟩
  rcases hStands with ⟨rest, hFillers⟩ | ⟨rfl, rfl⟩
  · rw [(Schedule.fillers_emission hEmission e
      (by simp [hFillers])).2] at hPlain
    cases hPlain
  · refine ⟨before, em, after, rfl, ?_, hEarlier⟩
    rw [← hPlain,
      Schedule.quarter?_event
        (Schedule.emission_eq_ok hEmission).2.2.2.1]

/-
  Within a stretch of emissions behind `k` moments, either all
  of which set the tempo or none does, an event that sets no
  tempo finds the one that these moments have come to.
-/
theorem Renders.lastQuarter?_in_stretch
    (hRenders : perf.Renders settings s done last)
    {k : Nat}
    {es rest : List Emission}
    (hStretch :
      perf.emissions = perf.emissionsThrough k ++ es ++ rest)
    (hAlike :
      (∀ em ∈ es, em.action.act.quarter? = none) ∨
        ∀ em ∈ es, em.action.act.quarter? ≠ none)
    {earlier later : List MidiEvent}
    {e : MidiEvent}
    (hEvents :
      es.flatMap Emission.events = earlier ++ e :: later)
    (hPlain : e.quarter? = none) :
    lastQuarter? (perf.eventsThrough k ++ earlier) =
      some
        (settings.quarterAfter
          ((s.moments.take k).filterMap
            Moment.directive?)) := by
  have hMembers : ∀ em ∈ es, em ∈ perf.emissions := by
    intro em hEmission
    rw [hStretch, List.append_assoc]
    exact
      List.mem_append_right _
        (List.mem_append_left _ hEmission)
  rcases hRenders.own_of_quarter?_eq_none hMembers hEvents
      hPlain with
    ⟨before, em, after, rfl, hAct, rfl⟩
  have hSplit :
      perf.emissions =
        perf.emissionsThrough k ++ before ++
          em :: (after ++ rest) := by
    rw [hStretch]
    simp only [List.append_assoc, List.cons_append]
  rcases hAlike with hNone | hTempos
  · apply hRenders.lastQuarter?_behind_moments hSplit
    intro other hOther
    exact hNone other (List.mem_append_left _ hOther)
  · exact absurd hAct (hTempos em (by simp))

/-
  Only the tempo at the start is set
  before the first moment.
-/
theorem Renders.lastQuarter?_in_opening
    (hRenders : perf.Renders settings s done last)
    {earlier later : List MidiEvent}
    {e : MidiEvent}
    (hEvents :
      perf.opening.flatMap Emission.events =
        earlier ++ e :: later)
    (hPlain : e.quarter? = none) :
    lastQuarter? earlier =
      some (settings.quarterAfter []) := by
  have hMembers :
      ∀ em ∈ perf.opening, em ∈ perf.emissions := by
    intro em hEmission
    simp [emissions, hEmission]
  rcases hRenders.own_of_quarter?_eq_none hMembers hEvents
      hPlain with
    ⟨before, em, after, hOpening, hAct, rfl⟩
  have hSplit :
      perf.emissions =
        before ++
          em ::
            (after ++
              perf.passages.flatMap Passage.emissions ++
              perf.closing) := by
    simp [emissions, hOpening]
  have hActions := hRenders.opening
  rw [hOpening] at hActions
  cases before with
  | nil =>
      rw [(List.cons.inj hActions).1] at hAct
      cases hAct
  | cons first before =>
      rcases List.cons.inj hActions with ⟨hFirst, hRest⟩
      have hLength : (before ++ em :: after).length = 1 := by
        rw [← List.length_map,
          show (before ++ em :: after).map
            Emission.action = _ from hRest]
        rfl
      have hBefore : before = [] := by
        rw [List.length_append, List.length_cons] at hLength
        exact List.length_eq_zero_iff.mp (by omega)
      subst hBefore
      rw [hRenders.lastQuarter?_before_own hSplit
        (List.cons_ne_nil _ _), List.map_cons, hFirst]
      rfl

/- In a passage the tempo is that of the moments before it. -/
theorem Renders.lastQuarter?_in_passage
    (hRenders : perf.Renders settings s done last)
    {before after : List Passage}
    {passage : Passage}
    (hPassages :
      perf.passages = before ++ passage :: after)
    {earlier later : List MidiEvent}
    {e : MidiEvent}
    (hEvents :
      passage.emissions.flatMap Emission.events =
        earlier ++ e :: later)
    (hPlain : e.quarter? = none) :
    lastQuarter?
        (perf.eventsThrough before.length ++ earlier) =
      some
        (settings.quarterAfter
          (before.filterMap fun p =>
            p.moment.directive?)) := by
  have hStretch :
      perf.emissions =
        perf.emissionsThrough before.length ++
          passage.emissions ++
          (after.flatMap Passage.emissions ++
            perf.closing) := by
    simp [emissions, emissionsThrough, hPassages]
  have hMember : passage ∈ perf.passages := by
    simp [hPassages]
  have hAlike :
      (∀ em ∈ passage.emissions,
          em.action.act.quarter? = none) ∨
        ∀ em ∈ passage.emissions,
          em.action.act.quarter? ≠ none := by
    have hDone :=
      Player.plain_or_tempos_of_mem_moments hRenders.run _
        (hRenders.mem_done hMember)
    simpa only [List.forall_mem_map] using hDone
  have hMoments :
      s.moments.take before.length =
        before.map Passage.moment := by
    rw [← hRenders.map_moment, hPassages]
    simp
  rw [hRenders.lastQuarter?_in_stretch hStretch hAlike
    hEvents hPlain, hMoments, List.filterMap_map]
  rfl

/- At the end the tempo is that of all moments. -/
theorem Renders.lastQuarter?_in_closing
    (hRenders : perf.Renders settings s done last)
    {earlier later : List MidiEvent}
    {e : MidiEvent}
    (hEvents :
      perf.closing.flatMap Emission.events =
        earlier ++ e :: later)
    (hPlain : e.quarter? = none) :
    lastQuarter?
        (perf.eventsThrough perf.passages.length ++
          earlier) =
      some
        (settings.quarterAfter
          (perf.passages.filterMap fun p =>
            p.moment.directive?)) := by
  have hStretch :
      perf.emissions =
        perf.emissionsThrough perf.passages.length ++
          perf.closing ++ [] := by
    simp [emissions, emissionsThrough]
  have hReleases :
      ∀ em ∈ perf.closing,
        em.action.act.quarter? = none := by
    intro em hEmission
    have hAction : em.action ∈ last.silence.1 := by
      rw [← hRenders.closing]
      exact List.mem_map_of_mem hEmission
    rcases List.mem_map.mp hAction with
      ⟨note, -, hRelease⟩
    rw [← hRelease]
    rfl
  have hMoments :
      s.moments.take perf.passages.length =
        perf.passages.map Passage.moment := by
    rw [← hRenders.map_moment,
      List.take_of_length_le (by simp)]
  rw [hRenders.lastQuarter?_in_stretch hStretch
    (.inl hReleases) hEvents hPlain, hMoments,
    List.filterMap_map]
  rfl

/- The events of a performance find the tempo in force. -/
theorem Renders.tellsTempo
    (hRenders : perf.Renders settings s done last) :
    perf.TellsTempo settings where
  opening _ _ _ hEvents hPlain :=
    hRenders.lastQuarter?_in_opening hEvents hPlain
  passages _ _ _ _ _ _ hPassages hEvents hPlain :=
    hRenders.lastQuarter?_in_passage hPassages hEvents hPlain
  closing _ _ _ hEvents hPlain :=
    hRenders.lastQuarter?_in_closing hEvents hPlain

/-
  How tempos are set around an emission: its fillers repeat the
  last tempo for as long as one event can wait, just as many
  times as the distance to its own event needs, and its own
  event sets a tempo if its action does, which is then the
  first of all or another than the last.
-/
structure SetsTempo
    (before : List Emission)
    (em : Emission) : Prop where
  fillers :
    ∀ filler ∈ em.fillers,
      filler.delta = Midi.maxQuantity ∧
        ∃ quarter,
          filler.quarter? = some quarter ∧
            lastQuarter? (before.flatMap Emission.events) =
              some quarter
  count :
    IsLeast
      {n :
        Nat |
          deltaSum em.events ≤ (n + 1) * Midi.maxQuantity}
      em.fillers.length
  distance :
    (deltaSum ((before ++ [em]).flatMap Emission.events) :
        Int) =
      roundHalfEven em.action.time
  own : em.own.quarter? = em.action.act.quarter?
  renews :
    ∀ quarter,
      em.own.quarter? = some quarter →
        before = [] ∨
          lastQuarter? (before.flatMap Emission.events) ≠
            some quarter

/-
  In a performance, tempos are set as they should be around
  each emission.
-/
theorem Renders.setsTempo
    (hRenders : perf.Renders settings s done last)
    {before after : List Emission}
    {em : Emission}
    (hSplit : perf.emissions = before ++ em :: after) :
    SetsTempo before em := by
  rcases hRenders.emission_of_split hSplit with
    ⟨u, v, hEmission, hTempo, hPast⟩
  have hOwn :=
    Schedule.quarter?_event
      (Schedule.emission_eq_ok hEmission).2.2.2.1
  refine
    { fillers := ?_
      count := ?_
      distance := hRenders.deltaSum_through hSplit
      own := hOwn
      renews := ?_ }
  · intro filler hFiller
    rcases Schedule.fillers_emission hEmission filler
        hFiller with
      ⟨hDelta, hRepeats⟩
    rcases hPast with ⟨-, hNone⟩ | ⟨-, hLast⟩
    · rw [hNone] at hFiller
      cases hFiller
    · exact ⟨hDelta, u.tempo, hRepeats, hLast⟩
  · rw [Schedule.length_fillers_emission hEmission]
    exact isLeast_fillerCount
  · intro quarter hSets
    rcases hPast with ⟨hNil, -⟩ | ⟨hBefore, hLast⟩
    · exact Or.inl hNil
    · right
      rw [hLast, hTempo, ← hSets, hOwn]
      exact (hRenders.quarter?_ne_of_split hSplit hBefore).symm

/-
  An event that sets a tempo sets another than the last, but
  for the first of all and those that fill a distance.
-/
theorem Renders.renews
    (hRenders : perf.Renders settings s done last)
    {earlier later : List MidiEvent}
    {e : MidiEvent}
    {quarter : Int}
    (hSplit : perf.events = earlier ++ e :: later)
    (hSets : e.quarter? = some quarter) :
    earlier = [] ∨
      lastQuarter? earlier ≠ some quarter ∨
      lastQuarter? earlier = some quarter ∧
        e.delta = Midi.maxQuantity := by
  rcases exists_emission_of_split hSplit with
    ⟨before, em, after, part, hEmissions, rfl, hStands⟩
  rcases hRenders.emission_of_split hEmissions with
    ⟨u, v, hEmission, hTempo, hPast⟩
  have hFillers := Schedule.fillers_emission hEmission
  rcases hPast with ⟨rfl, hNone⟩ | ⟨hBefore, hLast⟩
  · left
    rw [hNone] at hStands
    rcases hStands with ⟨rest, hSome⟩ | ⟨-, rfl⟩
    · simp at hSome
    · rfl
  · have hPart :
        ∀ filler ∈ part,
          filler.quarter? = some u.tempo := by
      intro filler hMember
      apply (hFillers filler _).2
      rcases hStands with ⟨rest, hSome⟩ | ⟨-, rfl⟩
      · simp [hSome, hMember]
      · exact hMember
    rw [lastQuarter?_append_of_repeats hLast hPart]
    right
    rcases hStands with ⟨rest, hSome⟩ | ⟨rfl, -⟩
    · right
      rcases hFillers e (by simp [hSome]) with
        ⟨hDelta, hRepeats⟩
      exact ⟨by rw [← hRepeats, hSets], hDelta⟩
    · left
      rw [← hSets, hTempo,
        Schedule.quarter?_event
          (Schedule.emission_eq_ok hEmission).2.2.2.1]
      exact (hRenders.quarter?_ne_of_split hEmissions
        hBefore).symm

end Performance

------------------------------------------------------------
-- Scores
------------------------------------------------------------

/-
  The tempo track.  The directives and subdivisions of a score
  are met in the order of its lyric streams, and every event
  that sets no tempo finds the tempo that the directives met
  before have come to.  An event that sets a tempo is the
  first, or sets another than the last, or fills a distance;
  and as many events fill a distance as it takes.
-/
theorem Score.tempos_are_those_in_force
    {settings : AudioSettings}
    {s : Score}
    {events : List MidiEvent}
    (hEvents : s.events settings = .ok events) :
    s.moments.filterMap Moment.step? =
        s.blocks.flatMap (fun b =>
          b.lyricStream.flatMap LyricItem.steps) ∧
      ∃ perf,
        s.performance settings = .ok perf ∧
          perf.events = events ∧
          perf.passages.map Passage.moment = s.moments ∧
          s.actions settings =
            .ok (perf.emissions.map Emission.action) ∧
          perf.TellsTempo settings ∧
          (∀ before em after,
            perf.emissions = before ++ em :: after →
              Performance.SetsTempo before em) ∧
          ∀ before e after quarter,
            events = before ++ e :: after →
              e.quarter? = some quarter →
              before = [] ∨
                lastQuarter? before ≠ some quarter ∨
                lastQuarter? before = some quarter ∧
                  e.delta = Midi.maxQuantity := by
  refine ⟨s.steps_moments, ?_⟩
  rcases Score.performance_of_events hEvents with
    ⟨perf, hPerformance, rfl⟩
  rcases Score.performance_eq_ok hPerformance with
    ⟨done, last, hRenders⟩
  refine ⟨perf, hPerformance, rfl, hRenders.map_moment, ?_,
    hRenders.tellsTempo,
    fun before em after hSplit => hRenders.setsTempo hSplit,
    ?_⟩
  · rcases hRenders.schedule with ⟨t, hSchedule⟩
    rw [Score.actions_eq_moments, hRenders.run,
      Schedule.map_action_emissions hSchedule]
    rfl
  · exact fun before e after quarter hSplit hSets =>
      hRenders.renews hSplit hSets

/-
  A score with a beat that lasts longer than two events can
  wait, behind which the note value changes; the second block
  asks for the tempo that is in force.
-/
def Score.unhurried : Score where
  blocks := [
    { lyricLines := [
        { directives := [⟨.tempo 60, {}⟩]
          measures := [
            { beats := [
                { elements := [
                    .subdivision
                      ⟨.syllable, "1200000la", {}⟩] },
                { elements := [
                    .directive ⟨.beatUnit "8", {}⟩,
                    .subdivision ⟨.hyphen, "-", {}⟩] }] }] }]
      pitchLines := [
        { measures := [
            { elements := [.pitch { letter := .c }] }] }] },
    { lyricLines := [
        { directives := [⟨.tempo 60, {}⟩]
          measures := [
            { beats := [
                { elements := [
                    .subdivision ⟨.rest, "_", {}⟩] }] }] }] }]

/-
  Its tempos: the one at the start, one that is set, fillers
  that repeat it, and another.
-/
theorem Score.unhurried_sets_tempos :
    ∃ events perf,
      unhurried.events {} = .ok events ∧
        unhurried.performance {} = .ok perf ∧
        perf.events = events ∧
        perf.TellsTempo {} ∧
        (events.filterMap fun e =>
            e.quarter?.map fun quarter =>
              (e.delta, quarter)) =
          [(0, 500000), (0, 1000000), (0x0FFFFFFF, 1000000),
            (0x0FFFFFFF, 1000000),
            (576000000 - 2 * 0x0FFFFFFF, 2000000)] := by
  have hOk : (unhurried.events {}).isOk = true := by
    decide +kernel
  rcases Outcome.exists_eq_ok hOk with ⟨events, hEvents⟩
  rcases Score.tempos_are_those_in_force hEvents with
    ⟨-, perf, hPerformance, hSame, -, -, hTells, -, -⟩
  have hTempos :
      (unhurried.events {}).map
          (List.filterMap fun e =>
            e.quarter?.map fun quarter =>
              (e.delta, quarter)) =
        .ok
          [(0, 500000), (0, 1000000), (0x0FFFFFFF, 1000000),
            (0x0FFFFFFF, 1000000),
            (576000000 - 2 * 0x0FFFFFFF, 2000000)] := by
    decide +kernel
  rw [hEvents, Outcome.map_ok, Except.ok.injEq] at hTempos
  exact ⟨events, perf, hEvents, hPerformance, hSame, hTells,
    hTempos⟩

end LyricScore
