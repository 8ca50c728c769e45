import Mathlib.Algebra.Order.Field.Rat
import Mathlib.Tactic.FieldSimp
import Mathlib.Tactic.Linarith
import Mathlib.Tactic.Positivity
import Mathlib.Tactic.Ring
import LyricScore.Proofs.Performance.Moment
import LyricScore.Proofs.Timing.Tempo

/-
  This file carries a clock from moment to moment.  On one
  side a player keeps it: all that is done at a moment is done
  at its time.  On the other side the time of a part is the
  start of its beat and a share of the length of that beat.

  Key definitions include:
    * `BeatClock.pass`
    * `BeatClock.timeline`
    * `Player.Keeps`
    * `PartsInTime`
    * `Part.place`, `TimedBeat.places`

  Key theorems include:
    * `BeatClock.le_of_mem_timeline`
    * `Player.Keeps.moments`
    * `BeatClock.cues_in_time`
    * `Score.parts_in_time`
    * `Score.places_moments`
-/

namespace LyricScore

------------------------------------------------------------
-- Clocks
------------------------------------------------------------

namespace BeatClock

/- The clock behind a moment. -/
def pass
    (ticksPerQuarter : Int)
    (c : BeatClock) : Moment → BeatClock
  | .directive d => c.follow d
  | .barline _ => c
  | .part p =>
    { c with
      now :=
        c.now +
          BeatUnit.quarters c.unit * ticksPerQuarter *
            p.beat.units / p.count }

/- The clock behind moments. -/
def passAll
    (ticksPerQuarter : Int)
    (c : BeatClock)
    (ms : List Moment) : BeatClock :=
  ms.foldl (pass ticksPerQuarter) c

/- Moments with the times at which they are met. -/
def timeline
    (ticksPerQuarter : Int)
    (c : BeatClock) : List Moment → List (Moment × Rat)
  | [] => []
  | m :: rest =>
      (m, c.now) ::
        timeline ticksPerQuarter
          (c.pass ticksPerQuarter m) rest

variable {ticksPerQuarter : Int}

theorem passAll_append
    (c : BeatClock)
    (ms more : List Moment) :
    c.passAll ticksPerQuarter (ms ++ more) =
      (c.passAll ticksPerQuarter ms).passAll ticksPerQuarter
        more := by
  simp [passAll]

theorem timeline_append
    (c : BeatClock)
    (ms more : List Moment) :
    c.timeline ticksPerQuarter (ms ++ more) =
      c.timeline ticksPerQuarter ms ++
        (c.passAll ticksPerQuarter ms).timeline
          ticksPerQuarter more := by
  induction ms generalizing c with
  | nil =>
      rfl
  | cons m ms ih =>
      simp [timeline, ih, passAll]

/- A moment does not turn the clock back. -/
theorem now_le_pass
    (hTicks : 0 ≤ ticksPerQuarter)
    (c : BeatClock)
    (m : Moment) :
    c.now ≤ (c.pass ticksPerQuarter m).now := by
  cases m with
  | directive d =>
      rw [pass, follow_eq]
  | barline measure =>
      rfl
  | part p =>
      have hQuarters := BeatUnit.quarters_pos c.unit
      have hTicksPerQuarter : (0 : Rat) ≤ ticksPerQuarter := by
        exact_mod_cast hTicks
      have hShare :
          0 ≤
            BeatUnit.quarters c.unit * ticksPerQuarter *
              p.beat.units / p.count := by
        positivity
      simp only [pass]
      linarith

theorem now_le_passAll
    (hTicks : 0 ≤ ticksPerQuarter)
    (c : BeatClock)
    (ms : List Moment) :
    c.now ≤ (c.passAll ticksPerQuarter ms).now := by
  induction ms generalizing c with
  | nil =>
      exact le_refl _
  | cons m ms ih =>
      exact (now_le_pass hTicks c m).trans (ih _)

/- No moment is met when the last is over. -/
theorem le_of_mem_timeline
    (hTicks : 0 ≤ ticksPerQuarter)
    {c : BeatClock}
    {ms : List Moment}
    {met : Moment × Rat}
    (hMember : met ∈ c.timeline ticksPerQuarter ms) :
    met.2 ≤ (c.passAll ticksPerQuarter ms).now := by
  induction ms generalizing c with
  | nil =>
      cases hMember
  | cons m ms ih =>
      rcases List.mem_cons.mp hMember with rfl | hMember
      · exact now_le_passAll hTicks c (m :: ms)
      · exact ih hMember

end BeatClock

------------------------------------------------------------
-- Players keep time
------------------------------------------------------------

namespace Player

/- A player and a clock that tell the same time. -/
structure Keeps
    (p : Player)
    (c : BeatClock) : Prop where
  unit : p.unit = c.unit
  now : p.now = c.now

namespace Keeps

variable {ticksPerQuarter : Int}
variable {p q : Player}
variable {c : BeatClock}

/-
  A player goes on like the clock, does everything at the time
  of the moment, and can read the length of every beat.
-/
theorem moment
    (hKeeps : p.Keeps c)
    {m : Moment}
    {done : List Action}
    (hMoment : p.moment ticksPerQuarter m = .ok (done, q)) :
    q.Keeps (c.pass ticksPerQuarter m) ∧
      (∀ a ∈ done, a.time = c.now) ∧
      ∀ part,
        m = .part part →
          part.beat.scale = .ok part.beat.units := by
  cases m with
  | directive d =>
      simp only [Player.moment, Except.ok.injEq] at hMoment
      rcases frame_followLyrics hMoment with ⟨hFrame, hHeard⟩
      refine ⟨?_, ?_, by simp⟩
      · rw [hFrame, BeatClock.pass, BeatClock.follow_eq,
          hKeeps.unit]
        exact ⟨rfl, hKeeps.now⟩
      · intro a hAction
        rcases hHeard a hAction with ⟨tempo, rfl⟩
        exact hKeeps.now
  | barline measure =>
      simp only [Player.moment, Except.ok.injEq,
        Prod.mk.injEq] at hMoment
      rcases hMoment with ⟨rfl, rfl⟩
      exact ⟨hKeeps, by simp, by simp⟩
  | part part =>
      simp only [Player.moment, Outcome.bind_eq_ok,
        Outcome.pure_eq, Except.ok.injEq, Prod.mk.injEq,
        Beat.ticks, Outcome.map_eq_ok] at hMoment
      rcases hMoment with
        ⟨ticks, ⟨scale, ⟨n, hScale, rfl⟩, rfl⟩,
          ⟨sounded, r⟩, hSound, rfl, rfl⟩
      have hUnits := Beat.scale_eq_ok hScale
      subst hUnits
      have hFrame := frame_sound hSound
      refine ⟨?_, ?_, ?_⟩
      · rw [hFrame]
        constructor
        · exact hKeeps.unit
        · simp only [wait, BeatClock.pass, hKeeps.unit,
            hKeeps.now]
      · intro a hAction
        rw [time_of_mem_sound hSound hAction, hKeeps.now]
      · intro other hSame
        cases hSame
        exact hScale

/-
  Along a run the player keeps the time of the clock, and
  each action is done at the time of its moment.
-/
theorem moments
    (hKeeps : p.Keeps c)
    {ms : List Moment}
    {done : List (Moment × List Action)}
    (hRun : p.moments ticksPerQuarter ms = .ok (done, q)) :
    q.Keeps (c.passAll ticksPerQuarter ms) ∧
      (∀ d ∈ done, ∃ time,
        (d.1, time) ∈ c.timeline ticksPerQuarter ms ∧
          ∀ a ∈ d.2, a.time = time) ∧
      ∀ part,
        .part part ∈ ms →
          part.beat.scale = .ok part.beat.units := by
  induction ms generalizing p c done with
  | nil =>
      rcases moments_nil_eq_ok hRun with ⟨rfl, rfl⟩
      exact ⟨hKeeps, by simp, by simp⟩
  | cons m ms ih =>
      rcases moments_cons_eq_ok hRun with
        ⟨first, r, more, hFirst, hMore, rfl⟩
      rcases hKeeps.moment hFirst with ⟨hNext, hTimes, hScale⟩
      rcases ih hNext hMore with ⟨hLast, hLater, hScales⟩
      refine ⟨hLast, ?_, ?_⟩
      · intro d hMember
        rcases List.mem_cons.mp hMember with rfl | hMember
        · exact ⟨c.now, List.mem_cons_self, hTimes⟩
        · rcases hLater d hMember with ⟨time, hMet, hTime⟩
          exact ⟨time, List.mem_cons_of_mem _ hMet, hTime⟩
      · intro part hMember
        rcases List.mem_cons.mp hMember with hSame | hMember
        · exact hScale part hSame.symm
        · exact hScales part hMember

end Keeps

end Player

------------------------------------------------------------
-- Parts in time
------------------------------------------------------------

/-
  Every part of a timeline that begins at `now` belongs to one
  of the beats, and is met when the beats before are over and
  so many shares of its own beat as it has parts before it.
-/
def PartsInTime
    (ticksPerQuarter : Int)
    (now : Rat)
    (beats : List TimedBeat)
    (timeline : List (Moment × Rat)) : Prop :=
  ∀ part time,
    (.part part, time) ∈ timeline →
      ∃ earlier t later,
        beats = earlier ++ t :: later ∧
          t.key = part.key ∧
          t.beat = part.beat ∧
          time =
            now + totalLength ticksPerQuarter earlier +
              part.index * t.length ticksPerQuarter /
                t.beat.subdivisions.length

namespace PartsInTime

variable {ticksPerQuarter : Int}

theorem nil
    (now : Rat) :
    PartsInTime ticksPerQuarter now [] [] := by
  intro part time hMember
  cases hMember

/- Moments that are no parts take no time. -/
theorem skip
    {now : Rat}
    {beats : List TimedBeat}
    {passed timeline : List (Moment × Rat)}
    (hNoPart : ∀ met ∈ passed, met.1.part? = none)
    (hLater : PartsInTime ticksPerQuarter now beats timeline) :
    PartsInTime ticksPerQuarter now beats
      (passed ++ timeline) := by
  intro part time hMember
  rcases List.mem_append.mp hMember with hPassed | hMember
  · exact absurd (hNoPart _ hPassed) (by simp [Moment.part?])
  · exact hLater part time hMember

theorem append
    {now : Rat}
    {beats more : List TimedBeat}
    {timeline later : List (Moment × Rat)}
    (hFirst : PartsInTime ticksPerQuarter now beats timeline)
    (hLater :
      PartsInTime ticksPerQuarter
        (now + totalLength ticksPerQuarter beats) more
        later) :
    PartsInTime ticksPerQuarter now (beats ++ more)
      (timeline ++ later) := by
  intro part time hMember
  rcases List.mem_append.mp hMember with hMember | hMember
  · rcases hFirst part time hMember with
      ⟨earlier, t, rest, rfl, hKey, hBeat, hTime⟩
    exact ⟨earlier, t, rest ++ more, by simp, hKey, hBeat,
      hTime⟩
  · rcases hLater part time hMember with
      ⟨earlier, t, rest, rfl, hKey, hBeat, hTime⟩
    refine ⟨beats ++ earlier, t, rest, by simp, hKey, hBeat, ?_⟩
    rw [hTime, totalLength_append]
    ring

end PartsInTime

namespace BeatClock

variable {ticksPerQuarter : Int}

/-
  The parts of a beat share its length out evenly.  The first
  of the slots here has the index `first` in the beat.
-/
theorem timeline_parts
    (ticksPerQuarter : Int)
    (c : BeatClock)
    (b : Beat)
    (key : BeatKey)
    (count first : Nat)
    (slots : List (Slot Attack)) :
    let share :=
      BeatUnit.quarters c.unit * ticksPerQuarter *
        b.units / count
    c.passAll ticksPerQuarter
          (b.parts key count first slots) =
        { c with now := c.now + slots.length * share } ∧
      ∀ m time,
        (m, time) ∈
            c.timeline ticksPerQuarter
              (b.parts key count first slots) →
          ∃ part,
            m = .part part ∧
              part.key = key ∧
              part.beat = b ∧
              time =
                c.now + (part.index - first) * share := by
  induction slots generalizing c first with
  | nil =>
      simp [Beat.parts_nil, passAll, timeline]
  | cons slot slots ih =>
      intro share
      have hNext :
          c.pass ticksPerQuarter
              (.part ⟨key, first, count, b, slot⟩) =
            { c with now := c.now + share } :=
        rfl
      rcases ih { c with now := c.now + share }
          (first + 1) with
        ⟨hLast, hTimes⟩
      rw [Beat.parts_cons]
      constructor
      · rw [passAll, List.foldl_cons, hNext]
        rw [passAll] at hLast
        rw [hLast]
        simp only [List.length_cons]
        push_cast
        congr 1
        ring
      · intro m time hMember
        rcases List.mem_cons.mp hMember with hSame | hMember
        · cases hSame
          exact ⟨_, rfl, rfl, rfl, by simp⟩
        · rw [hNext] at hMember
          rcases hTimes m time hMember with
            ⟨part, rfl, hKey, hBeat, hTime⟩
          refine ⟨part, rfl, hKey, hBeat, ?_⟩
          rw [hTime]
          push_cast
          ring

/-
  Directives by themselves are followed by
  the clock one by one.
-/
theorem passAll_directives
    (c : BeatClock)
    (ds : List Directive) :
    c.passAll ticksPerQuarter (ds.map .directive) =
      ds.foldl follow c := by
  simp [passAll, List.foldl_map, pass]

/- No part is met at a directive. -/
theorem timeline_directives
    (c : BeatClock)
    (ds : List Directive) :
    ∀ met ∈ c.timeline ticksPerQuarter (ds.map .directive),
      met.1.part? = none := by
  induction ds generalizing c with
  | nil =>
      intro met hMember
      cases hMember
  | cons d ds ih =>
      intro met hMember
      rcases List.mem_cons.mp hMember with rfl | hMember
      · rfl
      · exact ih _ met hMember

/-
  The parts of a rendered beat are in time, and
  last as long as the beat.
-/
theorem parts_in_time
    (c : BeatClock)
    {b : Beat}
    {slots : List (Slot Attack)}
    (hSlots : slots.map Slot.subdivision = b.subdivisions)
    (hRendered : slots ≠ [])
    (key : BeatKey) :
    c.passAll ticksPerQuarter
          (b.parts key slots.length 0 slots) =
        { c with
          now :=
            c.now +
              totalLength ticksPerQuarter
                [⟨key, b, c.unit⟩] } ∧
      PartsInTime ticksPerQuarter c.now [⟨key, b, c.unit⟩]
        (c.timeline ticksPerQuarter
          (b.parts key slots.length 0 slots)) := by
  have hLength : b.subdivisions.length = slots.length := by
    rw [← hSlots, List.length_map]
  have hCount : (slots.length : Rat) ≠ 0 := by
    have hPositive := List.length_pos_iff.mpr hRendered
    exact_mod_cast hPositive.ne'
  rcases timeline_parts ticksPerQuarter c b key slots.length
      0 slots with
    ⟨hLast, hTimes⟩
  constructor
  · rw [hLast, totalLength_cons, totalLength_nil,
      TimedBeat.length]
    congr 2
    field_simp
    ring
  · intro part time hMember
    rcases hTimes _ time hMember with
      ⟨other, hSame, hKey, hBeat, hTime⟩
    cases hSame
    refine ⟨[], ⟨key, b, c.unit⟩, [], rfl, hKey.symm,
      hBeat.symm, ?_⟩
    rw [hTime, totalLength_nil, TimedBeat.length, hLength]
    push_cast
    ring

/-
  Directives before moments set their note
  value, and take no time.
-/
theorem directives_in_time
    (c : BeatClock)
    (ds : List Directive)
    {ms : List Moment}
    {last : BeatClock}
    {beats : List TimedBeat}
    (hLater :
      let d : BeatClock :=
        { c with unit := ds.foldl Directive.unitAfter c.unit }
      d.passAll ticksPerQuarter ms = last ∧
        PartsInTime ticksPerQuarter c.now beats
          (d.timeline ticksPerQuarter ms)) :
    c.passAll ticksPerQuarter
          (ds.map Moment.directive ++ ms) =
        last ∧
      PartsInTime ticksPerQuarter c.now beats
        (c.timeline ticksPerQuarter
          (ds.map Moment.directive ++ ms)) := by
  rcases hLater with ⟨hLast, hTimes⟩
  rw [passAll_append, timeline_append, passAll_directives,
    foldl_follow]
  exact ⟨hLast, .skip (timeline_directives c ds) hTimes⟩

/-
  A rendered beat lasts its length, by the note value that
  its directives ask for.
-/
theorem rendered_beat_in_time
    (c : BeatClock)
    {b : Beat}
    {slots : List (Slot Attack)}
    (hSlots : slots.map Slot.subdivision = b.subdivisions)
    (hRendered : slots ≠ [])
    (key : BeatKey) :
    let unit := b.directives.foldl Directive.unitAfter c.unit
    let ms :=
      b.directives.map Moment.directive ++
        b.parts key slots.length 0 slots
    c.passAll ticksPerQuarter ms =
        { unit := unit
          now :=
            c.now +
              totalLength ticksPerQuarter
                [⟨key, b, unit⟩] } ∧
      PartsInTime ticksPerQuarter c.now [⟨key, b, unit⟩]
        (c.timeline ticksPerQuarter ms) := by
  intro unit ms
  exact directives_in_time c b.directives
    (parts_in_time { c with unit := unit } hSlots hRendered
      key)

/-
  The parts of a block are played in time, and the clock
  ends behind its beats.
-/
theorem cues_in_time
    (block : Int)
    (c : BeatClock)
    (index : Nat)
    (cues : List (Cue Attack))
    (hSlots :
      ∀ cue ∈ cues,
        cue.slots.map Slot.subdivision =
          cue.item.subdivisions) :
    let items := cues.map Cue.item
    let beats := timedItems block c.unit index items
    c.passAll ticksPerQuarter (Cue.moments block index cues) =
        { unit := unitAfterItems c.unit items
          now := c.now + totalLength ticksPerQuarter beats } ∧
      PartsInTime ticksPerQuarter c.now beats
        (c.timeline ticksPerQuarter
          (Cue.moments block index cues)) := by
  induction cues generalizing c index with
  | nil =>
      refine ⟨?_, .nil c.now⟩
      simp [passAll, Cue.moments, timedItems, unitAfterItems]
  | cons cue cues ih =>
      have hRest :=
        fun other hMember =>
          hSlots other (List.mem_cons_of_mem cue hMember)
      cases cue with
      | directive d =>
          exact directives_in_time c [d] (ih _ index hRest)
      | barline measure =>
          rcases ih c index hRest with ⟨hLast, hTimes⟩
          have hPassed :
              ∀ met ∈ [(Moment.barline measure, c.now)],
                met.1.part? = none := by
            simp [Moment.part?]
          exact ⟨hLast, .skip hPassed hTimes⟩
      | beat b slots =>
          have hBeat :
              slots.map Slot.subdivision = b.subdivisions :=
            hSlots (.beat b slots) List.mem_cons_self
          intro items beats
          have hItems :
              items = .beat b :: cues.map Cue.item :=
            rfl
          rw [Cue.moments, hItems, unitAfterItems_beat]
          by_cases hSlotsEmpty : slots = []
          · subst hSlotsEmpty
            have hBeats := timedItems_beat_of_empty block
              c.unit index (cues.map Cue.item) hBeat.symm
            rw [show beats = _ from hBeats, Beat.parts_nil,
              List.append_nil]
            exact directives_in_time c b.directives
              (ih _ index hRest)
          · have hRendered : b.subdivisions ≠ [] := by
              rw [← hBeat]
              simpa using hSlotsEmpty
            have hBeats := timedItems_beat_of_rendered block
              c.unit index (cues.map Cue.item) hRendered
            rcases rendered_beat_in_time c hBeat hSlotsEmpty
                ⟨block, index⟩ with
              ⟨hBeatLast, hBeatTimes⟩
            rcases ih _ (index + 1) hRest with ⟨hLast, hTimes⟩
            rw [passAll_append, timeline_append, hBeatLast,
              show beats = _ from hBeats, if_neg hSlotsEmpty]
            refine ⟨?_, hBeatTimes.append hTimes⟩
            rw [hLast]
            simp only [totalLength_cons, totalLength_nil,
              add_zero, add_assoc]

/-
  The parts of a score are played in time, and the clock
  ends behind its beats.
-/
theorem blocks_in_time
    (c : BeatClock)
    (index : Nat)
    (bs : List Block) :
    let beats := timedBlocks c.unit index bs
    (c.passAll ticksPerQuarter
          (blockMoments index bs)).now =
        c.now + totalLength ticksPerQuarter beats ∧
      PartsInTime ticksPerQuarter c.now beats
        (c.timeline ticksPerQuarter
          (blockMoments index bs)) := by
  induction bs generalizing c index with
  | nil =>
      refine ⟨?_, .nil c.now⟩
      simp [passAll, blockMoments, timedBlocks]
  | cons b bs ih =>
      intro beats
      have hBeats :
          beats =
            timedItems index c.unit 0 b.lyricStream ++
              timedBlocks
                (unitAfterItems c.unit b.lyricStream)
                (index + 1) bs :=
        rfl
      rcases cues_in_time index c 0 b.voices fun cue hCue =>
          Block.subdivisions_of_mem_voices hCue with
        ⟨hFirst, hFirstTimes⟩
      rw [b.map_item_voices] at hFirst hFirstTimes
      rcases ih
        (c.passAll ticksPerQuarter (b.moments index))
        (index + 1) with
        ⟨hLast, hTimes⟩
      rw [blockMoments, passAll_append, timeline_append]
      rw [Block.moments, hFirst] at hLast hTimes ⊢
      refine ⟨?_, hFirstTimes.append hTimes⟩
      rw [hLast, hBeats, totalLength_append, add_assoc]

end BeatClock

/- Every part of a score is in time. -/
theorem Score.parts_in_time
    (s : Score)
    (unit : String)
    (ticksPerQuarter : Int) :
    PartsInTime ticksPerQuarter 0 (s.timedBeats unit)
      (BeatClock.timeline ticksPerQuarter { unit := unit }
        s.moments) :=
  (BeatClock.blocks_in_time { unit := unit } 0 s.blocks).2

/- The moments of a score last as long as its beats. -/
theorem Score.now_passAll_moments
    (s : Score)
    (unit : String)
    (ticksPerQuarter : Int) :
    (BeatClock.passAll ticksPerQuarter { unit := unit }
        s.moments).now =
      totalLength ticksPerQuarter (s.timedBeats unit) := by
  rw [Score.moments,
    (BeatClock.blocks_in_time { unit := unit } 0
      s.blocks).1, zero_add]
  rfl

------------------------------------------------------------
-- Places of parts
------------------------------------------------------------

/- Where a part stands, and its subdivision. -/
def Part.place
    (p : Part) : BeatKey × Beat × Nat × Subdivision :=
  (p.key, p.beat, p.index, p.slot.subdivision)

def Moment.place?
    (m : Moment) :
      Option (BeatKey × Beat × Nat × Subdivision) :=
  m.part?.map Part.place

/- The subdivisions of a beat in their places. -/
def TimedBeat.places
    (t : TimedBeat) :
      List (BeatKey × Beat × Nat × Subdivision) :=
  t.beat.subdivisions.zipIdx.map fun (subdivision, index) =>
    (t.key, t.beat, index, subdivision)

/-
  The parts of a beat have its subdivisions,
  counted from the first.
-/
theorem places_parts
    (b : Beat)
    (key : BeatKey)
    (count first : Nat)
    (slots : List (Slot Attack)) :
    (b.parts key count first slots).filterMap
        Moment.place? =
      ((slots.map Slot.subdivision).zipIdx first).map
        fun (subdivision, index) =>
        (key, b, index, subdivision) := by
  induction slots generalizing first with
  | nil =>
      rfl
  | cons slot slots ih =>
      simp [Beat.parts_cons, List.zipIdx_cons,
        Moment.place?, Moment.part?, Part.place, ih]

/-
  The parts of cues are those of their
  timed beats, in order.
-/
theorem places_cues
    (block : Int)
    (unit : String)
    (index : Nat)
    (cues : List (Cue Attack))
    (hSlots :
      ∀ cue ∈ cues,
        cue.slots.map Slot.subdivision =
          cue.item.subdivisions) :
    (Cue.moments block index cues).filterMap Moment.place? =
      (timedItems block unit index
        (cues.map Cue.item)).flatMap TimedBeat.places := by
  induction cues generalizing unit index with
  | nil =>
      rfl
  | cons cue cues ih =>
      have hRest :=
        fun other hMember =>
          hSlots other (List.mem_cons_of_mem cue hMember)
      cases cue with
      | directive d =>
          exact ih _ index hRest
      | barline measure =>
          exact ih _ index hRest
      | beat b slots =>
          have hBeat :
              slots.map Slot.subdivision = b.subdivisions :=
            hSlots (.beat b slots) List.mem_cons_self
          have hDirectives :
              (b.directives.map Moment.directive).filterMap
                  Moment.place? =
                [] := by
            simp [Moment.place?, Moment.part?]
          rw [Cue.moments, List.filterMap_append,
            List.filterMap_append, hDirectives,
            places_parts, hBeat, List.map_cons, Cue.item,
            timedItems]
          by_cases hSlotsEmpty : slots = []
          · subst hSlotsEmpty
            have hEmpty : b.subdivisions = [] := hBeat.symm
            simp [hEmpty,
              ih
                (b.directives.foldl Directive.unitAfter
                  unit) index hRest]
          · have hRendered : b.subdivisions ≠ [] := by
              rw [← hBeat]
              simpa using hSlotsEmpty
            simp [hSlotsEmpty, hRendered, TimedBeat.places,
              ih
                (b.directives.foldl Directive.unitAfter
                  unit) (index + 1) hRest]

/-
  The parts of a score are the subdivisions of its rendered
  beats, in order.
-/
theorem Score.places_moments
    (s : Score)
    (unit : String) :
    s.moments.filterMap Moment.place? =
      (s.timedBeats unit).flatMap TimedBeat.places := by
  have hBlocks (unit : String) (index : Nat) (bs : List Block) :
      (blockMoments index bs).filterMap Moment.place? =
        (timedBlocks unit index bs).flatMap
          TimedBeat.places := by
    induction bs generalizing unit index with
    | nil =>
        rfl
    | cons b bs ih =>
        have hFirst :=
          places_cues index unit 0 b.voices fun cue hCue =>
            Block.subdivisions_of_mem_voices hCue
        rw [b.map_item_voices] at hFirst
        rw [blockMoments, List.filterMap_append,
          Block.moments, hFirst, timedBlocks,
          List.flatMap_append, ih]
  exact hBlocks unit 0 s.blocks

end LyricScore
