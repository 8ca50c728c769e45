import Mathlib.Tactic.Linarith
import LyricScore.Proofs.BeatKeys

/-
  This file puts the two walks over a lyric stream side by
  side: the tally, whose numbers are drawn, and the clock of
  the beat map.  A meter has both, and is read at each
  rendered beat.  While no barline, pickup or note value comes
  between, the time that goes by is the difference of the
  numbers, counted in beats of the note value in force.

  Key definitions include:
    * `LyricStep`
    * `Block.lyricSteps`
    * `Meter`
    * `Meter.pass`, `Meter.passAll`
    * `Meter.readings`
    * `Score.readings`
    * `LyricStep.IsSteady`

  Key theorems include:
    * `Meter.Agrees.pass`, `Meter.Agrees.passAll`
    * `Cue.counters_figures`
    * `BeatClock.beats_items`
    * `timedItems_eq_readings`
    * `Score.mem_readings`
-/

namespace LyricScore

------------------------------------------------------------
-- Steps of a lyric stream
------------------------------------------------------------

/-
  What a lyric stream comes to: a directive, a barline, or a
  rendered beat.
-/
inductive LyricStep where
  | directive (d : Directive)
  | barline
  | beat (b : Beat)
deriving DecidableEq, Repr

/-
  The steps of an item: those of a beat are its directives,
  and it if it is rendered.
-/
def LyricItem.lyricSteps : LyricItem → List LyricStep
  | directive d => [.directive d]
  | barline _ => [.barline]
  | beat b =>
    b.directives.map .directive ++
      if b.subdivisions = [] then [] else [.beat b]

/- The steps of a block, over all its lyric lines. -/
def Block.lyricSteps
    (b : Block) : List LyricStep :=
  b.lyricStream.flatMap LyricItem.lyricSteps

namespace LyricStep

def isBeat : LyricStep → Bool
  | beat _ => true
  | _ => false

/- A pickup restarts the counter. -/
def isPickup : LyricStep → Bool
  | directive d => d.order.name = .pickup
  | _ => false

/- How many rendered beats there are among steps. -/
def beats
    (steps : List LyricStep) : Nat :=
  steps.countP isBeat

@[simp] theorem beats_append
    (steps more : List LyricStep) :
    beats (steps ++ more) = beats steps + beats more :=
  List.countP_append

@[simp] theorem beats_beat
    (b : Beat)
    (steps : List LyricStep) :
    beats (beat b :: steps) = beats steps + 1 :=
  List.countP_cons_of_pos rfl

/- A step behind which counter and clock go on as before. -/
def IsSteady : LyricStep → Prop
  | directive d =>
      d.order.name ≠ .pickup ∧ d.order.name ≠ .beatUnit
  | barline => False
  | beat _ => True

/-
  A step behind which a counter that was just
  set is still to be drawn.
-/
def IsWaiting
    (step : LyricStep) : Prop :=
  step.isBeat = false ∧ step.isPickup = false

end LyricStep

------------------------------------------------------------
-- Meters
------------------------------------------------------------

/-
  The number of the next beat and its index, and the note
  value and the exact time.
-/
structure Meter where
  tally : Tally := {}
  clock : BeatClock
deriving DecidableEq, Repr

/- What a meter shows at a rendered beat. -/
structure MeterReading where
  key : BeatKey
  beat : Beat
  label : Int
  unit : String
  now : Rat
deriving DecidableEq, Repr

/-
  The beat of a reading, with the note value in force at it.
-/
def MeterReading.timed
    (r : MeterReading) : TimedBeat :=
  ⟨r.key, r.beat, r.unit⟩

/- Only a pickup changes the tally. -/
theorem Tally.follow_of_ne
    (t : Tally)
    {d : Directive}
    (hOther : d.order.name ≠ .pickup) :
    t.follow d = t := by
  cases hOrder : d.order <;> simp_all [Tally.follow, Order.name]

/- Only a beat unit changes the clock of beats. -/
theorem BeatClock.follow_of_ne
    (c : BeatClock)
    {d : Directive}
    (hOther : d.order.name ≠ .beatUnit) :
    c.follow d = c := by
  cases hOrder : d.order <;>
    simp_all [BeatClock.follow, Order.name]

namespace Meter

section Walk

variable (ticksPerQuarter : Int)

/- The meter behind a step. -/
def pass
    (m : Meter) : LyricStep → Meter
  | .directive d => ⟨m.tally.follow d, m.clock.follow d⟩
  | .barline =>
      { m with tally := { m.tally with counter := 1 } }
  | .beat b =>
    { tally := ⟨m.tally.counter + b.units, m.tally.beat + 1⟩
      clock :=
        { m.clock with
          now :=
            m.clock.now +
              BeatUnit.quarters m.clock.unit *
                ticksPerQuarter * b.units } }

/- The meter behind steps. -/
def passAll
    (m : Meter)
    (steps : List LyricStep) : Meter :=
  steps.foldl (pass ticksPerQuarter) m

/- What the meter shows at a beat. -/
def read
    (block : Int)
    (m : Meter)
    (b : Beat) : MeterReading :=
  ⟨⟨block, m.tally.beat⟩, b, m.tally.counter, m.clock.unit,
    m.clock.now⟩

/- What the meter shows at the rendered beats among steps. -/
def readings
    (block : Int)
    (m : Meter) : List LyricStep → List MeterReading
  | [] => []
  | .directive d :: rest =>
      readings block
        (m.pass ticksPerQuarter (.directive d)) rest
  | .barline :: rest =>
      readings block (m.pass ticksPerQuarter .barline) rest
  | .beat b :: rest =>
    m.read block b ::
      readings block (m.pass ticksPerQuarter (.beat b)) rest

end Walk

variable {ticksPerQuarter : Int}

/- Steps that follow steps are passed from where these end. -/
theorem passAll_append
    (m : Meter)
    (steps more : List LyricStep) :
    m.passAll ticksPerQuarter (steps ++ more) =
      (m.passAll ticksPerQuarter steps).passAll
        ticksPerQuarter more := by
  simp [passAll]

theorem readings_append
    (block : Int)
    (m : Meter)
    (steps more : List LyricStep) :
    m.readings ticksPerQuarter block (steps ++ more) =
      m.readings ticksPerQuarter block steps ++
        (m.passAll ticksPerQuarter steps).readings
          ticksPerQuarter block more := by
  induction steps generalizing m with
  | nil =>
      rfl
  | cons step steps ih =>
      cases step with
      | directive d =>
          exact ih _
      | barline =>
          exact ih _
      | beat b =>
          exact congrArg (m.read block b :: ·) (ih _)

/- The meter behind directives. -/
def direct
    (m : Meter)
    (ds : List Directive) : Meter :=
  ⟨ds.foldl Tally.follow m.tally,
    ds.foldl BeatClock.follow m.clock⟩

theorem passAll_directives
    (m : Meter)
    (ds : List Directive) :
    m.passAll ticksPerQuarter (ds.map .directive) =
      m.direct ds := by
  induction ds generalizing m with
  | nil =>
      rfl
  | cons d ds ih =>
      exact ih _

theorem readings_directives
    (block : Int)
    (m : Meter)
    (ds : List Directive) :
    m.readings ticksPerQuarter block (ds.map .directive) =
      [] := by
  induction ds generalizing m with
  | nil =>
      rfl
  | cons d ds ih =>
      exact ih _

@[simp] theorem beat_direct
    (m : Meter)
    (ds : List Directive) :
    (m.direct ds).tally.beat = m.tally.beat :=
  m.tally.beat_foldl_follow ds

section Beats

variable (ticksPerQuarter)
variable (block : Int)
variable (m : Meter)
variable {b : Beat}
variable (steps : List LyricStep)

/-
  Of a beat without subdivisions only the directives count.
-/
theorem readings_of_empty
    (hEmpty : b.subdivisions = []) :
    m.readings ticksPerQuarter block
          ((LyricItem.beat b).lyricSteps ++ steps) =
        (m.direct b.directives).readings ticksPerQuarter
          block steps ∧
      m.passAll ticksPerQuarter
          ((LyricItem.beat b).lyricSteps ++ steps) =
        (m.direct b.directives).passAll ticksPerQuarter
          steps := by
  rw [LyricItem.lyricSteps, if_pos hEmpty, List.append_nil,
    readings_append, readings_directives, passAll_append,
    passAll_directives]
  exact ⟨rfl, rfl⟩

/- A rendered beat is read behind its directives. -/
theorem readings_of_rendered
    (hRendered : b.subdivisions ≠ []) :
    let n := m.direct b.directives
    m.readings ticksPerQuarter block
          ((LyricItem.beat b).lyricSteps ++ steps) =
        n.read block b ::
          (n.pass ticksPerQuarter (.beat b)).readings
            ticksPerQuarter block steps ∧
      m.passAll ticksPerQuarter
          ((LyricItem.beat b).lyricSteps ++ steps) =
        (n.pass ticksPerQuarter (.beat b)).passAll
          ticksPerQuarter steps := by
  rw [LyricItem.lyricSteps, if_neg hRendered,
    List.append_assoc, readings_append, readings_directives,
    passAll_append, passAll_directives]
  exact ⟨rfl, rfl⟩

end Beats

/- Beats are counted one by one. -/
theorem beat_passAll
    (m : Meter)
    (steps : List LyricStep) :
    (m.passAll ticksPerQuarter steps).tally.beat =
      m.tally.beat + LyricStep.beats steps := by
  induction steps generalizing m with
  | nil =>
      rfl
  | cons step steps ih =>
      have hRest := ih (m.pass ticksPerQuarter step)
      rw [passAll, List.foldl_cons]
      rw [passAll] at hRest
      rw [hRest]
      cases step with
      | directive d =>
          rw [pass, m.tally.beat_follow]
          rfl
      | barline =>
          rfl
      | beat b =>
          rw [LyricStep.beats_beat,
            Nat.add_comm (LyricStep.beats steps) 1,
            ← Nat.add_assoc]
          rfl

/- A beat among steps is read behind the steps before it. -/
theorem read_mem_readings
    (block : Int)
    (m : Meter)
    (before : List LyricStep)
    (b : Beat)
    (after : List LyricStep) :
    (m.passAll ticksPerQuarter before).read block b ∈
      m.readings ticksPerQuarter block
        (before ++ .beat b :: after) := by
  rw [readings_append]
  exact List.mem_append_right _ List.mem_cons_self

------------------------------------------------------------
-- Counter and clock
------------------------------------------------------------

/-
  The time that has gone by between two meters is the
  difference of their numbers, counted in beats of the note
  value in force, which is the same.
-/
structure Agrees
    (ticksPerQuarter : Int)
    (m n : Meter) : Prop where
  unit : n.clock.unit = m.clock.unit
  time :
    n.clock.now - m.clock.now =
      ((n.tally.counter - m.tally.counter : Int) : Rat) *
        BeatUnit.quarters m.clock.unit * ticksPerQuarter

theorem Agrees.refl
    (m : Meter) :
    m.Agrees ticksPerQuarter m := by
  constructor
  · rfl
  · simp

/- A steady step moves counter and clock alike. -/
theorem Agrees.pass
    {m n : Meter}
    (hAgrees : m.Agrees ticksPerQuarter n)
    {step : LyricStep}
    (hSteady : step.IsSteady) :
    m.Agrees ticksPerQuarter (n.pass ticksPerQuarter step) := by
  cases step with
  | directive d =>
      rw [Meter.pass, n.tally.follow_of_ne hSteady.1,
        n.clock.follow_of_ne hSteady.2]
      exact hAgrees
  | barline =>
      exact absurd hSteady id
  | beat b =>
      refine ⟨hAgrees.unit, ?_⟩
      have hTime := hAgrees.time
      simp only [Meter.pass, hAgrees.unit]
      push_cast at hTime ⊢
      linarith

/- Counter and clock go on alike over steady steps. -/
theorem Agrees.passAll
    {m n : Meter}
    (hAgrees : m.Agrees ticksPerQuarter n)
    {steps : List LyricStep}
    (hSteady : ∀ step ∈ steps, step.IsSteady) :
    m.Agrees ticksPerQuarter
      (n.passAll ticksPerQuarter steps) := by
  induction steps generalizing n with
  | nil =>
      exact hAgrees
  | cons step steps ih =>
      have hFirst :=
        hAgrees.pass (hSteady step List.mem_cons_self)
      exact ih hFirst fun other hOther =>
        hSteady other (List.mem_cons_of_mem step hOther)

/-
  Where no beat and no pickup comes, a barline is all that
  can set the counter.
-/
theorem counter_passAll
    {m : Meter}
    {steps : List LyricStep}
    (hWaiting : ∀ step ∈ steps, step.IsWaiting)
    (hBarline : .barline ∈ steps → m.tally.counter = 1) :
    (m.passAll ticksPerQuarter steps).tally.counter =
      m.tally.counter := by
  induction steps generalizing m with
  | nil =>
      rfl
  | cons step steps ih =>
      have hRest :=
        fun other hOther =>
          hWaiting other (List.mem_cons_of_mem step hOther)
      have hFirst := hWaiting step List.mem_cons_self
      have hStays :
          (m.pass ticksPerQuarter step).tally.counter =
            m.tally.counter := by
        cases step with
        | directive d =>
            have hOther : d.order.name ≠ .pickup := by
              simpa [LyricStep.isPickup] using hFirst.2
            rw [pass, m.tally.follow_of_ne hOther]
        | barline =>
            exact (hBarline List.mem_cons_self).symm
        | beat b =>
            exact absurd hFirst.1 (by simp [LyricStep.isBeat])
      have hLater :
          .barline ∈ steps →
            (m.pass ticksPerQuarter step).tally.counter =
              1 := by
        intro hMember
        rw [hStays]
        exact hBarline (List.mem_cons_of_mem step hMember)
      exact (ih hRest hLater).trans hStays

end Meter

------------------------------------------------------------
-- The tally is drawn
------------------------------------------------------------

/- The beat of a counter, and its number. -/
def Figure.counter? : Figure → Option (BeatKey × Int)
  | counter key label => some (key, label)
  | _ => none

theorem Figure.counters_of_plain
    {fs : List Figure}
    (hPlain : ∀ f ∈ fs, f.IsPlain) :
    fs.filterMap counter? = [] := by
  apply List.filterMap_eq_nil_iff.mpr
  intro f hMember
  have hNone := (hPlain f hMember).2
  cases f with
  | counter key label =>
      cases hNone
  | _ =>
      rfl

/-
  The counters of cues are those that a
  meter reads at their beats.
-/
theorem Cue.counters_figures
    (ticksPerQuarter : Int)
    (block : Int)
    (m : Meter)
    (cues : List (Cue Attack))
    (hParts :
      ∀ cue ∈ cues,
        cue.slots.map Slot.subdivision =
          cue.item.subdivisions) :
    (Cue.figures block m.tally cues).filterMap
        Figure.counter? =
      (m.readings ticksPerQuarter block
        ((cues.map Cue.item).flatMap
          LyricItem.lyricSteps)).map fun r =>
        (r.key, r.label) := by
  induction cues generalizing m with
  | nil =>
      rfl
  | cons cue cues ih =>
      have hRest :=
        fun m =>
          ih m fun other hMember =>
            hParts other (List.mem_cons_of_mem cue hMember)
      cases cue with
      | directive d =>
          rw [Cue.figures, List.filterMap_append,
            Figure.counters_of_plain d.plain_figures,
            List.nil_append]
          exact hRest (m.pass ticksPerQuarter (.directive d))
      | barline measure =>
          exact hRest (m.pass ticksPerQuarter .barline)
      | beat b slots =>
          have hSlots :
              slots.map Slot.subdivision = b.subdivisions :=
            hParts (.beat b slots) List.mem_cons_self
          rw [Cue.figures, List.filterMap_append,
            Figure.counters_of_plain
              (Directive.plain_flatMap_figures
                b.directives), List.nil_append,
            List.map_cons, List.flatMap_cons, Cue.item]
          by_cases hEmpty : slots = []
          · subst hEmpty
            rw [if_pos rfl,
              (m.readings_of_empty ticksPerQuarter block _
                hSlots.symm).1]
            exact hRest (m.direct b.directives)
          · have hRendered : b.subdivisions ≠ [] := by
              rw [← hSlots]
              simpa using hEmpty
            rw [if_neg hEmpty,
              (m.readings_of_rendered ticksPerQuarter block
                _ hRendered).1, Beat.figures,
              List.filterMap_append, List.filterMap_append,
              Figure.counters_of_plain
                (Slot.plain_flatMap_figures slots),
              List.nil_append, List.map_cons]
            exact congrArg (_ :: ·)
              (hRest
                ((m.direct b.directives).pass
                  ticksPerQuarter (.beat b)))

/-
  The counters of a block are those that a meter reads,
  whatever its clock.
-/
theorem Block.counters_figures
    (ticksPerQuarter : Int)
    (b : Block)
    (block : Int)
    (c : BeatClock) :
    (b.figures block).filterMap Figure.counter? =
      (Meter.readings ticksPerQuarter block { clock := c }
        b.lyricSteps).map fun r => (r.key, r.label) := by
  have hCues :=
    Cue.counters_figures ticksPerQuarter block
      { clock := c } b.voices fun _ hCue =>
      subdivisions_of_mem_voices hCue
  rw [b.map_item_voices] at hCues
  exact hCues

------------------------------------------------------------
-- The clock is mapped
------------------------------------------------------------

/-
  The beat map of a lyric stream has the times that a meter
  reads at its beats.
-/
theorem BeatClock.beats_items
    {ticksPerQuarter : Int}
    {block : Int}
    {m : Meter}
    {last : BeatClock}
    {items : List LyricItem}
    {beats : List (BeatKey × Int)}
    (hItems :
      BeatClock.items ticksPerQuarter block m.clock
          m.tally.beat items =
        .ok (beats, last)) :
    let steps := items.flatMap LyricItem.lyricSteps
    beats =
        (m.readings ticksPerQuarter block steps).map
          (fun r => (r.key, roundHalfEven r.now)) ∧
      last = (m.passAll ticksPerQuarter steps).clock := by
  induction items generalizing m beats with
  | nil =>
      simp only [BeatClock.items, Except.ok.injEq,
        Prod.mk.injEq] at hItems
      exact ⟨hItems.1.symm, hItems.2.symm⟩
  | cons item items ih =>
      intro steps
      cases item with
      | directive d =>
          have hBeat :
              (m.pass ticksPerQuarter
                  (.directive d)).tally.beat =
                m.tally.beat :=
            m.tally.beat_follow d
          apply ih (m := m.pass ticksPerQuarter (.directive d))
          rw [hBeat]
          exact hItems
      | barline measure =>
          exact ih (m := m.pass ticksPerQuarter .barline) hItems
      | beat b =>
          have hSteps :
              steps =
                (LyricItem.beat b).lyricSteps ++
                  items.flatMap LyricItem.lyricSteps :=
            rfl
          rw [hSteps]
          by_cases hEmpty : b.subdivisions = []
          · rw [BeatClock.items, if_pos hEmpty] at hItems
            rcases m.readings_of_empty ticksPerQuarter block
                (items.flatMap LyricItem.lyricSteps)
                hEmpty with
              ⟨hReadings, hPassed⟩
            rw [hReadings, hPassed]
            apply ih
            rw [m.beat_direct]
            exact hItems
          · simp only [BeatClock.items, if_neg hEmpty,
              Outcome.bind_eq_ok, Outcome.pure_eq,
              Except.ok.injEq, Prod.mk.injEq, Beat.ticks,
              Outcome.map_eq_ok] at hItems
            rcases hItems with
              ⟨ticks, ⟨scale, ⟨n, hScale, rfl⟩, rfl⟩,
                ⟨more, final⟩, hMore, rfl, rfl⟩
            have hUnits := Beat.scale_eq_ok hScale
            subst hUnits
            rcases m.readings_of_rendered ticksPerQuarter
                block (items.flatMap LyricItem.lyricSteps)
                hEmpty with
              ⟨hReadings, hPassed⟩
            rw [hReadings, hPassed, List.map_cons]
            rw [← m.beat_direct b.directives] at hMore ⊢
            rcases ih
              (m :=
                (m.direct b.directives).pass ticksPerQuarter
                  (.beat b)) hMore with
              ⟨hRest, hLast⟩
            exact ⟨congrArg (_ :: ·) hRest, hLast⟩

------------------------------------------------------------
-- Note values
------------------------------------------------------------

/-
  The beats of a lyric stream have the note values that a
  meter reads at them.
-/
theorem timedItems_eq_readings
    (ticksPerQuarter : Int)
    (block : Int)
    (m : Meter)
    (items : List LyricItem) :
    let steps := items.flatMap LyricItem.lyricSteps
    timedItems block m.clock.unit m.tally.beat items =
        (m.readings ticksPerQuarter block steps).map
          MeterReading.timed ∧
      unitAfterItems m.clock.unit items =
        (m.passAll ticksPerQuarter steps).clock.unit := by
  induction items generalizing m with
  | nil =>
      exact ⟨rfl, rfl⟩
  | cons item items ih =>
      intro steps
      cases item with
      | directive d =>
          have hUnit :
              (m.pass ticksPerQuarter
                  (.directive d)).clock.unit =
                d.unitAfter m.clock.unit := by
            rw [Meter.pass, m.clock.follow_eq]
          have hBeat :
              (m.pass ticksPerQuarter
                  (.directive d)).tally.beat =
                m.tally.beat :=
            m.tally.beat_follow d
          have hRest :=
            ih (m.pass ticksPerQuarter (.directive d))
          rw [hUnit, hBeat] at hRest
          exact hRest
      | barline measure =>
          exact ih (m.pass ticksPerQuarter .barline)
      | beat b =>
          have hSteps :
              steps =
                (LyricItem.beat b).lyricSteps ++
                  items.flatMap LyricItem.lyricSteps :=
            rfl
          have hUnit :
              (m.direct b.directives).clock.unit =
                b.directives.foldl Directive.unitAfter
                  m.clock.unit := by
            rw [Meter.direct, m.clock.foldl_follow]
          rw [hSteps, unitAfterItems_beat, ← hUnit]
          by_cases hEmpty : b.subdivisions = []
          · rcases m.readings_of_empty ticksPerQuarter block
                (items.flatMap LyricItem.lyricSteps)
                hEmpty with
              ⟨hReadings, hPassed⟩
            rw [hReadings, hPassed,
              timedItems_beat_of_empty _ _ _ _ hEmpty,
              ← hUnit, ← m.beat_direct b.directives]
            exact ih (m.direct b.directives)
          · rcases m.readings_of_rendered ticksPerQuarter
                block (items.flatMap LyricItem.lyricSteps)
                hEmpty with
              ⟨hReadings, hPassed⟩
            rw [hReadings, hPassed,
              timedItems_beat_of_rendered _ _ _ _ hEmpty,
              ← hUnit, ← m.beat_direct b.directives]
            rcases ih
              ((m.direct b.directives).pass ticksPerQuarter
                (.beat b)) with
              ⟨hRest, hLast⟩
            exact ⟨congrArg (_ :: ·) hRest, hLast⟩

------------------------------------------------------------
-- Scores
------------------------------------------------------------

/-
  What meters show at the rendered beats of blocks, the first
  of which is the block `index`: the clock goes on from block
  to block, and the tally starts anew.
-/
def blockReadings
    (ticksPerQuarter : Int)
    (c : BeatClock)
    (index : Nat) : List Block → List MeterReading
  | [] => []
  | b :: rest =>
    let m : Meter := { clock := c }
    m.readings ticksPerQuarter index b.lyricSteps ++
      blockReadings ticksPerQuarter
        (m.passAll ticksPerQuarter b.lyricSteps).clock
        (index + 1) rest

/- What meters show at the rendered beats of a score. -/
def Score.readings
    (s : Score)
    (unit : String)
    (ticksPerQuarter : Int) : List MeterReading :=
  blockReadings ticksPerQuarter { unit := unit } 0 s.blocks

/-
  The beats of a score are read with the
  note values in force.
-/
theorem Score.timed_readings
    (s : Score)
    (unit : String)
    (ticksPerQuarter : Int) :
    (s.readings unit ticksPerQuarter).map
        MeterReading.timed =
      s.timedBeats unit := by
  have hBlocks (c : BeatClock) (index : Nat) (bs : List Block) :
      (blockReadings ticksPerQuarter c index bs).map
          MeterReading.timed =
        timedBlocks c.unit index bs := by
    induction bs generalizing c index with
    | nil =>
        rfl
    | cons b bs ih =>
        rcases timedItems_eq_readings ticksPerQuarter index
          { clock := c } b.lyricStream with
          ⟨hBeats, hUnit⟩
        rw [blockReadings, List.map_append, ih, timedBlocks,
          hUnit]
        exact congrArg (· ++ _) hBeats.symm
  exact hBlocks { unit := unit } 0 s.blocks

/-
  The beat map of a score has the times
  that are read, rounded.
-/
theorem Score.beats_timing
    {settings : AudioSettings}
    {s : Score}
    {map : BeatMap}
    (hMap : s.timing settings = .ok map) :
    map.beats =
      (s.readings settings.defaultBeatUnit
        settings.ticksPerQuarter).map fun r =>
        (r.key, roundHalfEven r.now) := by
  have hBlocks (c last : BeatClock)
      (index : Nat) (bs : List Block)
      (beats : List (BeatKey × Int))
      (hBeats :
        BeatClock.blocks settings.ticksPerQuarter c index
            bs =
          .ok (beats, last)) :
      beats =
        (blockReadings settings.ticksPerQuarter c index bs).map
          fun r => (r.key, roundHalfEven r.now) := by
    induction bs generalizing c index beats with
    | nil =>
        simp only [BeatClock.blocks, Except.ok.injEq,
          Prod.mk.injEq] at hBeats
        exact hBeats.1.symm
    | cons b bs ih =>
        simp only [BeatClock.blocks, Outcome.bind_eq_ok,
          Outcome.pure_eq, Except.ok.injEq,
          Prod.mk.injEq] at hBeats
        rcases hBeats with
          ⟨⟨first, d⟩, hFirst, ⟨more, final⟩, hMore, rfl,
            rfl⟩
        rcases BeatClock.beats_items (m := { clock := c })
            hFirst with
          ⟨hRead, hLast⟩
        subst hLast
        rw [blockReadings, List.map_append, hRead,
          ih _ _ _ hMore]
        rfl
  simp only [Score.timing, Outcome.mapError_eq_ok,
    Score.beatMap, Outcome.bind_eq_ok, Outcome.pure_eq,
    Except.ok.injEq] at hMap
  rcases hMap with ⟨⟨beats, last⟩, hBeats, rfl⟩
  exact hBlocks _ _ _ _ _ hBeats

/- A block is read by a meter whose tally starts anew. -/
theorem Score.readings_of_block
    {s : Score}
    {i : Nat}
    {b : Block}
    (hBlock : s.blocks[i]? = some b)
    (unit : String)
    (ticksPerQuarter : Int) :
    ∃ c : BeatClock,
      Meter.readings ticksPerQuarter i { clock := c }
        b.lyricSteps ⊆
        s.readings unit ticksPerQuarter := by
  have hBlocks (c : BeatClock)
      (index i : Nat) (bs : List Block)
      (hBlock : bs[i]? = some b) :
      ∃ d : BeatClock,
        Meter.readings ticksPerQuarter
          ((index + i : Nat) : Int) { clock := d }
          b.lyricSteps ⊆
          blockReadings ticksPerQuarter c index bs := by
    induction bs generalizing c index i with
    | nil =>
        cases hBlock
    | cons first bs ih =>
        cases i with
        | zero =>
            cases hBlock
            exact ⟨c, List.subset_append_left _ _⟩
        | succ i =>
            rcases ih _ (index + 1) i hBlock with ⟨d, hSubset⟩
            rw [Nat.add_assoc, Nat.add_comm 1 i] at hSubset
            exact ⟨d,
              List.subset_append_of_subset_right _ hSubset⟩
  rcases hBlocks { unit := unit } 0 i s.blocks hBlock with
    ⟨c, hSubset⟩
  rw [Nat.zero_add] at hSubset
  exact ⟨c, hSubset⟩

end LyricScore
