import LyricScore.Proofs.Drawing.Meter
import LyricScore.Proofs.Timing.Rounding

/-
  This file shows that the numbers at the beats of a drawing
  measure time.  Between two beats of a block, if nothing sets
  the counter or the note value, their numbers differ by as
  many beats as the beat map puts between them.  A counter
  starts with one, and with the number of a pickup behind it.

  Key definitions include:
    * `DrawCommand.counter?`
    * `ScoreLayout.labelAt?`

  Key theorems include:
    * `Block.counters_commands`
    * `Score.labelAt?_of_mem_readings`
    * `Score.tick_of_mem_readings`
    * `Meter.counter_of_fresh`
    * `Meter.counter_of_pickup`
    * `Score.counters_measure_time`
-/

namespace LyricScore

variable {K : Type} [Coordinate K]

------------------------------------------------------------
-- Drawn numbers
------------------------------------------------------------

/-
  The indices of the beat of a counter, and
  the text of its number.
-/
def DrawCommand.counter?
    (c : DrawCommand K) : Option ((String × String) × String) :=
  c.counterBeat?.bind fun key =>
    c.text.map fun text => (key, text)

namespace ScoreLayout

/- The counters of a drawing. -/
def counters
    (drawing : ScoreLayout K) :
      List ((String × String) × String) :=
  drawing.blocks.flatMap fun layout =>
    layout.commands.filterMap DrawCommand.counter?

/- The text of the number that is drawn at a beat. -/
def labelAt?
    (drawing : ScoreLayout K)
    (key : BeatKey) : Option String :=
  drawing.counters.lookup key.indices

end ScoreLayout

/- A number without a letter is written as it is. -/
theorem Pen.eq_toString_of_label
    {n : Int}
    {text : String}
    (hText : Pen.label "" n = .ok text) :
    text = toString n := by
  rw [Pen.eq_append_of_label hText, String.empty_append]

/- The counter of a figure as a command holds it. -/
def Figure.counterText?
    (f : Figure) : Option ((String × String) × String) :=
  f.counter?.map fun (key, label) =>
    (key.indices, toString label)

/- A drawn command is labelled as its figure is. -/
theorem Figure.Draws.counter?_eq
    {ls : LayoutSettings K}
    {f : Figure}
    {c : DrawCommand K}
    (hDraws : f.Draws ls c) :
    c.counter? = f.counterText? := by
  cases f with
  | counter key label =>
      rcases hDraws with ⟨x, text, hText, rfl⟩
      rw [Pen.eq_toString_of_label hText]
      rfl
  | _ =>
      have hKey := hDraws.tellsBeat.counter
      rw [DrawCommand.counter?, hKey]
      rfl

/-
  The commands of a block hold the counters of its figures.
-/
theorem Block.counters_commands
    {ls : LayoutSettings K}
    {index : Int}
    {b : Block}
    {layout : BlockLayout K}
    (hLayout : b.layout ls index = .ok layout) :
    layout.commands.filterMap DrawCommand.counter? =
      (b.figures index).filterMap Figure.counterText? := by
  rcases Block.layout_eq_ok hLayout with
    ⟨endX, drawn, placed, dy, -, hDraws, hPlaced⟩
  have hShifted (c : DrawCommand K) :
      (shiftedBy dy c).counter? = c.counter? := by
    cases dy <;> rfl
  have hCounters :
      placed.map DrawCommand.counter? =
        (b.figures index).map Figure.counterText? := by
    rw [← List.forall₂_eq_eq_eq, List.forall₂_map_left_iff,
      List.forall₂_map_right_iff]
    exact (hDraws.imp fun _ _ hDraw => hDraw.counter?_eq).flip
  calc
    layout.commands.filterMap DrawCommand.counter?
      = (placed.map DrawCommand.counter?).filterMap id := by
        rw [hPlaced, List.filterMap_map, List.filterMap_map,
          Function.id_comp]
        exact List.filterMap_congr fun c _ => hShifted c
    _ = (b.figures index).filterMap Figure.counterText? := by
        rw [hCounters, List.filterMap_map, Function.id_comp]

/-
  The numbers of a drawing are those that
  meters read at the beats.
-/
theorem Score.counters_layout
    {ls : LayoutSettings K}
    {s : Score}
    {drawing : ScoreLayout K}
    (hDrawing : s.layout ls = .ok drawing)
    (unit : String)
    (ticksPerQuarter : Int) :
    drawing.counters =
      (s.readings unit ticksPerQuarter).map fun r =>
        (r.key.indices, toString r.label) := by
  have hBlocks (c : BeatClock) (index : Nat) (bs : List Block)
      (layouts : List (BlockLayout K))
      (hLayouts : layoutBlocks ls index bs = .ok layouts) :
      (layouts.flatMap fun layout =>
          layout.commands.filterMap DrawCommand.counter?) =
        (blockReadings ticksPerQuarter c index bs).map
          fun r => (r.key.indices, toString r.label) := by
    induction bs generalizing c index layouts with
    | nil =>
        simp only [layoutBlocks, Except.ok.injEq] at hLayouts
        rw [← hLayouts]
        rfl
    | cons b bs ih =>
        simp only [layoutBlocks, Outcome.bind_eq_ok,
          Outcome.pure_eq, Except.ok.injEq] at hLayouts
        rcases hLayouts with ⟨first, hFirst, more, hMore, rfl⟩
        have hFigures :=
          b.counters_figures ticksPerQuarter index c
        have hTexts :
            (b.figures index).filterMap
                Figure.counterText? =
              ((b.figures index).filterMap
                Figure.counter?).map fun (key, label) =>
                (key.indices, toString label) := by
          rw [List.map_filterMap]
          rfl
        rw [List.flatMap_cons,
          Block.counters_commands hFirst, hTexts, hFigures,
          blockReadings, List.map_append, ih _ _ _ hMore,
          List.map_map]
        rfl
  simp only [Score.layout, Outcome.bind_eq_ok,
    Outcome.pure_eq, Except.ok.injEq] at hDrawing
  rcases hDrawing with ⟨layouts, hLayouts, rfl⟩
  exact hBlocks { unit := unit } 0 s.blocks layouts hLayouts

------------------------------------------------------------
-- Beats by their keys
------------------------------------------------------------

/-
  Where no key is there twice, a lookup finds the value
  beside the key.
-/
theorem lookup_of_mem
    {α β : Type}
    [BEq α] [LawfulBEq α]
    {entries : List (α × β)}
    (hNodup : (entries.map Prod.fst).Nodup)
    {key : α}
    {value : β}
    (hMember : (key, value) ∈ entries) :
    entries.lookup key = some value := by
  induction entries with
  | nil =>
      cases hMember
  | cons entry entries ih =>
      rw [List.map_cons, List.nodup_cons] at hNodup
      rcases List.mem_cons.mp hMember with rfl | hLater
      · simp
      · have hApart : key ≠ entry.1 := by
          intro hSame
          rw [hSame] at hLater
          exact hNodup.1 (List.mem_map.mpr ⟨_, hLater, rfl⟩)
        have hDiffer : (key == entry.1) = false :=
          beq_false_of_ne hApart
        rw [List.lookup_cons, hDiffer]
        exact ih hNodup.2 hLater

namespace Score

variable {ls : LayoutSettings K}
variable {settings : AudioSettings}
variable {s : Score}
variable {drawing : ScoreLayout K}
variable {map : BeatMap}
variable {unit : String}
variable {ticksPerQuarter : Int}
variable {r : MeterReading}

/-
  No two readings of the meters of a
  score have the same key.
-/
theorem nodup_keys_readings
    (s : Score)
    (unit : String)
    (ticksPerQuarter : Int) :
    ((s.readings unit ticksPerQuarter).map
      MeterReading.key).Nodup := by
  have hKeys :
      (s.readings unit ticksPerQuarter).map MeterReading.key =
        (s.timedBeats unit).map TimedBeat.key := by
    rw [← s.timed_readings unit ticksPerQuarter, List.map_map]
    rfl
  rw [hKeys]
  exact nodup_timedBlocks unit 0 s.blocks

/- At every beat its number is drawn. -/
theorem labelAt?_of_mem_readings
    (hDrawing : s.layout ls = .ok drawing)
    (hMember : r ∈ s.readings unit ticksPerQuarter) :
    drawing.labelAt? r.key = some (toString r.label) := by
  rw [ScoreLayout.labelAt?,
    counters_layout hDrawing unit ticksPerQuarter]
  apply lookup_of_mem
  · have hIndices :=
      (s.nodup_keys_readings unit ticksPerQuarter).map
        BeatKey.indices_injective
    rw [List.map_map] at hIndices ⊢
    exact hIndices
  · exact List.mem_map_of_mem
      (f := fun r => (r.key.indices, toString r.label))
      hMember

/- Every beat is mapped to its time, rounded. -/
theorem tick_of_mem_readings
    (hMap : s.timing settings = .ok map)
    (hMember :
      r ∈
        s.readings settings.defaultBeatUnit
          settings.ticksPerQuarter) :
    map.beats.lookup r.key = some (roundHalfEven r.now) := by
  rw [beats_timing hMap]
  apply lookup_of_mem
  · rw [List.map_map]
    exact s.nodup_keys_readings settings.defaultBeatUnit
      settings.ticksPerQuarter
  · exact List.mem_map_of_mem
      (f := fun r => (r.key, roundHalfEven r.now)) hMember

end Score

------------------------------------------------------------
-- Counters and time
------------------------------------------------------------

/- Rounding moves two times apart by one tick at most. -/
theorem roundHalfEven_apart
    (p q : Rat) :
    |(q - p) -
        ((roundHalfEven q - roundHalfEven p : Int) : Rat)| ≤
      1 := by
  have hFirst := roundHalfEven_near p
  have hLast := roundHalfEven_near q
  push_cast
  rw [abs_le]
  constructor <;> linarith

namespace Meter

variable {ticksPerQuarter : Int}

/-
  A beat among the steps of a block has the number of beats
  before it for its index.
-/
theorem key_read
    (block : Int)
    (c : BeatClock)
    (before : List LyricStep)
    (b : Beat) :
    ((passAll ticksPerQuarter { clock := c } before).read
        block b).key =
      ⟨block, LyricStep.beats before⟩ := by
  rw [read, beat_passAll, Nat.zero_add]

/-
  At the start of a block and behind a barline the counter
  is one, and it stays so while steps wait.
-/
theorem counter_of_fresh
    (c : BeatClock)
    {before between : List LyricStep}
    (hFresh : before = [] ∨ before.getLast? = some .barline)
    (hWaiting : ∀ step ∈ between, step.IsWaiting) :
    (passAll ticksPerQuarter { clock := c }
        (before ++ between)).tally.counter =
      1 := by
  have hOne :
      (passAll ticksPerQuarter { clock := c }
          before).tally.counter =
        1 := by
    rcases hFresh with rfl | hBarline
    · rfl
    · rcases List.getLast?_eq_some_iff.mp hBarline with
        ⟨earlier, rfl⟩
      rw [passAll_append]
      rfl
  rw [passAll_append, counter_passAll hWaiting fun _ => hOne,
    hOne]

/-
  Behind a pickup the counter stays at its number while
  steps wait, up to the next barline.
-/
theorem counter_of_pickup
    (m : Meter)
    {before between : List LyricStep}
    {d : Directive}
    {count : Int}
    (hPickup : d.order = .pickup count)
    (hWaiting : ∀ step ∈ between, step.IsWaiting)
    (hNoBarline : .barline ∉ between) :
    (m.passAll ticksPerQuarter
        (before ++ .directive d :: between)).tally.counter =
      count := by
  have hSet :
      ((m.passAll ticksPerQuarter before).pass
          ticksPerQuarter (.directive d)).tally.counter =
        count := by
    simp [pass, Tally.follow, hPickup]
  rw [passAll_append, ← hSet]
  exact counter_passAll hWaiting fun hBarline =>
    absurd hBarline hNoBarline

end Meter

/- Steps that wait have no beats among them. -/
theorem LyricStep.beats_of_waiting
    {steps : List LyricStep}
    (hWaiting : ∀ step ∈ steps, step.IsWaiting) :
    beats steps = 0 := by
  rw [beats, List.countP_eq_zero]
  intro step hMember
  simp [(hWaiting step hMember).1]

namespace Score

section Blocks

variable {ls : LayoutSettings K}
variable {settings : AudioSettings}
variable {s : Score}
variable {drawing : ScoreLayout K}
variable {b : Block}
variable {i : Nat}
variable {c : BeatClock}

/-
  The number at a beat of a block is that of the meter
  behind the steps before it.
-/
theorem labelAt?_of_steps
    (hDrawing : s.layout ls = .ok drawing)
    (hReadings :
      Meter.readings settings.ticksPerQuarter i
          { clock := c } b.lyricSteps ⊆
        s.readings settings.defaultBeatUnit
          settings.ticksPerQuarter)
    {before after : List LyricStep}
    {first : Beat}
    (hSteps : b.lyricSteps = before ++ .beat first :: after) :
    drawing.labelAt? ⟨i, LyricStep.beats before⟩ =
      some
        (toString
          (Meter.passAll settings.ticksPerQuarter
            { clock := c } before).tally.counter) := by
  rw [hSteps] at hReadings
  have hMember :=
    hReadings
      (Meter.read_mem_readings i { clock := c } before
        first after)
  have hLabel := labelAt?_of_mem_readings hDrawing hMember
  rw [Meter.key_read] at hLabel
  exact hLabel

/-
  Two beats with only steady steps between them have readings
  of one note value, and the time between them is counted by
  their numbers.
-/
theorem exists_readings_of_steps
    {ticksPerQuarter : Int}
    {readings : List MeterReading}
    (hReadings :
      Meter.readings ticksPerQuarter i { clock := c }
          b.lyricSteps ⊆
        readings)
    {before between after : List LyricStep}
    {first last : Beat}
    (hSteps :
      b.lyricSteps =
        before ++ .beat first :: between ++
          .beat last :: after)
    (hSteady : ∀ step ∈ between, step.IsSteady) :
    ∃ r ∈ readings,
      ∃ r' ∈ readings,
        r.timed =
            ⟨⟨i, LyricStep.beats before⟩, first, r.unit⟩ ∧
          r'.timed =
            ⟨⟨i,
                LyricStep.beats before + 1 +
                  LyricStep.beats between⟩, last, r.unit⟩ ∧
          r'.now - r.now =
            ((r'.label - r.label : Int) : Rat) *
              BeatUnit.quarters r.unit *
              ticksPerQuarter := by
  let start : Meter := { clock := c }
  let m := start.passAll ticksPerQuarter before
  let n :=
    start.passAll ticksPerQuarter
      (before ++ .beat first :: between)
  have hAgrees : m.Agrees ticksPerQuarter n := by
    have hBeat : (LyricStep.beat first).IsSteady := trivial
    have hFirst :
        m.Agrees ticksPerQuarter
          (m.pass ticksPerQuarter (.beat first)) :=
      (Meter.Agrees.refl m).pass hBeat
    have hPassed := hFirst.passAll hSteady
    rw [show n =
      _ from Meter.passAll_append start before
        (.beat first :: between)]
    exact hPassed
  have hFirst : m.read i first ∈ readings := by
    apply hReadings
    rw [hSteps, List.append_assoc]
    exact Meter.read_mem_readings i start before first _
  have hLast : n.read i last ∈ readings := by
    apply hReadings
    rw [hSteps]
    exact Meter.read_mem_readings i start _ last after
  have hKey :
      (m.read i first).key = ⟨i, LyricStep.beats before⟩ :=
    Meter.key_read i c before first
  have hKey' :
      (n.read i last).key =
        ⟨i,
          LyricStep.beats before + 1 +
            LyricStep.beats between⟩ := by
    rw [show (n.read i last).key =
        _ from Meter.key_read i c _ last,
      LyricStep.beats_append, LyricStep.beats_beat,
      Nat.add_assoc, Nat.add_comm 1]
  refine ⟨m.read i first, hFirst, n.read i last, hLast, ?_,
    ?_, hAgrees.time⟩
  · rw [← hKey]
    rfl
  · rw [← hKey',
      show (m.read i first).unit =
        (n.read i last).unit from hAgrees.unit.symm]
    rfl

end Blocks

end Score

/-
  Counters measure time.  In a block of which drawing and beat
  map are made, let two beats have only steady steps between
  them: no barline, no pickup, no note value.  Then their
  numbers differ by as many beats of the note value in force
  as there are ticks between them in the beat map, give or
  take one for rounding.  The first beat of a block or behind
  a barline has the number one, if no pickup comes between;
  and the first beat behind a pickup has its number, if no
  barline and no other pickup comes between.
-/
theorem Score.counters_measure_time
    {ls : LayoutSettings K}
    {settings : AudioSettings}
    {s : Score}
    {drawing : ScoreLayout K}
    {map : BeatMap}
    (hDrawing : s.layout ls = .ok drawing)
    (hMap : s.timing settings = .ok map)
    {i : Nat}
    {b : Block}
    (hBlock : s.blocks[i]? = some b) :
    (∀ (before between after : List LyricStep)
        (first last : Beat),
      b.lyricSteps =
          before ++ .beat first :: between ++
            .beat last :: after →
        (∀ step ∈ between, step.IsSteady) →
          let k := LyricStep.beats before
          let l := k + 1 + LyricStep.beats between
          ∃ (label label' tick tick' : Int),
            drawing.labelAt? ⟨i, k⟩ =
                some (toString label) ∧
              drawing.labelAt? ⟨i, l⟩ =
                some (toString label') ∧
              map.beats.lookup ⟨i, k⟩ = some tick ∧
              map.beats.lookup ⟨i, l⟩ = some tick' ∧
              ∃ unit,
                ⟨⟨i, k⟩, first, unit⟩ ∈
                    s.timedBeats settings.defaultBeatUnit ∧
                  ⟨⟨i, l⟩, last, unit⟩ ∈
                    s.timedBeats settings.defaultBeatUnit ∧
                  |((label' - label : Int) : Rat) *
                    BeatUnit.quarters unit *
                        settings.ticksPerQuarter -
                      ((tick' - tick : Int) : Rat)| ≤
                    1) ∧
      (∀ (before between after : List LyricStep)
        (first : Beat),
        b.lyricSteps =
            before ++ between ++ .beat first :: after →
          (before = [] ∨ before.getLast? = some .barline) →
          (∀ step ∈ between, step.IsWaiting) →
          drawing.labelAt? ⟨i, LyricStep.beats before⟩ =
            some "1") ∧
      ∀ (before between after : List LyricStep)
        (d : Directive) (count : Int) (first : Beat),
        b.lyricSteps =
            before ++ .directive d :: between ++
              .beat first :: after →
          d.order = .pickup count →
          (∀ step ∈ between, step.IsWaiting) →
          .barline ∉ between →
          drawing.labelAt? ⟨i, LyricStep.beats before⟩ =
            some (toString count) := by
  rcases Score.readings_of_block hBlock
    settings.defaultBeatUnit settings.ticksPerQuarter with
    ⟨c, hReadings⟩
  refine ⟨?_, ?_, ?_⟩
  · intro before between after first last hSteps hSteady k l
    rcases Score.exists_readings_of_steps hReadings hSteps
      hSteady with
      ⟨r, hFirst, r', hLast, hTimed, hTimed', hTime⟩
    have hKey : r.key = ⟨i, k⟩ := congrArg TimedBeat.key hTimed
    have hKey' : r'.key = ⟨i, l⟩ :=
      congrArg TimedBeat.key hTimed'
    have hBeats :=
      s.timed_readings settings.defaultBeatUnit
        settings.ticksPerQuarter
    refine ⟨r.label, r'.label, roundHalfEven r.now,
      roundHalfEven r'.now, ?_, ?_, ?_, ?_, r.unit, ?_, ?_,
      ?_⟩
    · rw [← hKey]
      exact labelAt?_of_mem_readings hDrawing hFirst
    · rw [← hKey']
      exact labelAt?_of_mem_readings hDrawing hLast
    · rw [← hKey]
      exact tick_of_mem_readings hMap hFirst
    · rw [← hKey']
      exact tick_of_mem_readings hMap hLast
    · rw [← hTimed, ← hBeats]
      exact List.mem_map_of_mem hFirst
    · rw [← hTimed', ← hBeats]
      exact List.mem_map_of_mem hLast
    · rw [← hTime]
      exact roundHalfEven_apart r.now r'.now
  · intro before between after first hSteps hFresh hWaiting
    have hLabel := labelAt?_of_steps hDrawing hReadings hSteps
    rw [Meter.counter_of_fresh c hFresh hWaiting,
      LyricStep.beats_append,
      LyricStep.beats_of_waiting hWaiting] at hLabel
    exact hLabel
  · intro before between after d count first hSteps hPickup
      hWaiting hNoBarline
    have hPlain :
        LyricStep.beats (.directive d :: between) = 0 := by
      rw [LyricStep.beats,
        List.countP_cons_of_neg
          (by simp [LyricStep.isBeat])]
      exact LyricStep.beats_of_waiting hWaiting
    have hLabel := labelAt?_of_steps hDrawing hReadings hSteps
    rw [Meter.counter_of_pickup _ hPickup hWaiting
        hNoBarline,
      LyricStep.beats_append, hPlain] at hLabel
    exact hLabel

/-
  A block that counts on after a pickup, over two lines, past
  a beat of nothing but a tempo, and anew behind a barline.
-/
def Block.refrained : Block where
  lyricLines := [
    { directives := [⟨.beatUnit "8.", {}⟩, ⟨.pickup 4, {}⟩]
      measures := [
        { beats := [
            { elements := [
                .subdivision ⟨.syllable, "3la", {}⟩] },
            { elements := [.directive ⟨.tempo 90, {}⟩] }] }] },
    { measures := [
        { beats := [
            { elements := [.subdivision ⟨.rest, ";", {}⟩] }]
          barline := true },
        { beats := [
            { elements := [
                .subdivision ⟨.syllable, "lu", {}⟩] }] }] }]

theorem Block.lyricSteps_refrained :
    refrained.lyricSteps =
      [.directive ⟨.beatUnit "8.", {}⟩,
        .directive ⟨.pickup 4, {}⟩,
        .beat
          { elements :=
              [.subdivision ⟨.syllable, "3la", {}⟩] },
        .directive ⟨.tempo 90, {}⟩,
        .beat
          { elements := [.subdivision ⟨.rest, ";", {}⟩] },
        .barline,
        .beat
          { elements :=
              [.subdivision ⟨.syllable, "lu", {}⟩] }] := by
  decide +kernel

/- A score in which that block comes second. -/
def Score.refrained : Score where
  blocks := [
    { lyricLines := [
        { measures := [
            { beats := [
                { elements := [
                    .subdivision
                      ⟨.syllable, "la", {}⟩] }] }] }] },
    .refrained]

/-
  Its labels start at the pickup, start anew behind a
  barline, and keep to the beat map.
-/
theorem Score.refrained_measures :
    ∃ (drawing : ScoreLayout Rat) (map : BeatMap),
      refrained.layout .default = .ok drawing ∧
        refrained.timing { ticksPerQuarter := 7 } = .ok map ∧
        drawing.labelAt? ⟨1, 0⟩ = some "4" ∧
        drawing.labelAt? ⟨1, 2⟩ = some "1" ∧
        ∃ label label' tick tick' : Int,
          drawing.labelAt? ⟨1, 0⟩ = some (toString label) ∧
            drawing.labelAt? ⟨1, 1⟩ = some (toString label') ∧
            map.beats.lookup ⟨1, 0⟩ = some tick ∧
            map.beats.lookup ⟨1, 1⟩ = some tick' ∧
            |((label' - label : Int) : Rat) * (3 / 4) *
              (7 : Int) -
                ((tick' - tick : Int) : Rat)| ≤
              1 := by
  have hDrawn :
      (refrained.layout
          (.default : LayoutSettings Rat)).isOk =
        true := by
    decide +kernel
  have hTimed :
      (refrained.timing { ticksPerQuarter := 7 }).isOk =
        true := by
    decide +kernel
  rcases Outcome.exists_eq_ok hDrawn with ⟨drawing, hDrawing⟩
  rcases Outcome.exists_eq_ok hTimed with ⟨map, hMap⟩
  have hBlock : refrained.blocks[1]? = some .refrained := rfl
  have hSteps := Block.lyricSteps_refrained
  rcases Score.counters_measure_time hDrawing hMap
      hBlock with
    ⟨hTimes, hFresh, hPickup⟩
  refine ⟨drawing, map, hDrawing, hMap, ?_, ?_, ?_⟩
  · exact hPickup [_] [] _ _ 4 _ hSteps rfl nofun nofun
  · exact hFresh [_, _, _, _, _, _] [] [] _ hSteps
      (Or.inr rfl) nofun
  · have hSteady :
        ∀ step ∈ [LyricStep.directive ⟨.tempo 90, {}⟩],
          step.IsSteady := by
      simp [LyricStep.IsSteady, Order.name]
    rcases hTimes [_, _] [_] _ _ _ hSteps hSteady with
      ⟨label, label', tick, tick', hLabel, hLabel', hTick,
        hTick', unit, hFirst, -, hNear⟩
    have hUnits :
        ∀ t ∈ refrained.timedBeats "4",
          t.key = ⟨1, 0⟩ →
            BeatUnit.quarters t.unit = 3 / 4 := by
      decide +kernel
    have hQuarters : BeatUnit.quarters unit = 3 / 4 :=
      hUnits _ hFirst rfl
    rw [hQuarters] at hNear
    exact ⟨label, label', tick, tick', hLabel, hLabel',
      hTick, hTick', hNear⟩

end LyricScore
