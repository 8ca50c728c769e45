import Mathlib.Algebra.BigOperators.Group.List.Basic
import Mathlib.Algebra.Ring.Rat
import Mathlib.Data.List.Nodup
import LyricScore.Proofs.Outcome
import LyricScore.Proofs.Stream.Segment
import LyricScore.Timing.BeatMap

/-
  This file defines when each beat of a score starts, by the
  beats before it and the note values in force at them, and
  shows that the beat map holds just these starts, rounded.

  Key definitions include:
    * `Beat.units`
    * `Directive.unitAfter`
    * `TimedBeat`
    * `TimedBeat.length`
    * `Score.timedBeats`
    * `Score.start`, `totalLength`

  Key theorems include:
    * `Score.start_of_split`
    * `BeatClock.items_eq_timedItems`
    * `Score.beatMap_eq_starts`
-/

namespace LyricScore

------------------------------------------------------------
-- Timed beats
------------------------------------------------------------

/-
  The length of a beat in units, however
  many digits write it.
-/
def Beat.units
    (b : Beat) : Nat :=
  match b.scaleDigits with
  | [] => 1
  | d :: ds => DecimalDigit.number (d :: ds)

/- The units that are read are the units of the beat. -/
theorem Beat.scale_eq_ok
    {b : Beat}
    {n : Nat}
    (hScale : b.scale = .ok n) :
    n = b.units := by
  cases hDigits : b.scaleDigits with
  | nil =>
      simp only [Beat.scale, hDigits, Except.ok.injEq] at hScale
      simp only [Beat.units, hDigits, ← hScale]
  | cons d ds =>
      simp only [Beat.scale, hDigits,
        Numeral.ofDigits] at hScale
      split at hScale
      · cases hScale
      · cases hScale
        simp only [Beat.units, hDigits]

/-
  The note value behind a directive: the one it asks for, or
  the one before.
-/
def Directive.unitAfter
    (unit : String)
    (d : Directive) : String :=
  match d.order with
  | .beatUnit code => code
  | _ => unit

/-
  The directives of an item, in the order in
  which they are followed.
-/
def LyricItem.directives : LyricItem → List Directive
  | .directive d => [d]
  | .beat b => b.directives
  | .barline _ => []

/- A rendered beat, and the note value in force at it. -/
structure TimedBeat where
  key : BeatKey
  beat : Beat
  unit : String
deriving DecidableEq, Repr

/- The exact length of a beat in ticks. -/
def TimedBeat.length
    (ticksPerQuarter : Int)
    (t : TimedBeat) : Rat :=
  BeatUnit.quarters t.unit * ticksPerQuarter * t.beat.units

/-
  The rendered beats of a lyric stream, the first of which is
  the beat `index` of the block, with the note value `unit` in
  force at the start.
-/
def timedItems
    (block : Int)
    (unit : String)
    (index : Nat) : List LyricItem → List TimedBeat
  | [] => []
  | .directive d :: rest =>
      timedItems block (d.unitAfter unit) index rest
  | .barline _ :: rest => timedItems block unit index rest
  | .beat b :: rest =>
    let unit := b.directives.foldl Directive.unitAfter unit
    if b.subdivisions = [] then
      timedItems block unit index rest
    else
      ⟨⟨block, index⟩, b, unit⟩ ::
        timedItems block unit (index + 1) rest

/- The note value in force behind items. -/
def unitAfterItems
    (unit : String)
    (items : List LyricItem) : String :=
  (items.flatMap LyricItem.directives).foldl
    Directive.unitAfter unit

section Beats

variable (block : Int)
variable (unit : String)
variable (index : Nat)
variable {b : Beat}
variable (items : List LyricItem)

/-
  A beat without subdivisions is not rendered, but its
  directives hold.
-/
theorem timedItems_beat_of_empty
    (hEmpty : b.subdivisions = []) :
    timedItems block unit index (.beat b :: items) =
      timedItems block
        (b.directives.foldl Directive.unitAfter unit) index
        items := by
  rw [timedItems, if_pos hEmpty]

/-
  A beat with subdivisions is timed with the beat unit in
  force behind its directives.
-/
theorem timedItems_beat_of_rendered
    (hRendered : b.subdivisions ≠ []) :
    timedItems block unit index (.beat b :: items) =
      ⟨⟨block, index⟩, b,
          b.directives.foldl Directive.unitAfter unit⟩ ::
        timedItems block
          (b.directives.foldl Directive.unitAfter unit)
          (index + 1) items := by
  rw [timedItems, if_neg hRendered]

/-
  The directives of a beat set the beat
  unit for what follows.
-/
theorem unitAfterItems_beat
    (b : Beat) :
    unitAfterItems unit (.beat b :: items) =
      unitAfterItems
        (b.directives.foldl Directive.unitAfter unit)
        items := by
  simp [unitAfterItems, LyricItem.directives]

end Beats

/-
  The rendered beats of blocks, the first of which is the
  block `index`.
-/
def timedBlocks
    (unit : String)
    (index : Nat) : List Block → List TimedBeat
  | [] => []
  | b :: rest =>
    timedItems index unit 0 b.lyricStream ++
      timedBlocks (unitAfterItems unit b.lyricStream)
        (index + 1) rest

/- The exact length of beats in turn. -/
def totalLength
    (ticksPerQuarter : Int)
    (beats : List TimedBeat) : Rat :=
  (beats.map (TimedBeat.length ticksPerQuarter)).sum

@[simp] theorem totalLength_nil
    (ticksPerQuarter : Int) :
    totalLength ticksPerQuarter [] = 0 := rfl

@[simp] theorem totalLength_cons
    (ticksPerQuarter : Int)
    (t : TimedBeat)
    (beats : List TimedBeat) :
    totalLength ticksPerQuarter (t :: beats) =
      t.length ticksPerQuarter +
        totalLength ticksPerQuarter beats := by
  simp [totalLength]

@[simp] theorem totalLength_append
    (ticksPerQuarter : Int)
    (beats more : List TimedBeat) :
    totalLength ticksPerQuarter (beats ++ more) =
      totalLength ticksPerQuarter beats +
        totalLength ticksPerQuarter more := by
  simp [totalLength]

namespace Score

/- The rendered beats of a score, in order. -/
def timedBeats
    (s : Score)
    (unit : String) : List TimedBeat :=
  timedBlocks unit 0 s.blocks

/-
  The exact time at which a beat starts: the length of all
  beats before it.
-/
def start
    (s : Score)
    (unit : String)
    (ticksPerQuarter : Int)
    (key : BeatKey) : Rat :=
  totalLength ticksPerQuarter
    ((s.timedBeats unit).takeWhile fun t => t.key ≠ key)

end Score

------------------------------------------------------------
-- Keys
------------------------------------------------------------

/-
  Timed items have the key of their block,
  from the first index on.
-/
theorem key_of_mem_timedItems
    {block : Int}
    {unit : String}
    {index : Nat}
    {items : List LyricItem}
    {t : TimedBeat}
    (hMember : t ∈ timedItems block unit index items) :
    t.key.block = block ∧ index ≤ t.key.beat := by
  induction items generalizing unit index with
  | nil =>
      cases hMember
  | cons item items ih =>
      cases item with
      | directive d =>
          exact ih hMember
      | barline measure =>
          exact ih hMember
      | beat b =>
          rw [timedItems] at hMember
          split at hMember
          · exact ih hMember
          · rcases List.mem_cons.mp hMember with rfl | hMember
            · exact ⟨rfl, Nat.le_refl _⟩
            · have hLater := ih hMember
              exact ⟨hLater.1, by omega⟩

/- No two timed items of a block have the same key. -/
theorem nodup_timedItems
    (block : Int)
    (unit : String)
    (index : Nat)
    (items : List LyricItem) :
    ((timedItems block unit index items).map
      TimedBeat.key).Nodup := by
  induction items generalizing unit index with
  | nil =>
      exact List.nodup_nil
  | cons item items ih =>
      cases item with
      | directive d =>
          exact ih _ _
      | barline measure =>
          exact ih _ _
      | beat b =>
          rw [timedItems]
          split
          · exact ih _ _
          · rw [List.map_cons, List.nodup_cons]
            refine ⟨?_, ih _ _⟩
            intro hMember
            rcases List.mem_map.mp hMember with
              ⟨t, hTimed, hKey⟩
            have hLater := (key_of_mem_timedItems hTimed).2
            rw [hKey] at hLater
            exact absurd hLater (by simp)

/-
  Timed blocks have the keys of the first
  block and of later ones.
-/
theorem block_of_mem_timedBlocks
    {unit : String}
    {index : Nat}
    {bs : List Block}
    {t : TimedBeat}
    (hMember : t ∈ timedBlocks unit index bs) :
    (index : Int) ≤ t.key.block := by
  induction bs generalizing unit index with
  | nil =>
      cases hMember
  | cons b bs ih =>
      rcases List.mem_append.mp hMember with hFirst | hLater
      · exact Int.le_of_eq (key_of_mem_timedItems hFirst).1.symm
      · have hBlock := ih hLater
        push_cast at hBlock
        omega

/- No two rendered beats have one key. -/
theorem nodup_timedBlocks
    (unit : String)
    (index : Nat)
    (bs : List Block) :
    ((timedBlocks unit index bs).map TimedBeat.key).Nodup := by
  induction bs generalizing unit index with
  | nil =>
      exact List.nodup_nil
  | cons b bs ih =>
      rw [timedBlocks, List.map_append, List.nodup_append]
      refine ⟨nodup_timedItems _ _ _ _, ih _ _, ?_⟩
      intro key hFirst other hLater hSame
      rcases List.mem_map.mp hFirst with ⟨t, hTimed, rfl⟩
      rcases List.mem_map.mp hLater with ⟨u, hTimedLater, rfl⟩
      have hBlock := (key_of_mem_timedItems hTimed).1
      have hBlockLater := block_of_mem_timedBlocks hTimedLater
      rw [← hSame, hBlock] at hBlockLater
      push_cast at hBlockLater
      omega

theorem rendered_of_mem_timedItems
    {block : Int}
    {unit : String}
    {index : Nat}
    {items : List LyricItem}
    {t : TimedBeat}
    (hMember : t ∈ timedItems block unit index items) :
    t.beat.subdivisions ≠ [] := by
  induction items generalizing unit index with
  | nil =>
      cases hMember
  | cons item items ih =>
      cases item with
      | directive d =>
          exact ih hMember
      | barline measure =>
          exact ih hMember
      | beat b =>
          rw [timedItems] at hMember
          by_cases hRendered : b.subdivisions = []
          · rw [if_pos hRendered] at hMember
            exact ih hMember
          · rw [if_neg hRendered] at hMember
            rcases List.mem_cons.mp hMember with rfl | hMember
            · exact hRendered
            · exact ih hMember

theorem rendered_of_mem_timedBlocks
    {unit : String}
    {index : Nat}
    {bs : List Block}
    {t : TimedBeat}
    (hMember : t ∈ timedBlocks unit index bs) :
    t.beat.subdivisions ≠ [] := by
  induction bs generalizing unit index with
  | nil =>
      cases hMember
  | cons b bs ih =>
      rcases List.mem_append.mp hMember with hFirst | hLater
      · exact rendered_of_mem_timedItems hFirst
      · exact ih hLater

/- A beat starts when the beats before it are over. -/
theorem Score.start_of_split
    {s : Score}
    {unit : String}
    {before after : List TimedBeat}
    {t : TimedBeat}
    (hSplit : s.timedBeats unit = before ++ t :: after)
    (ticksPerQuarter : Int) :
    s.start unit ticksPerQuarter t.key =
      totalLength ticksPerQuarter before := by
  have hNodup := nodup_timedBlocks unit 0 s.blocks
  rw [← Score.timedBeats, hSplit, List.map_append,
    List.map_cons, List.nodup_append] at hNodup
  have hBefore :
      ∀ u ∈ before, decide (u.key ≠ t.key) = true := by
    intro u hMember
    have hApart :=
      hNodup.2.2 u.key (List.mem_map_of_mem hMember) t.key
        List.mem_cons_self
    simpa using hApart
  rw [Score.start, hSplit, List.takeWhile_append_of_pos hBefore]
  simp

------------------------------------------------------------
-- The beat map
------------------------------------------------------------

/-
  Beats by their keys, with the exact
  times at which they start.
-/
def startsFrom
    (ticksPerQuarter : Int)
    (now : Rat) : List TimedBeat → List (BeatKey × Rat)
  | [] => []
  | t :: rest =>
    (t.key, now) ::
      startsFrom ticksPerQuarter
        (now + t.length ticksPerQuarter) rest

/- Beats behind beats start where these end. -/
theorem startsFrom_append
    (ticksPerQuarter : Int)
    (now : Rat)
    (beats more : List TimedBeat) :
    startsFrom ticksPerQuarter now (beats ++ more) =
      startsFrom ticksPerQuarter now beats ++
        startsFrom ticksPerQuarter
          (now + totalLength ticksPerQuarter beats)
          more := by
  induction beats generalizing now with
  | nil =>
      simp [startsFrom]
  | cons t beats ih =>
      simp [startsFrom, ih, add_assoc]

/-
  The beats of a part of a score start where the beats
  before it end.
-/
theorem Score.startsFrom_of_split
    {s : Score}
    {unit : String}
    {before after : List TimedBeat}
    (hSplit : s.timedBeats unit = before ++ after)
    (ticksPerQuarter : Int) :
    startsFrom ticksPerQuarter
        (totalLength ticksPerQuarter before) after =
      after.map fun t =>
        (t.key, s.start unit ticksPerQuarter t.key) := by
  induction after generalizing before with
  | nil =>
      rfl
  | cons t after ih =>
      have hThrough :
          s.timedBeats unit = (before ++ [t]) ++ after := by
        simp [hSplit]
      have hLater := ih hThrough
      simp only [totalLength_append, totalLength_cons,
        totalLength_nil, add_zero] at hLater
      rw [startsFrom, List.map_cons, hLater,
        Score.start_of_split hSplit]

namespace BeatClock

/-
  A directive changes nothing of the
  clock but the beat unit.
-/
theorem follow_eq
    (c : BeatClock)
    (d : Directive) :
    c.follow d = { c with unit := d.unitAfter c.unit } := by
  cases hOrder : d.order <;>
    simp [follow, Directive.unitAfter, hOrder]

theorem foldl_follow
    (c : BeatClock)
    (ds : List Directive) :
    ds.foldl follow c =
      { c with
        unit := ds.foldl Directive.unitAfter c.unit } := by
  induction ds generalizing c with
  | nil =>
      rfl
  | cons d ds ih =>
      rw [List.foldl_cons, List.foldl_cons, ih, follow_eq]

/-
  A beat map is made if the length of every
  rendered beat can be read.
-/
theorem items_eq_timedItems
    (ticksPerQuarter : Int)
    (block : Int)
    (c : BeatClock)
    (index : Nat)
    (items : List LyricItem)
    (hScales :
      ∀ t ∈ timedItems block c.unit index items,
        t.beat.scale = .ok t.beat.units) :
    BeatClock.items ticksPerQuarter block c index items =
      .ok
        ((startsFrom ticksPerQuarter c.now
            (timedItems block c.unit index items)).map
              fun (key, time) => (key, roundHalfEven time),
          { unit := unitAfterItems c.unit items
            now :=
              c.now +
                totalLength ticksPerQuarter
                  (timedItems block c.unit index
                    items) }) := by
  induction items generalizing c index with
  | nil =>
      simp [BeatClock.items, timedItems, startsFrom,
        unitAfterItems]
  | cons item items ih =>
      cases item with
      | directive d =>
          rw [BeatClock.items, follow_eq, ih _ index hScales]
          rfl
      | barline measure =>
          rw [BeatClock.items, ih c index hScales]
          rfl
      | beat b =>
          rw [BeatClock.items, foldl_follow,
            unitAfterItems_beat]
          by_cases hEmpty : b.subdivisions = []
          · rw [timedItems_beat_of_empty block c.unit index
              items hEmpty] at hScales ⊢
            rw [if_pos hEmpty]
            exact ih _ _ hScales
          · rw [timedItems_beat_of_rendered block c.unit
              index items hEmpty] at hScales ⊢
            rw [if_neg hEmpty]
            have hScale := hScales _ List.mem_cons_self
            have hTicks :
                b.ticks
                    (b.directives.foldl Directive.unitAfter
                      c.unit) ticksPerQuarter =
                  .ok
                    (TimedBeat.length ticksPerQuarter
                      ⟨⟨block, index⟩, b,
                        b.directives.foldl
                          Directive.unitAfter c.unit⟩) := by
              rw [Beat.ticks, hScale]
              rfl
            have hRest :=
              ih
                { unit :=
                    b.directives.foldl Directive.unitAfter
                      c.unit
                  now :=
                    c.now +
                      TimedBeat.length ticksPerQuarter
                        ⟨⟨block, index⟩, b,
                          b.directives.foldl
                            Directive.unitAfter c.unit⟩ }
                (index + 1) (fun t hMember =>
                  hScales t
                    (List.mem_cons_of_mem _ hMember))
            simp only [hTicks, Outcome.ok_bind, hRest,
              Outcome.pure_eq, startsFrom, List.map_cons,
              totalLength_cons, add_assoc]

/- The clock rounds the exact starts of the timed blocks. -/
theorem blocks_eq_timedBlocks
    (ticksPerQuarter : Int)
    (c : BeatClock)
    (index : Nat)
    (bs : List Block)
    (hScales :
      ∀ t ∈ timedBlocks c.unit index bs,
        t.beat.scale = .ok t.beat.units) :
    ∃ unit,
      BeatClock.blocks ticksPerQuarter c index bs =
        .ok
          ((startsFrom ticksPerQuarter c.now
              (timedBlocks c.unit index bs)).map
                fun (key, time) => (key, roundHalfEven time),
            { unit
              now :=
                c.now +
                  totalLength ticksPerQuarter
                    (timedBlocks c.unit index bs) }) := by
  induction bs generalizing c index with
  | nil =>
      exact ⟨c.unit,
        by simp [BeatClock.blocks, timedBlocks, startsFrom]⟩
  | cons b bs ih =>
      rw [timedBlocks] at hScales
      have hFirst :=
        items_eq_timedItems ticksPerQuarter index c 0
          b.lyricStream fun t hMember =>
          hScales t (List.mem_append_left _ hMember)
      rcases
        ih
          { unit := unitAfterItems c.unit b.lyricStream
            now :=
              c.now +
                totalLength ticksPerQuarter
                  (timedItems index c.unit 0
                    b.lyricStream) }
          (index + 1) (fun t hMember =>
            hScales t (List.mem_append_right _ hMember))
        with ⟨unit, hRest⟩
      refine ⟨unit, ?_⟩
      simp only [BeatClock.blocks, hFirst, Outcome.ok_bind,
        hRest, Outcome.pure_eq, timedBlocks,
        startsFrom_append, List.map_append,
        totalLength_append, add_assoc]

end BeatClock

/-
  The beat map of a score holds the starts of its rendered
  beats and the length of all, each rounded on its own.
-/
theorem Score.beatMap_eq_starts
    {s : Score}
    {unit : String}
    (hScales :
      ∀ t ∈ s.timedBeats unit,
        t.beat.scale = .ok t.beat.units)
    (ticksPerQuarter : Int) :
    s.beatMap unit ticksPerQuarter =
      .ok
        ⟨(s.timedBeats unit).map fun t =>
            (t.key,
              roundHalfEven
                (s.start unit ticksPerQuarter t.key)),
          roundHalfEven
            (totalLength ticksPerQuarter
              (s.timedBeats unit))⟩ := by
  rcases BeatClock.blocks_eq_timedBlocks ticksPerQuarter
      { unit := unit } 0 s.blocks hScales with
    ⟨last, hBlocks⟩
  have hStarts :
      startsFrom ticksPerQuarter
          (totalLength ticksPerQuarter [])
          (s.timedBeats unit) =
        (s.timedBeats unit).map fun t =>
          (t.key, s.start unit ticksPerQuarter t.key) :=
    Score.startsFrom_of_split rfl ticksPerQuarter
  rw [totalLength_nil] at hStarts
  rw [Score.beatMap, hBlocks, ← Score.timedBeats, hStarts]
  simp

end LyricScore
