import Mathlib.Data.List.Basic
import LyricScore.Performance.Action
import LyricScore.Proofs.Performance.Player
import LyricScore.Proofs.Stream.Segment
import LyricScore.Timing.BeatMap

/-
  This file cuts a score into moments: directives of the lyric
  stream, barlines and the subdivisions of beats, in the order
  in which they are met.  A player that goes from moment to
  moment does what a player does that goes by blocks, cues and
  slots, so facts about whole scores follow from facts about
  single moments.

  Key definitions include:
    * `Part`
    * `Moment`
    * `Cue.moments`
    * `Score.moments`
    * `Player.moment`
    * `Player.moments`
    * `Player.opening`

  Key theorems include:
    * `Score.subdivisions_moments`
    * `Player.moments_append`
    * `Player.blocks_eq_perform`
    * `Score.actions_eq_moments`
-/

namespace LyricScore

------------------------------------------------------------
-- Moments
------------------------------------------------------------

/-
  A subdivision in its place: the key of its beat, how many
  subdivisions stand before it in the beat and how many there
  are in all, the beat, and what the subdivision sounds.
-/
structure Part where
  key : BeatKey
  index : Nat
  count : Nat
  beat : Beat
  slot : Slot Attack
deriving DecidableEq, Repr

/- What is met in a score, one after the other. -/
inductive Moment where
  | directive (d : Directive)
  | barline (measure : Nat)
  | part (p : Part)
deriving DecidableEq, Repr

namespace Moment

/- The part that is met. -/
def part? : Moment → Option Part
  | part p => some p
  | _ => none

/- The subdivision that is met. -/
def subdivision?
    (m : Moment) : Option Subdivision :=
  m.part?.map fun p => p.slot.subdivision

end Moment

/-
  Slots of a beat of `count` subdivisions, the first of
  which has the index `first`.
-/
def Beat.parts
    (b : Beat)
    (key : BeatKey)
    (count first : Nat)
    (slots : List (Slot Attack)) : List Moment :=
  (slots.zipIdx first).map fun (slot, index) =>
    .part ⟨key, index, count, b, slot⟩

theorem Beat.parts_nil
    (b : Beat)
    (key : BeatKey)
    (count first : Nat) :
    b.parts key count first [] = [] := by
  rfl

/- The first slot of a beat is its first part. -/
theorem Beat.parts_cons
    (b : Beat)
    (key : BeatKey)
    (count first : Nat)
    (slot : Slot Attack)
    (slots : List (Slot Attack)) :
    b.parts key count first (slot :: slots) =
      .part ⟨key, first, count, b, slot⟩ ::
        b.parts key count (first + 1) slots := by
  simp [parts, List.zipIdx_cons]

/-
  The moments of cues of a block, the first rendered beat of
  which is the beat `index`.  A beat without subdivisions is
  not rendered, but its directives are met.
-/
def Cue.moments
    (block : Int)
    (index : Nat) : List (Cue Attack) → List Moment
  | [] => []
  | .directive d :: rest =>
      .directive d :: moments block index rest
  | .barline measure :: rest =>
      .barline measure :: moments block index rest
  | .beat b slots :: rest =>
    b.directives.map .directive ++
      b.parts ⟨block, index⟩ slots.length 0 slots ++
      moments block
        (if slots = [] then index else index + 1) rest

/- The moments of a block. -/
def Block.moments
    (b : Block)
    (block : Int) : List Moment :=
  Cue.moments block 0 b.voices

/-
  The moments of blocks, the first of which
  has the index `index`.
-/
def blockMoments
    (index : Nat) : List Block → List Moment
  | [] => []
  | b :: rest =>
      b.moments index ++ blockMoments (index + 1) rest

/- The moments of a score. -/
def Score.moments
    (s : Score) : List Moment :=
  blockMoments 0 s.blocks

/- The parts of a beat have the subdivisions of its slots. -/
theorem subdivisions_parts
    (b : Beat)
    (key : BeatKey)
    (count first : Nat)
    (slots : List (Slot Attack)) :
    (b.parts key count first slots).filterMap
        Moment.subdivision? =
      slots.map Slot.subdivision := by
  induction slots generalizing first with
  | nil =>
      rfl
  | cons slot slots ih =>
      simp [Beat.parts_cons, Moment.subdivision?,
        Moment.part?, ih]

/-
  The moments of cues have the subdivisions of their slots.
-/
theorem subdivisions_cues
    (block : Int)
    (index : Nat)
    (cues : List (Cue Attack)) :
    (Cue.moments block index cues).filterMap
        Moment.subdivision? =
      cues.flatMap fun cue =>
        cue.slots.map Slot.subdivision := by
  induction cues generalizing index with
  | nil =>
      rfl
  | cons cue cues ih =>
      cases cue with
      | directive d =>
          exact ih index
      | barline measure =>
          exact ih index
      | beat b slots =>
          have hDirectives :
              (b.directives.map Moment.directive).filterMap
                  Moment.subdivision? =
                [] := by
            simp [Moment.subdivision?, Moment.part?]
          rw [Cue.moments, List.filterMap_append,
            List.filterMap_append, hDirectives,
            subdivisions_parts, ih, List.flatMap_cons]
          rfl

/-
  The parts of a block are the
  subdivisions of its lyric stream.
-/
theorem Block.subdivisions_moments
    (b : Block)
    (block : Int) :
    (b.moments block).filterMap Moment.subdivision? =
      b.lyricStream.flatMap LyricItem.subdivisions := by
  calc
    (b.moments block).filterMap Moment.subdivision? =
        b.voices.flatMap (fun cue =>
        cue.slots.map Slot.subdivision) :=
      subdivisions_cues block 0 b.voices
    _ = b.voices.flatMap (fun cue =>
        cue.item.subdivisions) :=
      List.flatMap_congr fun cue hCue =>
        Block.subdivisions_of_mem_voices hCue
    _ =
      (b.voices.map Cue.item).flatMap
        LyricItem.subdivisions := by
        rw [List.flatMap_map]
    _ = b.lyricStream.flatMap LyricItem.subdivisions := by
        rw [b.map_item_voices]

/-
  The parts of a score are the subdivisions
  of its blocks, in order.
-/
theorem Score.subdivisions_moments
    (s : Score) :
    s.moments.filterMap Moment.subdivision? =
      s.blocks.flatMap fun b =>
        b.lyricStream.flatMap LyricItem.subdivisions := by
  have hBlocks (index : Nat) (bs : List Block) :
      (blockMoments index bs).filterMap
          Moment.subdivision? =
        bs.flatMap fun b =>
          b.lyricStream.flatMap LyricItem.subdivisions := by
    induction bs generalizing index with
    | nil =>
        rfl
    | cons b bs ih =>
        rw [blockMoments, List.filterMap_append,
          b.subdivisions_moments, ih, List.flatMap_cons]
  exact hBlocks 0 s.blocks

------------------------------------------------------------
-- Players by moments
------------------------------------------------------------

namespace Player

/-
  Play one moment.  A subdivision lasts its share of the beat,
  by the note value in force.
-/
def moment
    (ticksPerQuarter : Int)
    (p : Player) :
      Moment → Except NumeralError (List Action × Player)
  | .directive d => .ok (p.followLyrics d)
  | .barline _ => .ok ([], p)
  | .part part => do
    let ticks ← part.beat.ticks p.unit ticksPerQuarter
    let (done, p) ← p.sound part.slot
    return (done, p.wait (ticks / part.count))

/- Play moments in turn, and tell what was done at each. -/
def moments
    (ticksPerQuarter : Int)
    (p : Player) :
      List Moment →
        Except NumeralError
          (List (Moment × List Action) × Player)
  | [] => .ok ([], p)
  | m :: rest => do
    let (done, p) ← p.moment ticksPerQuarter m
    let (more, p) ← moments ticksPerQuarter p rest
    return ((m, done) :: more, p)

/- Play moments in turn, and tell all that was done. -/
def perform
    (ticksPerQuarter : Int)
    (p : Player)
    (ms : List Moment) :
      Except NumeralError (List Action × Player) :=
  (p.moments ticksPerQuarter ms).map fun (done, p) =>
    (done.flatMap Prod.snd, p)

variable {ticksPerQuarter : Int}

theorem moments_nil_eq_ok
    {p q : Player}
    {done : List (Moment × List Action)}
    (hRun : p.moments ticksPerQuarter [] = .ok (done, q)) :
    done = [] ∧ q = p := by
  simp only [moments, Except.ok.injEq, Prod.mk.injEq] at hRun
  exact ⟨hRun.1.symm, hRun.2.symm⟩

theorem moments_cons_eq_ok
    {p q : Player}
    {m : Moment}
    {ms : List Moment}
    {done : List (Moment × List Action)}
    (hRun :
      p.moments ticksPerQuarter (m :: ms) = .ok (done, q)) :
    ∃ first r more,
      p.moment ticksPerQuarter m = .ok (first, r) ∧
        r.moments ticksPerQuarter ms = .ok (more, q) ∧
        done = (m, first) :: more := by
  simp only [moments, Outcome.bind_eq_ok, Outcome.pure_eq,
    Except.ok.injEq, Prod.mk.injEq] at hRun
  rcases hRun with
    ⟨⟨first, r⟩, hFirst, ⟨more, q⟩, hMore, rfl, rfl⟩
  exact ⟨first, r, more, hFirst, hMore, rfl⟩

/- Every moment is told of, in order. -/
theorem map_fst_moments
    {p q : Player}
    {ms : List Moment}
    {done : List (Moment × List Action)}
    (hRun : p.moments ticksPerQuarter ms = .ok (done, q)) :
    done.map Prod.fst = ms := by
  induction ms generalizing p done with
  | nil =>
      rcases moments_nil_eq_ok hRun with ⟨rfl, -⟩
      rfl
  | cons m ms ih =>
      rcases moments_cons_eq_ok hRun with
        ⟨first, r, more, -, hMore, rfl⟩
      rw [List.map_cons, ih hMore]

/-
  What holds of all that a player does at a moment holds at
  every moment.
-/
theorem forall_mem_moments
    {Does : Moment → List Action → Prop}
    (hStep :
      ∀ p q m done,
        Player.moment ticksPerQuarter p m = .ok (done, q) →
          Does m done)
    {p q : Player}
    {ms : List Moment}
    {done : List (Moment × List Action)}
    (hRun : p.moments ticksPerQuarter ms = .ok (done, q)) :
    ∀ d ∈ done, Does d.1 d.2 := by
  induction ms generalizing p done with
  | nil =>
      rcases moments_nil_eq_ok hRun with ⟨rfl, -⟩
      simp
  | cons m ms ih =>
      rcases moments_cons_eq_ok hRun with
        ⟨first, r, more, hFirst, hMore, rfl⟩
      intro d hMember
      rcases List.mem_cons.mp hMember with rfl | hMember
      · exact hStep _ _ _ _ hFirst
      · exact ih hMore d hMember

/-
  The first moments are played whether
  or not there are more.
-/
theorem moments_take
    {p q : Player}
    {ms : List Moment}
    {done : List (Moment × List Action)}
    (hRun : p.moments ticksPerQuarter ms = .ok (done, q))
    (k : Nat) :
    ∃ r,
      p.moments ticksPerQuarter (ms.take k) =
        .ok (done.take k, r) := by
  induction ms generalizing p done k with
  | nil =>
      rcases moments_nil_eq_ok hRun with ⟨rfl, -⟩
      exact ⟨p, by simp [moments]⟩
  | cons m ms ih =>
      cases k with
      | zero =>
          exact ⟨p, by simp [moments]⟩
      | succ k =>
          rcases moments_cons_eq_ok hRun with
            ⟨first, r, more, hFirst, hMore, rfl⟩
          rcases ih hMore k with ⟨last, hLast⟩
          exact ⟨last, by simp [moments, hFirst, hLast]⟩

theorem moments_append
    (p : Player)
    (ms more : List Moment) :
    p.moments ticksPerQuarter (ms ++ more) = do
      let (done, p) ← p.moments ticksPerQuarter ms
      let (rest, p) ← p.moments ticksPerQuarter more
      return (done ++ rest, p) := by
  induction ms generalizing p with
  | nil =>
      cases hMore : p.moments ticksPerQuarter more <;>
        simp [moments, hMore]
  | cons m ms ih =>
      simp only [List.cons_append, moments, ih, bind_assoc]
      apply bind_congr
      intro first
      cases hMs : first.2.moments ticksPerQuarter ms with
      | error e =>
          simp
      | ok done =>
          cases hMore : done.2.moments ticksPerQuarter
            more <;>
            simp [hMore]

theorem perform_append
    (p : Player)
    (ms more : List Moment) :
    p.perform ticksPerQuarter (ms ++ more) = do
      let (done, p) ← p.perform ticksPerQuarter ms
      let (rest, p) ← p.perform ticksPerQuarter more
      return (done ++ rest, p) := by
  simp only [perform, moments_append]
  cases hMs : p.moments ticksPerQuarter ms with
  | error e =>
      simp
  | ok done =>
      cases hMore : done.2.moments ticksPerQuarter more <;>
        simp [hMore]

theorem perform_cons
    (p : Player)
    (m : Moment)
    (ms : List Moment) :
    p.perform ticksPerQuarter (m :: ms) = do
      let (done, p) ← p.moment ticksPerQuarter m
      let (rest, p) ← p.perform ticksPerQuarter ms
      return (done ++ rest, p) := by
  simp only [perform, moments]
  cases hMoment : p.moment ticksPerQuarter m with
  | error e =>
      simp
  | ok done =>
      cases hMs : done.2.moments ticksPerQuarter ms <;>
        simp [hMs]

------------------------------------------------------------
-- By moments or by beats
------------------------------------------------------------

/- Directives by themselves are followed one by one. -/
theorem perform_directives
    (p : Player)
    (ds : List Directive) :
    p.perform ticksPerQuarter (ds.map .directive) =
      .ok (p.followAllLyrics ds) := by
  induction ds generalizing p with
  | nil =>
      rfl
  | cons d ds ih =>
      simp [perform_cons, moment, ih, followAllLyrics]

/-
  The parts of a beat are its slots played in turn.  The note
  value stays the same in between, so each part finds the
  length that the beat has at its start.
-/
theorem perform_parts
    {p : Player}
    {b : Beat}
    {ticks : Rat}
    (hTicks : b.ticks p.unit ticksPerQuarter = .ok ticks)
    (key : BeatKey)
    (count first : Nat)
    (slots : List (Slot Attack)) :
    p.perform ticksPerQuarter (b.parts key count first slots) =
      p.slots (ticks / count) slots := by
  induction slots generalizing p first with
  | nil =>
      rfl
  | cons slot slots ih =>
      rw [Beat.parts_cons, perform_cons, Player.slots]
      cases hSound : p.sound slot with
      | error e =>
          simp [moment, hTicks, hSound]
      | ok done =>
          have hUnit :
              (done.2.wait (ticks / count)).unit =
                p.unit := by
            rw [frame_sound hSound]
            rfl
          have hLater :
              b.ticks (done.2.wait (ticks / count)).unit
                  ticksPerQuarter =
                .ok ticks := by
            rw [hUnit, hTicks]
          simp [moment, hTicks, hSound, ih hLater]

/-
  A beat is performed as its directives and then its parts.
-/
theorem perform_beat
    (p : Player)
    (b : Beat)
    (key : BeatKey)
    (slots : List (Slot Attack)) :
    p.perform ticksPerQuarter
      (b.directives.map .directive ++
        b.parts key slots.length 0 slots) =
      p.beat ticksPerQuarter b slots := by
  rw [perform_append, perform_directives, beat]
  cases slots with
  | nil =>
      simp [Beat.parts_nil, perform, moments]
  | cons slot slots =>
      simp only [Outcome.ok_bind, reduceCtorEq, if_false]
      cases hTicks : b.ticks
        (p.followAllLyrics b.directives).2.unit
        ticksPerQuarter with
      | error e =>
          simp [Beat.parts_cons, perform_cons, moment, hTicks]
      | ok ticks =>
          rw [perform_parts hTicks]
          rfl

/- A player by moments plays cues like a player by cues. -/
theorem cues_eq_perform
    (p : Player)
    (block : Int)
    (index : Nat)
    (cues : List (Cue Attack)) :
    p.cues ticksPerQuarter cues =
      p.perform ticksPerQuarter
        (Cue.moments block index cues) := by
  induction cues generalizing p index with
  | nil =>
      rfl
  | cons cue cues ih =>
      cases cue with
      | directive d =>
          rw [Cue.moments, perform_cons]
          simp [Player.cues, moment, ih _ index]
      | barline measure =>
          rw [Cue.moments, perform_cons, Player.cues,
            ih _ index]
          cases hRest : p.perform ticksPerQuarter
            (Cue.moments block index cues) <;>
            simp [moment, hRest]
      | beat b slots =>
          rw [Cue.moments, perform_append, perform_beat,
            Player.cues]
          apply bind_congr
          intro first
          simp only [ih _
            (if slots = [] then index else index + 1)]

/-
  A player by moments plays blocks like a player by blocks.
-/
theorem blocks_eq_perform
    (p : Player)
    (index : Nat)
    (bs : List Block) :
    p.blocks ticksPerQuarter bs =
      p.perform ticksPerQuarter (blockMoments index bs) := by
  induction bs generalizing p index with
  | nil =>
      rfl
  | cons b bs ih =>
      rw [blockMoments, perform_append, Player.blocks,
        Block.moments, ← cues_eq_perform]
      apply bind_congr
      intro first
      simp only [ih _ (index + 1)]

end Player

/- What a player does before the first moment. -/
def Player.opening
    (settings : AudioSettings) : List Action :=
  let p := Player.start settings
  [p.act (.tempo p.tempo),
    p.act (.program settings.defaultInstrument)]

/-
  The actions of a score are those at its moments, between an
  opening and the release of what sounds at the end.
-/
theorem Score.actions_eq_moments
    (settings : AudioSettings)
    (s : Score) :
    s.actions settings = do
      let (done, p) ←
        (Player.start settings).moments
          settings.ticksPerQuarter s.moments
      return Player.opening settings ++
        done.flatMap Prod.snd ++ p.silence.1 := by
  simp only [Score.actions, Player.blocks_eq_perform _ 0,
    Player.perform, Score.moments]
  cases (Player.start settings).moments settings.ticksPerQuarter
      (blockMoments 0 s.blocks) <;> simp [Player.opening]

end LyricScore
