import LyricScore.Compile
import LyricScore.Proofs.Timing.Timeline

/-
  This file tells when a score can be timed: the digits at the
  head of every rendered beat have to be readable as a number.
  Nothing else of a score matters to its beat map.

  Key definitions include:
    * `Beat.IsMeasurable`
    * `LyricItem.IsMeasurable`
    * `Score.IsMeasurable`

  Key theorems include:
    * `Beat.exists_scale_iff`
    * `Score.measurable_iff`
    * `Score.exists_timing_iff`
-/

namespace LyricScore

------------------------------------------------------------
-- Measurable beats
------------------------------------------------------------

/-
  The digits at the head of a beat are not
  too many to be read.
-/
def Beat.IsMeasurable
    (b : Beat) : Prop :=
  b.scaleDigits.length ≤ Numeral.digitLimit

/- A beat that is rendered is measurable. -/
def LyricItem.IsMeasurable : LyricItem → Prop
  | .beat b => b.subdivisions ≠ [] → b.IsMeasurable
  | _ => True

/- Every rendered beat of a score is measurable. -/
def Score.IsMeasurable
    (s : Score) : Prop :=
  ∀ b ∈ s.blocks, ∀ item ∈ b.lyricStream, item.IsMeasurable

instance
    (b : Beat) :
    Decidable b.IsMeasurable := by
  unfold Beat.IsMeasurable
  infer_instance

instance
    (item : LyricItem) :
    Decidable item.IsMeasurable := by
  unfold LyricItem.IsMeasurable
  cases item <;> infer_instance

instance
    (s : Score) :
    Decidable s.IsMeasurable := by
  unfold Score.IsMeasurable
  infer_instance

/-
  The units of a beat are there just if it can be measured.
-/
theorem Beat.exists_scale_iff
    {b : Beat} :
    (∃ n, b.scale = .ok n) ↔ b.IsMeasurable := by
  unfold Beat.scale Beat.IsMeasurable
  cases b.scaleDigits with
  | nil =>
      simp
  | cons d ds =>
      simp only [Numeral.ofDigits]
      by_cases hLong : (d :: ds).length > Numeral.digitLimit
      · rw [if_pos hLong]
        simpa using hLong
      · rw [if_neg hLong]
        simpa using hLong

theorem Beat.exists_ticks_iff
    {b : Beat}
    (unit : String)
    (ticksPerQuarter : Int) :
    (∃ ticks, b.ticks unit ticksPerQuarter = .ok ticks) ↔
      b.IsMeasurable := by
  rw [Beat.ticks, Outcome.exists_map_eq_ok,
    ← Beat.exists_scale_iff]
  exact Outcome.exists_bind_of_total fun _ => ⟨_, rfl⟩

------------------------------------------------------------
-- Rendered beats
------------------------------------------------------------

/- Timed items can be measured just if the items can be. -/
theorem measurable_timedItems_iff
    (block : Int)
    (unit : String)
    (index : Nat)
    (items : List LyricItem) :
    (∀ t ∈ timedItems block unit index items,
        t.beat.IsMeasurable) ↔
      ∀ item ∈ items, item.IsMeasurable := by
  induction items generalizing unit index with
  | nil =>
      simp [timedItems]
  | cons item items ih =>
      rw [List.forall_mem_cons]
      cases item with
      | directive d =>
          rw [timedItems, ih]
          simp [LyricItem.IsMeasurable]
      | barline measure =>
          rw [timedItems, ih]
          simp [LyricItem.IsMeasurable]
      | beat b =>
          by_cases hEmpty : b.subdivisions = []
          · rw [timedItems_beat_of_empty _ _ _ _ hEmpty, ih]
            simp [LyricItem.IsMeasurable, hEmpty]
          · rw [timedItems_beat_of_rendered _ _ _ _ hEmpty,
              List.forall_mem_cons, ih]
            simp [LyricItem.IsMeasurable, hEmpty]

theorem measurable_timedBlocks_iff
    (unit : String)
    (index : Nat)
    (bs : List Block) :
    (∀ t ∈ timedBlocks unit index bs, t.beat.IsMeasurable) ↔
      ∀ b ∈ bs, ∀ item ∈ b.lyricStream, item.IsMeasurable := by
  induction bs generalizing unit index with
  | nil =>
      simp [timedBlocks]
  | cons b bs ih =>
      rw [timedBlocks, List.forall_mem_append,
        measurable_timedItems_iff, ih, List.forall_mem_cons]

/-
  The rendered beats of a score are those
  that its blocks hold.
-/
theorem Score.measurable_iff
    (s : Score)
    (unit : String) :
    (∀ t ∈ s.timedBeats unit, t.beat.IsMeasurable) ↔
      s.IsMeasurable :=
  measurable_timedBlocks_iff unit 0 s.blocks

------------------------------------------------------------
-- Beat maps
------------------------------------------------------------

namespace BeatClock

variable (ticksPerQuarter : Int)
variable (c : BeatClock)
variable (index : Nat)

/-
  The clock gets through a block just if its
  items can be measured.
-/
theorem exists_items_iff
    (block : Int)
    (its : List LyricItem) :
    (∃ r, items ticksPerQuarter block c index its = .ok r) ↔
      ∀ item ∈ its, item.IsMeasurable := by
  induction its generalizing c index with
  | nil =>
      simp [items]
  | cons item its ih =>
      rw [List.forall_mem_cons]
      cases item with
      | directive d =>
          rw [items, ih]
          simp [LyricItem.IsMeasurable]
      | barline measure =>
          rw [items, ih]
          simp [LyricItem.IsMeasurable]
      | beat b =>
          by_cases hEmpty : b.subdivisions = []
          · rw [items, if_pos hEmpty, ih]
            simp [LyricItem.IsMeasurable, hEmpty]
          · have hMeasurable :
                (LyricItem.beat b).IsMeasurable ↔
                  b.IsMeasurable := by
              simp [LyricItem.IsMeasurable, hEmpty]
            rw [items, if_neg hEmpty, hMeasurable]
            apply Outcome.exists_bind_iff
              (Beat.exists_ticks_iff _ _)
            intro ticks _
            exact Iff.trans
              (Outcome.exists_bind_of_total fun _ =>
                ⟨_, rfl⟩) (ih _ _)

theorem exists_blocks_iff
    (bs : List Block) :
    (∃ r, blocks ticksPerQuarter c index bs = .ok r) ↔
      ∀ b ∈ bs, ∀ item ∈ b.lyricStream, item.IsMeasurable := by
  induction bs generalizing c index with
  | nil =>
      simp [blocks]
  | cons b bs ih =>
      rw [blocks, List.forall_mem_cons]
      apply Outcome.exists_bind_iff (exists_items_iff _ _ _ _ _)
      intro first _
      exact Iff.trans
        (Outcome.exists_bind_of_total fun _ => ⟨_, rfl⟩)
        (ih _ _)

end BeatClock

/-
  A score has a beat map if its rendered beats are
  measurable, and only then.
-/
theorem Score.exists_timing_iff
    (settings : AudioSettings)
    (s : Score) :
    (∃ map, s.timing settings = .ok map) ↔ s.IsMeasurable := by
  rw [Score.timing, Outcome.exists_mapError_eq_ok,
    Score.beatMap]
  exact
    Iff.trans (Outcome.exists_bind_of_total fun _ => ⟨_, rfl⟩)
      (BeatClock.exists_blocks_iff _ _ _ s.blocks)

end LyricScore
