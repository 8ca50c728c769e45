import LyricScore.Proofs.Performance.TempoTrack
import LyricScore.Proofs.Score.Selection

/-
  This file tells which directives are met by the time a beat
  is played: those of the lyric streams before it, and its
  own.  They decide its tempo and its note value.  Among the
  moments of a score the beat is met first behind them.

  Key definitions include:
    * `MetBeat`
    * `Score.metBeats`
    * `Moment.key?`
    * `MetBeat.IsMetIn`
    * `MetBeat.select`

  Key theorems include:
    * `Score.timed_metBeats`
    * `Score.isMetIn_moments`
    * `Score.metBeats_select`
-/

namespace LyricScore

------------------------------------------------------------
-- Beats and directives
------------------------------------------------------------

/-
  A rendered beat, and the directives of the lyric streams
  that are met by then.
-/
structure MetBeat where
  key : BeatKey
  beat : Beat
  met : List Directive
deriving DecidableEq, Repr

namespace MetBeat

variable (settings : AudioSettings)

/- The tempo in force at a beat. -/
def bpm
    (m : MetBeat) : Int :=
  m.met.foldl Directive.bpmAfter settings.defaultTempo

/- The note value in force at a beat. -/
def unit
    (m : MetBeat) : String :=
  m.met.foldl Directive.unitAfter settings.defaultBeatUnit

/- The beat with the note value that is in force at it. -/
def timed
    (m : MetBeat) : TimedBeat :=
  ⟨m.key, m.beat, m.unit settings⟩

end MetBeat

/-
  The rendered beats of a lyric stream, the first of
  which is the beat `index` of the block.  The
  directives `met` are met before.
-/
def metItems
    (block : Int)
    (met : List Directive)
    (index : Nat) : List LyricItem → List MetBeat
  | [] => []
  | .directive d :: rest =>
      metItems block (met ++ [d]) index rest
  | .barline _ :: rest => metItems block met index rest
  | .beat b :: rest =>
    let met := met ++ b.directives
    if b.subdivisions = [] then
      metItems block met index rest
    else
      ⟨⟨block, index⟩, b, met⟩ ::
        metItems block met (index + 1) rest

/-
  The rendered beats of blocks, the first of which is the
  block `index`.
-/
def metBlocks
    (met : List Directive)
    (index : Nat) : List Block → List MetBeat
  | [] => []
  | b :: rest =>
    metItems index met 0 b.lyricStream ++
      metBlocks
        (met ++ b.lyricStream.flatMap LyricItem.directives)
        (index + 1) rest

/- The rendered beats of a score, in order. -/
def Score.metBeats
    (s : Score) : List MetBeat :=
  metBlocks [] 0 s.blocks

/-
  The met beats of a block are its timed beats, with the
  beat unit in force.
-/
theorem timed_metItems
    (settings : AudioSettings)
    (block : Int)
    (met : List Directive)
    (index : Nat)
    (items : List LyricItem) :
    (metItems block met index items).map
        (MetBeat.timed settings) =
      timedItems block
        (met.foldl Directive.unitAfter
          settings.defaultBeatUnit) index
        items := by
  induction items generalizing met index with
  | nil =>
      rfl
  | cons item items ih =>
      cases item with
      | directive d =>
          rw [metItems, ih, List.foldl_append]
          rfl
      | barline measure =>
          exact ih met index
      | beat b =>
          by_cases hEmpty : b.subdivisions = []
          · rw [metItems, if_pos hEmpty, ih,
              timedItems_beat_of_empty _ _ _ _ hEmpty,
              List.foldl_append]
          · rw [metItems, if_neg hEmpty, List.map_cons, ih,
              timedItems_beat_of_rendered _ _ _ _ hEmpty,
              ← List.foldl_append]
            rfl

/-
  The met beats of a score are its timed
  beats, whatever the settings.
-/
theorem Score.timed_metBeats
    (s : Score)
    (settings : AudioSettings) :
    s.metBeats.map (MetBeat.timed settings) =
      s.timedBeats settings.defaultBeatUnit := by
  have hBlocks (met : List Directive)
      (index : Nat) (bs : List Block) :
      (metBlocks met index bs).map
          (MetBeat.timed settings) =
        timedBlocks
          (met.foldl Directive.unitAfter
            settings.defaultBeatUnit) index bs := by
    induction bs generalizing met index with
    | nil =>
        rfl
    | cons b bs ih =>
        rw [metBlocks, List.map_append, timed_metItems, ih,
          List.foldl_append]
        rfl
  exact hBlocks [] 0 s.blocks

------------------------------------------------------------
-- Beats among moments
------------------------------------------------------------

/- The key of the beat of which a subdivision is met. -/
def Moment.key?
    (m : Moment) : Option BeatKey :=
  m.part?.map Part.key

/-
  Among these moments a beat is met, its first subdivision
  first, behind the directives that it counts; `before` were
  met before all of them.
-/
def MetBeat.IsMetIn
    (before : List Directive)
    (ms : List Moment)
    (m : MetBeat) : Prop :=
  ∃ earlier part later,
    ms = earlier ++ .part part :: later ∧
      part.key = m.key ∧
      part.beat = m.beat ∧
      part.index = 0 ∧
      (∀ other ∈ earlier, other.key? ≠ some m.key) ∧
      m.met = before ++ earlier.filterMap Moment.directive?

namespace MetBeat.IsMetIn

variable {before : List Directive}
variable {ms : List Moment}
variable {m : MetBeat}

theorem append
    (hMet : m.IsMetIn before ms)
    (more : List Moment) :
    m.IsMetIn before (ms ++ more) := by
  rcases hMet with ⟨earlier, part, later, rfl, hPart⟩
  exact ⟨earlier, part, later ++ more, by simp, hPart⟩

/-
  A beat that is met is met too behind
  moments of other beats.
-/
theorem prepend
    {passed : List Moment}
    (hMet :
      m.IsMetIn
        (before ++ passed.filterMap Moment.directive?) ms)
    (hOthers : ∀ other ∈ passed, other.key? ≠ some m.key) :
    m.IsMetIn before (passed ++ ms) := by
  rcases hMet with
    ⟨earlier, part, later, rfl, hKey, hBeat, hFirst,
      hEarlier, hDirectives⟩
  refine ⟨passed ++ earlier, part, later, by simp, hKey,
    hBeat, hFirst, ?_, ?_⟩
  · exact List.forall_mem_append.mpr ⟨hOthers, hEarlier⟩
  · rw [hDirectives, List.filterMap_append, List.append_assoc]

end MetBeat.IsMetIn

section Keys

variable {block : Int}
variable {index : Nat}

/-
  The directives of a beat are met, and none of its
  subdivisions.
-/
theorem directives_of_beat
    (ds : List Directive) :
    (ds.map Moment.directive).filterMap Moment.directive? = ds ∧
      ∀ other ∈ ds.map Moment.directive, other.key? = none := by
  constructor
  · simp [List.filterMap_map, Function.comp_def,
      Moment.directive?]
  · intro other hOther
    rcases List.mem_map.mp hOther with ⟨d, -, rfl⟩
    rfl

/-
  The parts of a beat hold no directives,
  and all have its key.
-/
theorem directives_parts
    (b : Beat)
    (key : BeatKey)
    (count first : Nat)
    (slots : List (Slot Attack)) :
    (b.parts key count first slots).filterMap
          Moment.directive? =
        [] ∧
      ∀ other ∈ b.parts key count first slots,
        other.key? = some key := by
  constructor
  · rw [Beat.parts, List.filterMap_map]
    exact List.filterMap_eq_nil_iff.mpr fun entry _ => rfl
  · intro other hOther
    rcases List.mem_map.mp hOther with ⟨entry, -, rfl⟩
    rfl

/-
  The beats that are met in items are of their block, from
  the index on.
-/
theorem key_of_mem_metItems
    {met : List Directive}
    {items : List LyricItem}
    {m : MetBeat}
    (hMember : m ∈ metItems block met index items) :
    m.key.block = block ∧ index ≤ m.key.beat := by
  have hTimed :=
    List.mem_map_of_mem hMember (f := MetBeat.timed {})
  rw [timed_metItems] at hTimed
  exact key_of_mem_timedItems hTimed

/-
  The beats that are met in blocks are of
  none of the blocks before.
-/
theorem block_of_mem_metBlocks
    {met : List Directive}
    {first : Nat}
    {bs : List Block}
    {m : MetBeat}
    (hMember : m ∈ metBlocks met first bs) :
    (first : Int) ≤ m.key.block := by
  induction bs generalizing met first with
  | nil =>
      cases hMember
  | cons b bs ih =>
      rcases List.mem_append.mp hMember with hFirst | hLater
      · exact Int.le_of_eq (key_of_mem_metItems hFirst).1.symm
      · have hBlock := ih hLater
        push_cast at hBlock
        omega

/- The subdivisions that are met in a block are its own. -/
theorem block_of_mem_moments
    {cues : List (Cue Attack)}
    {m : Moment}
    {key : BeatKey}
    (hMember : m ∈ Cue.moments block index cues)
    (hKey : m.key? = some key) :
    key.block = block := by
  induction cues generalizing index with
  | nil =>
      cases hMember
  | cons cue cues ih =>
      cases cue with
      | directive d =>
          rcases List.mem_cons.mp hMember with rfl | hLater
          · cases hKey
          · exact ih hLater
      | barline measure =>
          rcases List.mem_cons.mp hMember with rfl | hLater
          · cases hKey
          · exact ih hLater
      | beat b slots =>
          rw [Cue.moments, List.mem_append,
            List.mem_append] at hMember
          rcases hMember with (hDirective | hPart) | hLater
          · rw [(directives_of_beat b.directives).2 m
              hDirective] at hKey
            cases hKey
          · rw [(directives_parts b _ _ _ slots).2 m
              hPart] at hKey
            cases hKey
            rfl
          · exact ih hLater

/-
  Among the parts of a rendered beat the beat is met, and
  behind them a later one.
-/
theorem isMetIn_parts
    {met : List Directive}
    {b : Beat}
    {count : Nat}
    {slot : Slot Attack}
    {slots : List (Slot Attack)}
    {items : List LyricItem}
    {ms : List Moment}
    {m : MetBeat}
    (hMember :
      m ∈
        ⟨⟨block, index⟩, b, met⟩ ::
          metItems block met (index + 1) items)
    (hRest :
      m ∈ metItems block met (index + 1) items →
        m.IsMetIn met ms) :
    m.IsMetIn met
      (b.parts ⟨block, index⟩ count 0 (slot :: slots) ++
        ms) := by
  rcases List.mem_cons.mp hMember with rfl | hLater
  · rw [Beat.parts_cons]
    exact ⟨[], _, _, rfl, rfl, rfl, rfl,
      List.forall_mem_nil _, (List.append_nil _).symm⟩
  · rcases directives_parts b ⟨block, index⟩ count 0
        (slot :: slots) with
      ⟨hNone, hKeys⟩
    apply MetBeat.IsMetIn.prepend
    · rw [hNone, List.append_nil]
      exact hRest hLater
    · intro other hOther hSame
      rw [hKeys other hOther] at hSame
      have hIndex := (key_of_mem_metItems hLater).2
      rw [← Option.some.inj hSame] at hIndex
      exact absurd hIndex (by simp)

end Keys

/-
  Each beat of a block is met in its moments, behind the
  directives before it.
-/
theorem isMetIn_cues
    {block : Int}
    {met : List Directive}
    {index : Nat}
    {cues : List (Cue Attack)}
    (hSlots :
      ∀ cue ∈ cues,
        cue.slots.map Slot.subdivision =
          cue.item.subdivisions)
    {m : MetBeat}
    (hMember :
      m ∈ metItems block met index (cues.map Cue.item)) :
    m.IsMetIn met (Cue.moments block index cues) := by
  induction cues generalizing met index with
  | nil =>
      cases hMember
  | cons cue cues ih =>
      have hRest :=
        fun other hOther =>
          hSlots other (List.mem_cons_of_mem cue hOther)
      cases cue with
      | directive d =>
          have hPassed :
              ∀ other ∈ [Moment.directive d],
                other.key? ≠ some m.key := by
            simp [Moment.key?, Moment.part?]
          exact (ih hRest hMember).prepend hPassed
      | barline measure =>
          have hPassed :
              ∀ other ∈ [Moment.barline measure],
                other.key? ≠ some m.key := by
            simp [Moment.key?, Moment.part?]
          have hMet := ih hRest hMember
          rw [← List.append_nil met] at hMet
          exact hMet.prepend hPassed
      | beat b slots =>
          have hBeat :
              slots.map Slot.subdivision = b.subdivisions :=
            hSlots (.beat b slots) List.mem_cons_self
          rcases directives_of_beat b.directives with
            ⟨hDirectives, hNoKey⟩
          have hPassed :
              ∀ other ∈ b.directives.map Moment.directive,
                other.key? ≠ some m.key := by
            intro other hOther
            rw [hNoKey other hOther]
            exact (Option.some_ne_none _).symm
          rw [Cue.moments, List.append_assoc]
          rw [List.map_cons, Cue.item, metItems] at hMember
          apply MetBeat.IsMetIn.prepend _ hPassed
          rw [hDirectives]
          cases slots with
          | nil =>
              have hEmpty : b.subdivisions = [] := hBeat.symm
              rw [if_pos hEmpty] at hMember
              exact ih hRest hMember
          | cons slot slots =>
              have hRendered : b.subdivisions ≠ [] := by
                simp [← hBeat]
              rw [if_neg hRendered] at hMember
              exact isMetIn_parts hMember (ih hRest)

/-
  Every beat of a score is met behind the
  directives that it counts.
-/
theorem Score.isMetIn_moments
    {s : Score}
    {m : MetBeat}
    (hMember : m ∈ s.metBeats) :
    m.IsMetIn [] s.moments := by
  have hBlocks (met : List Directive)
      (index : Nat) (bs : List Block)
      (hMember : m ∈ metBlocks met index bs) :
      m.IsMetIn met (blockMoments index bs) := by
    induction bs generalizing met index with
    | nil =>
        cases hMember
    | cons b bs ih =>
        rcases List.mem_append.mp hMember with hFirst | hLater
        · rw [← b.map_item_voices] at hFirst
          have hMet :=
            isMetIn_cues
              (fun cue hCue =>
                Block.subdivisions_of_mem_voices hCue)
              hFirst
          exact hMet.append _
        · apply MetBeat.IsMetIn.prepend
          · rw [b.directives_moments]
            exact ih _ _ hLater
          · intro other hOther hSame
            have hOwn := block_of_mem_moments hOther hSame
            have hBehind := block_of_mem_metBlocks hLater
            push_cast at hBehind
            omega
  exact hBlocks [] 0 s.blocks hMember

------------------------------------------------------------
-- Beats without some directives
------------------------------------------------------------

section Selection

variable (keep : DirectiveName → Bool)

/-
  A beat without the other directives, its
  own and those before it.
-/
def MetBeat.select
    (m : MetBeat) : MetBeat :=
  ⟨m.key, m.beat.select keep,
    m.met.filter (Directive.isKept keep)⟩

/-
  The directives that are left of items
  are those that are kept.
-/
theorem directives_selected
    (items : List LyricItem) :
    (items.filterMap (LyricItem.select keep)).flatMap
        LyricItem.directives =
      (items.flatMap LyricItem.directives).filter
        (Directive.isKept keep) := by
  induction items with
  | nil =>
      rfl
  | cons item items ih =>
      cases item with
      | directive d =>
          cases hKept : d.isKept keep <;>
            simp [LyricItem.select, LyricItem.directives,
              hKept, ih]
      | barline measure =>
          simp [LyricItem.select, LyricItem.directives, ih]
      | beat b =>
          simp [LyricItem.select, LyricItem.directives, ih]

/-
  Without some directives the same beats are met, behind
  fewer directives.
-/
theorem metItems_select
    (block : Int)
    (met : List Directive)
    (index : Nat)
    (items : List LyricItem) :
    metItems block (met.filter (Directive.isKept keep))
        index (items.filterMap (LyricItem.select keep)) =
      (metItems block met index items).map
        (MetBeat.select keep) := by
  induction items generalizing met index with
  | nil =>
      rfl
  | cons item items ih =>
      cases item with
      | directive d =>
          have hRest := ih (met ++ [d]) index
          cases hKept : d.isKept keep with
          | true =>
              simpa [LyricItem.select, metItems, hKept]
                using hRest
          | false =>
              simpa [LyricItem.select, metItems, hKept]
                using hRest
      | barline measure =>
          exact ih met index
      | beat b =>
          have hRest := ih (met ++ b.directives)
          simp only [List.filter_append] at hRest
          by_cases hEmpty : b.subdivisions = []
          · simp [LyricItem.select, metItems, hEmpty, hRest]
          · simp [LyricItem.select, metItems, hEmpty, hRest,
              MetBeat.select]

/-
  Deleting directives deletes them from
  what the beats count.
-/
theorem Score.metBeats_select
    (σ : Selection)
    (s : Score) :
    (s.select σ).metBeats =
      s.metBeats.map (MetBeat.select σ.lyrics) := by
  have hBlocks (met : List Directive)
      (index : Nat) (bs : List Block) :
      metBlocks (met.filter (Directive.isKept σ.lyrics))
          index (bs.map (Block.select σ)) =
        (metBlocks met index bs).map
          (MetBeat.select σ.lyrics) := by
    induction bs generalizing met index with
    | nil =>
        rfl
    | cons b bs ih =>
        rw [List.map_cons, metBlocks, b.lyricStream_select,
          metItems_select, directives_selected,
          ← List.filter_append, ih, metBlocks,
          List.map_append]
  exact hBlocks [] 0 s.blocks

end Selection

end LyricScore
