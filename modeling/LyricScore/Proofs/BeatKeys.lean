import Mathlib.Data.List.Basic
import LyricScore.Compile
import LyricScore.Proofs.Numeral
import LyricScore.Proofs.Resolution

/-
  This file shows that the counters in a drawing and the beat
  map name the same beats in the same order.  What plays a
  score may then mark each beat in its drawing.

  Key definitions include:
    * `DrawCommand.beat?`
    * `Figure.circleKey?`, `Figure.counterKey?`
    * `Figure.Paired`
    * `beatKeys`, `blockKeys`

  Key theorems include:
    * `BeatKey.text_injective`
    * `Block.counterKeys_figures`
    * `Block.paired_figures`
    * `Score.counters_name_mapped_beats`
-/

namespace LyricScore

variable {K : Type} [Coordinate K]

------------------------------------------------------------
-- Texts of keys
------------------------------------------------------------

namespace BeatKey

/- The texts of the two indices of a beat. -/
def indices
    (k : BeatKey) : String × String :=
  (toString k.block, toString k.beat)

/-
  Different keys have different indices, as they are written
  with different digits.
-/
theorem indices_injective :
    Function.Injective indices := by
  rintro ⟨block, beat⟩ ⟨otherBlock, otherBeat⟩ hSame
  rcases Prod.mk.inj hSame with ⟨hBlock, hBeat⟩
  have hBlocks : block = otherBlock := by
    simp only [Int.toString_eq_repr] at hBlock
    exact Numeral.integer_injective hBlock
  have hBeats : beat = otherBeat := by
    simp only [Nat.toString_eq_repr] at hBeat
    exact Numeral.natural_injective hBeat
  rw [hBlocks, hBeats]

/- A natural number is written with digits alone. -/
theorem colon_not_mem_natural
    (n : Nat) :
    ':' ∉ n.repr.toList := by
  intro hMember
  rw [Nat.toList_repr] at hMember
  have hDigit :=
    Nat.isDigit_of_mem_toDigits (by decide) (by decide)
      hMember
  exact absurd hDigit (by decide)

/- An integer is written with digits and perhaps a sign. -/
theorem colon_not_mem_integer
    (n : Int) :
    ':' ∉ (toString n).toList := by
  rw [Int.toString_eq_repr, Int.repr_eq_if]
  split
  · exact colon_not_mem_natural _
  · rw [String.toList_append, List.mem_append, not_or]
    exact ⟨by decide, colon_not_mem_natural _⟩

/-
  Before the colon stands the index of the
  block, for it holds none.
-/
theorem takeWhile_text
    (k : BeatKey) :
    k.text.toList.takeWhile (· ≠ ':') =
      (toString k.block).toList := by
  have hBlock :
      ∀ c ∈ (toString k.block).toList,
        decide (c ≠ ':') = true := by
    intro c hMember
    have hApart : c ≠ ':' :=
      fun hColon =>
        colon_not_mem_integer k.block (hColon ▸ hMember)
    simpa using hApart
  rw [text, String.toList_append, String.toList_append,
    List.append_assoc, List.takeWhile_append_of_pos hBlock]
  simp

/- No two beats have one text. -/
theorem text_injective :
    Function.Injective text := by
  intro k other hSame
  have hBlock : toString k.block = toString other.block := by
    apply String.toList_injective
    rw [← takeWhile_text, ← takeWhile_text, hSame]
  have hBeat : toString k.beat = toString other.beat := by
    have hTexts := congrArg String.toList hSame
    simp only [text, String.toList_append, hBlock,
      List.append_assoc] at hTexts
    apply String.toList_injective
    exact List.append_cancel_left
      (List.append_cancel_left hTexts)
  exact indices_injective (Prod.ext hBlock hBeat)

end BeatKey

------------------------------------------------------------
-- Keys of rendered beats
------------------------------------------------------------

/- A beat with subdivisions. -/
def LyricItem.isRendered
    (item : LyricItem) : Bool :=
  !item.subdivisions.isEmpty

/-
  The keys of the beats of a block, numbered from `index` on
  without a gap.
-/
def beatKeys
    (block : Int)
    (index : Nat)
    (items : List LyricItem) : List BeatKey :=
  (List.range' index
    (items.countP LyricItem.isRendered)).map fun beat =>
    ⟨block, beat⟩

/-
  The keys of the beats of blocks, the first of which is the
  block `index`.
-/
def blockKeys
    (index : Nat) : List Block → List BeatKey
  | [] => []
  | b :: rest =>
      beatKeys index 0 b.lyricStream ++
        blockKeys (index + 1) rest

section Items

variable (block : Int)
variable (index : Nat)
variable (item : LyricItem)
variable (items : List LyricItem)

/- A beat with subdivisions has the next key. -/
theorem beatKeys_of_rendered
    (hRendered : item.subdivisions ≠ []) :
    beatKeys block index (item :: items) =
      ⟨block, index⟩ :: beatKeys block (index + 1) items := by
  have hTrue : item.isRendered = true := by
    simp [LyricItem.isRendered, hRendered]
  rw [beatKeys, List.countP_cons_of_pos hTrue,
    List.range'_succ, List.map_cons, beatKeys]

/- What has no subdivisions has no key and counts for none. -/
theorem beatKeys_of_not_rendered
    (hEmpty : item.subdivisions = []) :
    beatKeys block index (item :: items) =
      beatKeys block index items := by
  have hFalse : ¬ item.isRendered = true := by
    simp [LyricItem.isRendered, hEmpty]
  rw [beatKeys, List.countP_cons_of_neg hFalse, beatKeys]

end Items

/- The timed items of a block have the keys of its beats. -/
theorem map_key_timedItems
    (block : Int)
    (unit : String)
    (index : Nat)
    (items : List LyricItem) :
    (timedItems block unit index items).map TimedBeat.key =
      beatKeys block index items := by
  induction items generalizing unit index with
  | nil =>
      rfl
  | cons item items ih =>
      cases item with
      | directive d =>
          rw [timedItems, ih,
            beatKeys_of_not_rendered _ _ _ _ rfl]
      | barline measure =>
          rw [timedItems, ih,
            beatKeys_of_not_rendered _ _ _ _ rfl]
      | beat b =>
          by_cases hEmpty : b.subdivisions = []
          · rw [timedItems_beat_of_empty _ _ _ _ hEmpty, ih,
              beatKeys_of_not_rendered _ _ (.beat b) _ hEmpty]
          · rw [timedItems_beat_of_rendered _ _ _ _ hEmpty,
              List.map_cons, ih,
              beatKeys_of_rendered _ _ (.beat b) _ hEmpty]

/- The timed blocks of a score have the keys of its blocks. -/
theorem map_key_timedBlocks
    (unit : String)
    (index : Nat)
    (bs : List Block) :
    (timedBlocks unit index bs).map TimedBeat.key =
      blockKeys index bs := by
  induction bs generalizing unit index with
  | nil =>
      rfl
  | cons b bs ih =>
      rw [timedBlocks, List.map_append, map_key_timedItems,
        ih, blockKeys]

/- No key is that of two beats. -/
theorem nodup_blockKeys
    (index : Nat)
    (bs : List Block) :
    (blockKeys index bs).Nodup := by
  rw [← map_key_timedBlocks "4" index bs]
  exact nodup_timedBlocks _ _ _

------------------------------------------------------------
-- The beat map
------------------------------------------------------------

namespace BeatClock

/-
  The clock of beats gives each beat of a
  block its key, in order.
-/
theorem keys_items
    {ticksPerQuarter : Int}
    {block : Int}
    {c last : BeatClock}
    {index : Nat}
    {items : List LyricItem}
    {beats : List (BeatKey × Int)}
    (hItems :
      BeatClock.items ticksPerQuarter block c index items =
        .ok (beats, last)) :
    beats.map Prod.fst = beatKeys block index items := by
  induction items generalizing c index beats with
  | nil =>
      simp only [BeatClock.items, Except.ok.injEq,
        Prod.mk.injEq] at hItems
      rw [← hItems.1]
      rfl
  | cons item items ih =>
      cases item with
      | directive d =>
          rw [beatKeys_of_not_rendered _ _ _ _ rfl]
          exact ih hItems
      | barline measure =>
          rw [beatKeys_of_not_rendered _ _ _ _ rfl]
          exact ih hItems
      | beat b =>
          by_cases hEmpty : b.subdivisions = []
          · rw [BeatClock.items, if_pos hEmpty] at hItems
            rw [beatKeys_of_not_rendered _ _ (.beat b) _ hEmpty]
            exact ih hItems
          · simp only [BeatClock.items, if_neg hEmpty,
              Outcome.bind_eq_ok, Outcome.pure_eq,
              Except.ok.injEq, Prod.mk.injEq] at hItems
            rcases hItems with
              ⟨ticks, -, ⟨more, final⟩, hMore, rfl, rfl⟩
            rw [beatKeys_of_rendered _ _ (.beat b) _ hEmpty,
              List.map_cons, ih hMore]

/-
  The clock of beats gives each beat of a
  score its key, in order.
-/
theorem keys_blocks
    {ticksPerQuarter : Int}
    {c last : BeatClock}
    {index : Nat}
    {bs : List Block}
    {beats : List (BeatKey × Int)}
    (hBlocks :
      BeatClock.blocks ticksPerQuarter c index bs =
        .ok (beats, last)) :
    beats.map Prod.fst = blockKeys index bs := by
  induction bs generalizing c index beats with
  | nil =>
      simp only [BeatClock.blocks, Except.ok.injEq,
        Prod.mk.injEq] at hBlocks
      rw [← hBlocks.1]
      rfl
  | cons b bs ih =>
      simp only [BeatClock.blocks, Outcome.bind_eq_ok,
        Outcome.pure_eq, Except.ok.injEq,
        Prod.mk.injEq] at hBlocks
      rcases hBlocks with
        ⟨⟨first, d⟩, hFirst, ⟨more, final⟩, hMore, rfl, rfl⟩
      rw [List.map_append, keys_items hFirst, ih hMore,
        blockKeys]

end BeatClock

/-
  The beats of a beat map are the rendered beats of the
  score, in order.
-/
theorem Score.keys_timing
    {settings : AudioSettings}
    {s : Score}
    {map : BeatMap}
    (hMap : s.timing settings = .ok map) :
    map.beats.map Prod.fst = blockKeys 0 s.blocks := by
  simp only [Score.timing, Outcome.mapError_eq_ok,
    Score.beatMap, Outcome.bind_eq_ok, Outcome.pure_eq,
    Except.ok.injEq] at hMap
  rcases hMap with ⟨⟨beats, last⟩, hBlocks, rfl⟩
  exact BeatClock.keys_blocks hBlocks

------------------------------------------------------------
-- Figures of beats
------------------------------------------------------------

namespace Figure

/- The beat of a circle. -/
def circleKey? : Figure → Option BeatKey
  | circle key => some key
  | _ => none

/- The beat of a counter. -/
def counterKey? : Figure → Option BeatKey
  | counter key _ => some key
  | _ => none

/-
  Figures in which circles and counters stand in pairs,
  circles first.
-/
inductive Paired : List Figure → Prop
  | nil : Paired []
  | other
      (f : Figure)
      (fs : List Figure)
      (hCircle : f.circleKey? = none)
      (hCounter : f.counterKey? = none)
      (hRest : Paired fs) : Paired (f :: fs)
  | pair
      (key : BeatKey)
      (label : Int)
      (fs : List Figure)
      (hRest : Paired fs) :
        Paired (circle key :: counter key label :: fs)

/-
  Figures that pair circles and counters still do if they
  stand in a row.
-/
theorem Paired.append
    {fs gs : List Figure}
    (hFirst : Paired fs)
    (hLater : Paired gs) :
    Paired (fs ++ gs) := by
  induction hFirst with
  | nil =>
      exact hLater
  | other f fs hCircle hCounter _ ih =>
      exact .other f _ hCircle hCounter ih
  | pair key label fs _ ih =>
      exact .pair key label _ ih

/-
  A counter follows each circle, and nothing else does; none
  stands first.
-/
theorem Paired.counter_follows
    {fs : List Figure}
    (hPaired : Paired fs) :
    fs[0]?.bind counterKey? = none ∧
      ∀ j,
        fs[j + 1]?.bind counterKey? =
          fs[j]?.bind circleKey? := by
  induction hPaired with
  | nil =>
      exact ⟨rfl, fun _ => rfl⟩
  | other f fs hCircle hCounter _ ih =>
      refine ⟨hCounter, ?_⟩
      intro j
      cases j with
      | zero =>
          exact ih.1.trans hCircle.symm
      | succ j =>
          exact ih.2 j
  | pair key label fs _ ih =>
      refine ⟨rfl, ?_⟩
      intro j
      match j with
      | 0 => rfl
      | 1 => exact ih.1
      | j + 2 => exact ih.2 j

/- A figure that is neither a circle nor a counter. -/
def IsPlain
    (f : Figure) : Prop :=
  f.circleKey? = none ∧ f.counterKey? = none

theorem paired_of_plain
    {fs : List Figure}
    (hPlain : ∀ f ∈ fs, f.IsPlain) :
    Paired fs := by
  induction fs with
  | nil =>
      exact .nil
  | cons f fs ih =>
      have hFirst := hPlain f List.mem_cons_self
      exact .other f fs hFirst.1 hFirst.2
        (ih fun g hMember =>
          hPlain g (List.mem_cons_of_mem f hMember))

theorem counterKeys_of_plain
    {fs : List Figure}
    (hPlain : ∀ f ∈ fs, f.IsPlain) :
    fs.filterMap counterKey? = [] :=
  List.filterMap_eq_nil_iff.mpr fun f hMember =>
    (hPlain f hMember).2

end Figure

/- A directive draws neither a circle nor a counter. -/
theorem Directive.plain_figures
    (d : Directive) :
    ∀ f ∈ d.figures, f.IsPlain := by
  intro f hMember
  unfold Directive.figures at hMember
  split at hMember
  · rw [List.mem_singleton.mp hMember]
    exact ⟨rfl, rfl⟩
  · cases hMember

/- A subdivision draws neither a circle nor a counter. -/
theorem Slot.plain_figures
    (slot : Slot Attack) :
    ∀ f ∈ slot.figures, f.IsPlain := by
  intro f hMember
  simp only [Slot.figures, List.mem_cons, List.mem_append,
    List.mem_filterMap, List.mem_map] at hMember
  rcases hMember with rfl | ⟨d, -, hOctave⟩ | ⟨v, -, rfl⟩
  · exact ⟨rfl, rfl⟩
  · unfold Directive.octaveFigure? at hOctave
    split at hOctave
    · cases hOctave
      exact ⟨rfl, rfl⟩
    · cases hOctave
  · exact ⟨rfl, rfl⟩

theorem Directive.plain_flatMap_figures
    (ds : List Directive) :
    ∀ f ∈ ds.flatMap Directive.figures, f.IsPlain := by
  intro f hMember
  rcases List.mem_flatMap.mp hMember with ⟨d, -, hShown⟩
  exact d.plain_figures f hShown

theorem Slot.plain_flatMap_figures
    (slots : List (Slot Attack)) :
    ∀ f ∈ slots.flatMap Slot.figures, f.IsPlain := by
  intro f hMember
  rcases List.mem_flatMap.mp hMember with ⟨slot, -, hShown⟩
  exact slot.plain_figures f hShown

/-
  In what a block draws, each circle stands
  right before its counter.
-/
theorem Cue.paired_figures
    (block : Int)
    (t : Tally)
    (cues : List (Cue Attack)) :
    Figure.Paired (Cue.figures block t cues) := by
  induction cues generalizing t with
  | nil =>
      exact .nil
  | cons cue cues ih =>
      cases cue with
      | directive d =>
          exact (Figure.paired_of_plain
            d.plain_figures).append (ih _)
      | barline measure =>
          exact .other _ _ rfl rfl (ih _)
      | beat b slots =>
          have hDirectives :=
            Figure.paired_of_plain
              (Directive.plain_flatMap_figures b.directives)
          have hSlots :=
            Figure.paired_of_plain
              (Slot.plain_flatMap_figures slots)
          rw [Cue.figures]
          apply hDirectives.append
          split
          · exact ih _
          · rw [Beat.figures, List.append_assoc]
            exact hSlots.append (.pair _ _ _ (ih _))

/- A directive does not end a beat. -/
theorem Tally.beat_follow
    (t : Tally)
    (d : Directive) :
    (t.follow d).beat = t.beat := by
  unfold Tally.follow
  split <;> rfl

theorem Tally.beat_foldl_follow
    (t : Tally)
    (ds : List Directive) :
    (ds.foldl Tally.follow t).beat = t.beat := by
  induction ds generalizing t with
  | nil =>
      rfl
  | cons d ds ih =>
      rw [List.foldl_cons, ih, t.beat_follow]

/-
  The counters of cues are those of their
  rendered beats, in order.
-/
theorem Cue.counterKeys_figures
    (block : Int)
    (t : Tally)
    (cues : List (Cue Attack))
    (hParts :
      ∀ cue ∈ cues,
        cue.slots.map Slot.subdivision =
          cue.item.subdivisions) :
    (Cue.figures block t cues).filterMap Figure.counterKey? =
      beatKeys block t.beat (cues.map Cue.item) := by
  induction cues generalizing t with
  | nil =>
      rfl
  | cons cue cues ih =>
      have hRest :=
        fun t =>
          ih t fun other hMember =>
            hParts other (List.mem_cons_of_mem cue hMember)
      cases cue with
      | directive d =>
          rw [Cue.figures, List.filterMap_append,
            Figure.counterKeys_of_plain d.plain_figures,
            List.nil_append, hRest, t.beat_follow,
            List.map_cons,
            beatKeys_of_not_rendered _ _ _ _ rfl]
      | barline measure =>
          rw [Cue.figures, List.filterMap_cons_none rfl,
            hRest, List.map_cons,
            beatKeys_of_not_rendered _ _ _ _ rfl]
      | beat b slots =>
          have hSlots :
              slots.map Slot.subdivision = b.subdivisions :=
            hParts (.beat b slots) List.mem_cons_self
          rw [Cue.figures, List.filterMap_append,
            Figure.counterKeys_of_plain
              (Directive.plain_flatMap_figures
                b.directives), List.nil_append,
            List.map_cons]
          by_cases hEmpty : slots = []
          · subst hEmpty
            rw [if_pos rfl, hRest, t.beat_foldl_follow]
            exact (beatKeys_of_not_rendered _ _ (.beat b) _
              hSlots.symm).symm
          · have hRendered : b.subdivisions ≠ [] := by
              rw [← hSlots]
              simpa using hEmpty
            have hPair (key : BeatKey) (label : Int) :
                [Figure.circle key,
                    .counter key label].filterMap
                    Figure.counterKey? =
                  [key] :=
              rfl
            rw [if_neg hEmpty, Beat.figures,
              List.filterMap_append, List.filterMap_append,
              Figure.counterKeys_of_plain
                (Slot.plain_flatMap_figures slots), hPair,
              hRest, t.beat_foldl_follow]
            exact (beatKeys_of_rendered _ _ (.beat b) _
              hRendered).symm

namespace Block

variable (b : Block)
variable (index : Int)

/-
  The counters among the figures of a block have the keys of
  its beats, in order.
-/
theorem counterKeys_figures :
    (b.figures index).filterMap Figure.counterKey? =
      beatKeys index 0 b.lyricStream := by
  have hCues :=
    Cue.counterKeys_figures index {} b.voices fun _ hCue =>
      subdivisions_of_mem_voices hCue
  rw [b.map_item_voices] at hCues
  exact hCues

/-
  Circles and counters are paired among
  the figures of a block.
-/
theorem paired_figures :
    Figure.Paired (b.figures index) :=
  .other _ _ rfl rfl
    (.other _ _ rfl rfl
      (.other _ _ rfl rfl
        (Cue.paired_figures index {} b.voices)))

end Block

------------------------------------------------------------
-- Commands of beats
------------------------------------------------------------

namespace DrawCommand

/-
  The indices of the beat that a command of a class belongs
  to, as it holds them.
-/
def beat?
    (kind : String)
    (c : DrawCommand K) : Option (String × String) :=
  if c.attributes.lookup "class" = some kind then do
    let block ← c.attributes.lookup "data-block-idx"
    let beat ← c.attributes.lookup "data-beat-idx"
    return (block, beat)
  else none

/- The indices of the beat of a counter. -/
def counterBeat?
    (c : DrawCommand K) : Option (String × String) :=
  c.beat? "beat-counter"

/- The indices of the beat of a circle. -/
def circleBeat?
    (c : DrawCommand K) : Option (String × String) :=
  c.beat? "beat-circle"

end DrawCommand

/- What a command tells of beats is what its figure does. -/
structure TellsBeat
    (f : Figure)
    (c : DrawCommand K) : Prop where
  counter : c.counterBeat? = f.counterKey?.map BeatKey.indices
  circle : c.circleBeat? = f.circleKey?.map BeatKey.indices
  counter_text : c.counterBeat?.isSome → c.primitive = .text
  circle_circle : c.circleBeat?.isSome → c.primitive = .circle

/- A drawn command tells the beat of its figure. -/
theorem Figure.Draws.tellsBeat
    {ls : LayoutSettings K}
    {f : Figure}
    {c : DrawCommand K}
    (hDraws : f.Draws ls c) :
    TellsBeat f c := by
  cases f with
  | guide =>
      rcases hDraws with ⟨endX, octaves, rfl⟩
      exact ⟨rfl, rfl, nofun, nofun⟩
  | tempo bpm =>
      rcases hDraws with ⟨x, text, -, rfl⟩
      exact ⟨rfl, rfl, nofun, nofun⟩
  | barline =>
      rcases hDraws with ⟨p, rfl⟩
      exact ⟨rfl, rfl, nofun, nofun⟩
  | lyric text =>
      rcases hDraws with ⟨x, rfl⟩
      exact ⟨rfl, rfl, nofun, nofun⟩
  | octave number =>
      rcases hDraws with ⟨x, text, -, rfl⟩
      exact ⟨rfl, rfl, nofun, nofun⟩
  | letter v reference =>
      rcases hDraws with ⟨x, y, -, rfl⟩
      exact ⟨rfl, rfl, nofun, nofun⟩
  | circle key =>
      rcases hDraws with ⟨x, rfl⟩
      exact ⟨rfl, rfl, nofun, fun _ => rfl⟩
  | counter key label =>
      rcases hDraws with ⟨x, text, -, rfl⟩
      exact ⟨rfl, rfl, fun _ => rfl, nofun⟩

/- A command that is moved down tells the same. -/
theorem TellsBeat.shifted
    {f : Figure}
    {c : DrawCommand K}
    (hTells : TellsBeat f c)
    (dy : Option K) :
    TellsBeat f (shiftedBy dy c) := by
  cases dy with
  | none =>
      exact hTells
  | some dy =>
      exact ⟨hTells.counter, hTells.circle,
        hTells.counter_text, hTells.circle_circle⟩

/-
  The commands of a block tell of beats what its figures do.
-/
theorem Block.commands_tell
    {ls : LayoutSettings K}
    {index : Int}
    {b : Block}
    {layout : BlockLayout K}
    (hLayout : b.layout ls index = .ok layout) :
    List.Forall₂ TellsBeat (b.figures index)
      layout.commands := by
  rcases Block.layout_eq_ok hLayout with
    ⟨endX, drawn, placed, dy, -, hDraws, hPlaced⟩
  rw [hPlaced, List.forall₂_map_right_iff]
  exact hDraws.imp fun _ _ hDraw => hDraw.tellsBeat.shifted dy

namespace Block

variable {ls : LayoutSettings K}
variable {index : Int}
variable {b : Block}
variable {layout : BlockLayout K}

/-
  The counters among the commands of a block are
  those among its figures.
-/
theorem map_counterBeat?
    (hLayout : b.layout ls index = .ok layout) :
    layout.commands.map DrawCommand.counterBeat? =
      (b.figures index).map fun f =>
        f.counterKey?.map BeatKey.indices := by
  rw [← List.forall₂_eq_eq_eq, List.forall₂_map_left_iff,
    List.forall₂_map_right_iff]
  exact ((commands_tell hLayout).imp fun _ _ hTells =>
    hTells.counter).flip

/-
  The circles among the commands of a block are
  those among its figures.
-/
theorem map_circleBeat?
    (hLayout : b.layout ls index = .ok layout) :
    layout.commands.map DrawCommand.circleBeat? =
      (b.figures index).map fun f =>
        f.circleKey?.map BeatKey.indices := by
  rw [← List.forall₂_eq_eq_eq, List.forall₂_map_left_iff,
    List.forall₂_map_right_iff]
  exact ((commands_tell hLayout).imp fun _ _ hTells =>
    hTells.circle).flip

/-
  The counters of a block name its rendered beats, in order.
-/
theorem filterMap_counterBeat?
    (hLayout : b.layout ls index = .ok layout) :
    layout.commands.filterMap DrawCommand.counterBeat? =
      (beatKeys index 0 b.lyricStream).map BeatKey.indices := by
  calc
    layout.commands.filterMap DrawCommand.counterBeat? =
      (layout.commands.map
        DrawCommand.counterBeat?).filterMap id := by
        rw [List.filterMap_map, Function.id_comp]
    _ =
      (b.figures index).filterMap fun f =>
        f.counterKey?.map BeatKey.indices := by
        rw [map_counterBeat? hLayout, List.filterMap_map,
          Function.id_comp]
    _ =
      ((b.figures index).filterMap Figure.counterKey?).map
        BeatKey.indices := by
        rw [List.map_filterMap]
    _ =
      (beatKeys index 0 b.lyricStream).map
        BeatKey.indices := by
        rw [b.counterKeys_figures]

/-
  A counter stands behind each circle of a block, and
  nowhere else.
-/
theorem counter_follows_circle
    (hLayout : b.layout ls index = .ok layout) :
    layout.commands[0]?.bind DrawCommand.counterBeat? = none ∧
      ∀ j,
        layout.commands[j + 1]?.bind DrawCommand.counterBeat? =
          layout.commands[j]?.bind DrawCommand.circleBeat? := by
  have hCounter (j : Nat) :
      layout.commands[j]?.bind DrawCommand.counterBeat? =
        ((b.figures index)[j]?.bind Figure.counterKey?).map
          BeatKey.indices := by
    have hHere :=
      congrArg (fun told => told[j]?.bind id)
        (map_counterBeat? hLayout)
    rw [List.getElem?_map, List.getElem?_map,
      Option.bind_map, Option.bind_map] at hHere
    rw [Option.map_bind]
    exact hHere
  have hCircle (j : Nat) :
      layout.commands[j]?.bind DrawCommand.circleBeat? =
        ((b.figures index)[j]?.bind Figure.circleKey?).map
          BeatKey.indices := by
    have hHere :=
      congrArg (fun told => told[j]?.bind id)
        (map_circleBeat? hLayout)
    rw [List.getElem?_map, List.getElem?_map,
      Option.bind_map, Option.bind_map] at hHere
    rw [Option.map_bind]
    exact hHere
  rcases (b.paired_figures index).counter_follows with
    ⟨hFirst, hLater⟩
  constructor
  · rw [hCounter, hFirst, Option.map_none]
  · intro j
    rw [hCounter, hCircle, hLater]

end Block

/-
  The counters of blocks name their rendered
  beats, block after block.
-/
theorem counters_layoutBlocks
    {ls : LayoutSettings K}
    {index : Nat}
    {bs : List Block}
    {layouts : List (BlockLayout K)}
    (hLayouts : layoutBlocks ls index bs = .ok layouts) :
    (layouts.flatMap fun layout =>
        layout.commands.filterMap
          DrawCommand.counterBeat?) =
      (blockKeys index bs).map BeatKey.indices := by
  induction bs generalizing index layouts with
  | nil =>
      simp only [layoutBlocks, Except.ok.injEq] at hLayouts
      rw [← hLayouts]
      rfl
  | cons b bs ih =>
      simp only [layoutBlocks, Outcome.bind_eq_ok,
        Outcome.pure_eq, Except.ok.injEq] at hLayouts
      rcases hLayouts with ⟨first, hFirst, more, hMore, rfl⟩
      rw [List.flatMap_cons,
        Block.filterMap_counterBeat? hFirst, ih hMore,
        blockKeys, List.map_append]

------------------------------------------------------------
-- Drawings and beat maps
------------------------------------------------------------

/-
  The counters in a drawing name the beats of the beat
  map, in its order and each once.  In each block they
  count on from zero, and before each stands its circle;
  there are no other circles.
-/
theorem Score.counters_name_mapped_beats
    {ls : LayoutSettings K}
    {settings : AudioSettings}
    {s : Score}
    {drawing : ScoreLayout K}
    {map : BeatMap}
    (hDrawing : s.layout ls = .ok drawing)
    (hMap : s.timing settings = .ok map) :
    let counters :=
      drawing.blocks.flatMap fun layout =>
        layout.commands.filterMap DrawCommand.counterBeat?
    counters.map (fun (block, beat) =>
          block ++ ":" ++ beat) =
        map.beats.map (fun beat => beat.1.text) ∧
      counters.Nodup ∧
      (map.beats.map fun beat => beat.1.text).Nodup ∧
      (∀ c ∈ drawing.title,
        c.counterBeat? = none ∧ c.circleBeat? = none) ∧
      ∀ (i : Nat) (layout : BlockLayout K),
        drawing.blocks[i]? = some layout →
          (∃ count,
              layout.commands.filterMap
                  DrawCommand.counterBeat? =
                (List.range count).map fun beat =>
                  (toString i, toString beat)) ∧
            (∀ c ∈ layout.commands,
              (c.counterBeat?.isSome →
                  c.primitive = .text) ∧
                (c.circleBeat?.isSome →
                  c.primitive = .circle)) ∧
            layout.commands[0]?.bind
                DrawCommand.counterBeat? =
              none ∧
            ∀ j,
              layout.commands[j + 1]?.bind
                  DrawCommand.counterBeat? =
                layout.commands[j]?.bind
                  DrawCommand.circleBeat? := by
  intro counters
  simp only [Score.layout, Outcome.bind_eq_ok,
    Outcome.pure_eq, Except.ok.injEq] at hDrawing
  rcases hDrawing with ⟨layouts, hLayouts, rfl⟩
  have hCounters :
      counters =
        (blockKeys 0 s.blocks).map BeatKey.indices :=
    counters_layoutBlocks hLayouts
  have hTexts :
      (map.beats.map fun beat => beat.1.text) =
        (blockKeys 0 s.blocks).map BeatKey.text := by
    rw [← Score.keys_timing hMap, List.map_map]
    rfl
  have hNodup := nodup_blockKeys 0 s.blocks
  refine ⟨?_, ?_, ?_, ?_, ?_⟩
  · rw [hCounters, hTexts, List.map_map]
    rfl
  · rw [hCounters]
    exact hNodup.map BeatKey.indices_injective
  · rw [hTexts]
    exact hNodup.map BeatKey.text_injective
  · intro c hTitle
    rcases List.mem_map.mp hTitle with ⟨line, -, rfl⟩
    exact ⟨rfl, rfl⟩
  · intro i layout hLayout
    rcases layoutBlocks_eq_ok hLayouts with ⟨hLength, hEach⟩
    have hIndex : i < s.blocks.length := by
      rw [← hLength]
      exact (List.getElem?_eq_some_iff.mp hLayout).1
    have hDrawn :=
      hEach i s.blocks[i] layout
        (List.getElem?_eq_getElem hIndex) hLayout
    rw [Nat.zero_add] at hDrawn
    refine
      ⟨⟨s.blocks[i].lyricStream.countP LyricItem.isRendered,
          ?_⟩, ?_, Block.counter_follows_circle hDrawn⟩
    · rw [Block.filterMap_counterBeat? hDrawn, beatKeys,
        List.map_map, ← List.range_eq_range']
      rfl
    · intro c hMember
      rcases
          (List.forall₂_iff_get.mp
            (Block.commands_tell hDrawn)) with
        ⟨hSame, hTell⟩
      rcases List.mem_iff_get.mp hMember with ⟨n, rfl⟩
      have hTold := hTell n (hSame.symm ▸ n.isLt) n.isLt
      exact ⟨hTold.counter_text, hTold.circle_circle⟩

/-
  A score with two blocks: a directive in an empty beat, two
  rendered beats on either side of a barline, a block without
  a rendered beat between two others.
-/
def Score.scattered : Score where
  title := ["Beats"]
  blocks := [
    { lyricLines := [
        { directives := [⟨.pickup 3, {}⟩]
          measures := [
            { beats := [
                { elements := [.directive ⟨.tempo 90, {}⟩] },
                { elements := [
                    .subdivision ⟨.syllable, "la", {}⟩] }]
              barline := true }] },
        { measures := [
            { beats := [
                { elements := [
                    .subdivision ⟨.syllable, "2lu", {}⟩,
                    .subdivision ⟨.hyphen, "-", {}⟩] }] }] }] },
    { lyricLines := [{ measures := [{ barline := true }] }] },
    { lyricLines := [
        { measures := [
            { beats := [
                { elements := [
                    .subdivision ⟨.rest, ";", {}⟩] }] }] }] }]

/- Its counters name its beats; the block between has none. -/
theorem Score.scattered_counters :
    ∃ (drawing : ScoreLayout Rat) (map : BeatMap),
      scattered.layout .default = .ok drawing ∧
        scattered.timing {} = .ok map ∧
        (drawing.blocks.flatMap fun layout =>
            layout.commands.filterMap
              DrawCommand.counterBeat?).map
              (fun (block, beat) => block ++ ":" ++ beat) =
          ["0:0", "0:1", "2:0"] := by
  have hDrawn :
      (scattered.layout
          (.default : LayoutSettings Rat)).isOk =
        true := by
    decide +kernel
  have hTimed :
      (scattered.timing {}).map (fun map =>
          map.beats.map fun beat => beat.1.text) =
        .ok ["0:0", "0:1", "2:0"] := by
    decide +kernel
  rcases Outcome.exists_eq_ok hDrawn with ⟨drawing, hDrawing⟩
  rcases Outcome.map_eq_ok.mp hTimed with ⟨map, hMap, hKeys⟩
  refine ⟨drawing, map, hDrawing, hMap, ?_⟩
  rw [(Score.counters_name_mapped_beats hDrawing hMap).1, hKeys]

end LyricScore
