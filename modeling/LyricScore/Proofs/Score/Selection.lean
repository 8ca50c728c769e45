import Mathlib.Data.List.Basic
import LyricScore.Compile
import LyricScore.Proofs.Outcome

/-
  This file defines scores of which some directives are
  deleted: those of some names, in lyric lines and in pitch
  lines.  Beats, barlines, pitches and chords stay.  Deleting
  directives deletes items of the two streams, and the voices
  stay as they are as long as keys are kept.

  Key definitions include:
    * `Selection`
    * `Selection.without`
    * `Score.select`
    * `Attack.select`, `Cue.select`

  Key theorems include:
    * `Block.lyricStream_select`, `Block.pitchStream_select`
    * `Voicing.attack_select`
    * `Block.voices_select`
-/

namespace LyricScore

------------------------------------------------------------
-- Parts of a score with fewer directives
------------------------------------------------------------

/-
  The names of the directives that stay, in lyric lines and
  in pitch lines.
-/
structure Selection where
  lyrics : DirectiveName → Bool
  pitches : DirectiveName → Bool

/- All directives but those of some names. -/
def Selection.without
    (names : List DirectiveName) : Selection :=
  ⟨fun name => name ∉ names, fun name => name ∉ names⟩

section Parts

variable (keep : DirectiveName → Bool)

/- A directive of a name that is kept. -/
def Directive.isKept
    (d : Directive) : Bool :=
  keep d.order.name

/- An element of a beat that stays. -/
def BeatElement.isKept : BeatElement → Bool
  | subdivision _ => true
  | directive d => d.isKept keep

/- A beat without the other directives. -/
def Beat.select
    (b : Beat) : Beat :=
  { b with
    elements :=
      b.elements.filter (BeatElement.isKept keep) }

/- A measure without the other directives. -/
def LyricMeasure.select
    (m : LyricMeasure) : LyricMeasure :=
  { m with beats := m.beats.map (Beat.select keep) }

/- A lyric line without the other directives. -/
def LyricLine.select
    (l : LyricLine) : LyricLine :=
  { l with
    directives := l.directives.filter (Directive.isKept keep)
    measures := l.measures.map (LyricMeasure.select keep) }

/- An element of a pitch line that stays. -/
def PitchElement.isKept : PitchElement → Bool
  | pitch _ => true
  | chord _ => true
  | directive d => d.isKept keep

/- A measure without the other directives. -/
def PitchMeasure.select
    (m : PitchMeasure) : PitchMeasure :=
  { m with
    elements :=
      m.elements.filter (PitchElement.isKept keep) }

/- A pitch line without the other directives. -/
def PitchLine.select
    (l : PitchLine) : PitchLine :=
  { l with
    directives := l.directives.filter (Directive.isKept keep)
    measures := l.measures.map (PitchMeasure.select keep) }

end Parts

/- A block without the directives that are not selected. -/
def Block.select
    (σ : Selection)
    (b : Block) : Block :=
  ⟨b.lyricLines.map (LyricLine.select σ.lyrics),
    b.pitchLines.map (PitchLine.select σ.pitches)⟩

/- A score without the directives that are not selected. -/
def Score.select
    (σ : Selection)
    (s : Score) : Score :=
  { s with blocks := s.blocks.map (Block.select σ) }

namespace Beat

variable (keep : DirectiveName → Bool)
variable (b : Beat)

/- No subdivision is deleted. -/
@[simp] theorem subdivisions_select :
    (b.select keep).subdivisions = b.subdivisions := by
  simp only [subdivisions, select, List.filterMap_filter]
  congr 1
  funext e
  cases e with
  | subdivision s =>
      rfl
  | directive d =>
      exact ite_self none

@[simp] theorem directives_select :
    (b.select keep).directives =
      b.directives.filter (Directive.isKept keep) := by
  simp only [directives, select, List.filterMap_filter,
    List.filter_filterMap]
  congr 1
  funext e
  cases e with
  | subdivision s =>
      rfl
  | directive d =>
      rfl

@[simp] theorem scale_select :
    (b.select keep).scale = b.scale := by
  unfold scale scaleDigits
  rw [subdivisions_select]

end Beat

------------------------------------------------------------
-- Streams
------------------------------------------------------------

section Streams

variable (keep : DirectiveName → Bool)

/- What becomes of an item of a lyric stream. -/
def LyricItem.select : LyricItem → Option LyricItem
  | directive d =>
      if d.isKept keep then some (.directive d) else none
  | beat b => some (.beat (b.select keep))
  | barline measure => some (.barline measure)

/- An item of a pitch stream that stays. -/
def PitchItem.isKept : PitchItem → Bool
  | directive d => d.isKept keep
  | sounding _ => true
  | barline => true

/- The directives that are kept are kept as items. -/
theorem LyricItem.select_directives
    (ds : List Directive) :
    (ds.filter (Directive.isKept keep)).map
        LyricItem.directive =
      (ds.map .directive).filterMap
        (LyricItem.select keep) := by
  rw [List.filterMap_map, ← List.filterMap_eq_map,
    List.filterMap_filter]
  rfl

/- The items of a measure are kept as its directives are. -/
theorem LyricMeasure.items_select
    (m : LyricMeasure)
    (index : Nat) :
    (m.select keep).items index =
      (m.items index).filterMap
        (LyricItem.select keep) := by
  have hBeat :
      LyricItem.select keep ∘ LyricItem.beat =
        some ∘ LyricItem.beat ∘ Beat.select keep :=
    rfl
  simp only [items, select, List.filterMap_append,
    List.map_map, List.filterMap_map, hBeat,
    List.filterMap_eq_map,
    apply_ite (List.filterMap (LyricItem.select keep))]
  rfl

theorem LyricLine.items_select
    (l : LyricLine) :
    (l.select keep).items =
      l.items.filterMap (LyricItem.select keep) := by
  simp only [items, select, List.filterMap_append,
    List.filterMap_flatMap, List.zipIdx_map,
    List.flatMap_map, LyricItem.select_directives]
  congr 1
  apply List.flatMap_congr
  intro entry _
  exact entry.1.items_select keep entry.2

/- The items of a measure are kept as its directives are. -/
theorem PitchMeasure.items_select
    (m : PitchMeasure) :
    (m.select keep).items =
      m.items.filter (PitchItem.isKept keep) := by
  have hItem :
      PitchItem.isKept keep ∘ PitchElement.item =
        PitchElement.isKept keep := by
    funext e
    cases e <;> rfl
  simp only [items, select, List.filter_append,
    List.filter_map, hItem,
    apply_ite (List.filter (PitchItem.isKept keep))]
  rfl

theorem PitchLine.items_select
    (l : PitchLine) :
    (l.select keep).items =
      l.items.filter (PitchItem.isKept keep) := by
  simp only [items, select, List.filter_append,
    List.filter_flatMap, List.filter_map, List.flatMap_map]
  congr 1
  apply List.flatMap_congr
  intro m _
  exact m.items_select keep

namespace Block

variable (σ : Selection)
variable (b : Block)

/-
  The lyric stream of a block lacks just
  the deleted directives.
-/
theorem lyricStream_select :
    (b.select σ).lyricStream =
      b.lyricStream.filterMap
        (LyricItem.select σ.lyrics) := by
  simp only [lyricStream, select, List.filterMap_flatMap,
    List.flatMap_map]
  apply List.flatMap_congr
  intro l _
  exact l.items_select σ.lyrics

/-
  The pitch stream of a block lacks just
  the deleted directives.
-/
theorem pitchStream_select :
    (b.select σ).pitchStream =
      b.pitchStream.filter
        (PitchItem.isKept σ.pitches) := by
  simp only [pitchStream, select, List.filter_flatMap,
    List.flatMap_map]
  apply List.flatMap_congr
  intro l _
  exact l.items_select σ.pitches

end Block

end Streams

------------------------------------------------------------
-- What attacks receive
------------------------------------------------------------

/- What an attack receives of the directives that stay. -/
def Delivery.select
    (keep : DirectiveName → Bool)
    (d : Delivery) : Delivery :=
  { d with handed := d.handed.filter (Directive.isKept keep) }

/- A subdivision with a content that has fewer directives. -/
def Slot.select
    {α : Type}
    (content : α → α)
    (s : Slot α) : Slot α :=
  { s with content := content s.content }

/-
  What becomes of a cue whose contents
  have fewer directives.
-/
def Cue.select
    {α : Type}
    (keep : DirectiveName → Bool)
    (content : α → α) : Cue α → Option (Cue α)
  | directive d =>
      if d.isKept keep then some (.directive d) else none
  | beat b slots =>
      some
        (.beat (b.select keep)
          (slots.map (Slot.select content)))
  | barline measure => some (.barline measure)

namespace PitchStream

variable (keep : DirectiveName → Bool)

/- An attack gets the same but for deleted directives. -/
theorem attack_select
    (s : PitchStream) :
    attack (s.filter (PitchItem.isKept keep)) =
      (s.attack.1.select keep,
        s.attack.2.filter (PitchItem.isKept keep)) := by
  induction s with
  | nil =>
      rfl
  | cons item s ih =>
      cases item with
      | directive d =>
          cases hKept : d.isKept keep with
          | true =>
              simp [PitchItem.isKept, hKept, attack, ih,
                Delivery.select]
          | false =>
              simp [PitchItem.isKept, hKept, attack, ih,
                Delivery.select]
      | sounding sound =>
          rfl
      | barline =>
          rfl

/-
  Deleted items are not there to be
  dropped, but the barline is.
-/
theorem passBarline_select
    (s : PitchStream) :
    (passBarline (s.filter (PitchItem.isKept keep))).2 =
      s.passBarline.2.filter (PitchItem.isKept keep) := by
  induction s with
  | nil =>
      rfl
  | cons item s ih =>
      cases item with
      | directive d =>
          cases hKept : d.isKept keep <;>
            simp [PitchItem.isKept, hKept, passBarline, ih]
      | sounding sound =>
          exact ih
      | barline =>
          rfl

/-
  Subdivisions are filled with the same but
  for deleted directives.
-/
theorem fill_select
    (s : PitchStream)
    (subs : List Subdivision) :
    fill (s.filter (PitchItem.isKept keep)) subs =
      ((s.fill subs).1.map (Slot.select (Delivery.select keep)),
        (s.fill subs).2.filter (PitchItem.isKept keep)) := by
  induction subs generalizing s with
  | nil =>
      rfl
  | cons sub subs ih =>
      simp only [fill]
      split
      · simp only [attack_select, ih]
        rfl
      · rw [ih]
        rfl

/- Cues align alike but for deleted directives. -/
theorem cues_select
    (keepLyrics : DirectiveName → Bool)
    (s : PitchStream)
    (items : List LyricItem) :
    cues (s.filter (PitchItem.isKept keep))
        (items.filterMap (LyricItem.select keepLyrics)) =
      (s.cues items).filterMap
        (Cue.select keepLyrics (Delivery.select keep)) := by
  induction items generalizing s with
  | nil =>
      rfl
  | cons item items ih =>
      cases item with
      | directive d =>
          cases hKept : d.isKept keepLyrics <;>
            simp [LyricItem.select, Cue.select, hKept, cues, ih]
      | barline measure =>
          simp only [LyricItem.select, Cue.select,
            List.filterMap_cons, cues, passBarline_select,
            ih]
      | beat b =>
          simp only [LyricItem.select, Cue.select,
            List.filterMap_cons, cues,
            Beat.subdivisions_select, fill_select, ih]

end PitchStream

------------------------------------------------------------
-- Voices
------------------------------------------------------------

/-
  The octave on the center line, if octave directives stay;
  without them it is the one that a block starts with.
-/
def Melody.select
    (keep : DirectiveName → Bool)
    (m : Melody) : Melody :=
  if keep .referenceOctave then m else
    { m with
      referenceOctave := ({} : Melody).referenceOctave }

/- The state of a block whose melody had fewer directives. -/
def Voicing.select
    (keep : DirectiveName → Bool)
    (v : Voicing) : Voicing :=
  { v with melody := v.melody.select keep }

/-
  What an attack sounds that receives fewer
  directives: the same voices.
-/
def Attack.select
    (keep : DirectiveName → Bool)
    (a : Attack) : Attack where
  delivery := a.delivery.select keep
  voices := a.voices
  referenceOctave :=
    if keep .referenceOctave then a.referenceOctave
    else ({} : Melody).referenceOctave

namespace Voicing

variable {keep : DirectiveName → Bool}
variable (hKey : keep .key = true)

include hKey

/-
  A directive that is deleted would not have changed the
  state that is left.
-/
theorem follow_select
    (v : Voicing)
    (d : Directive) :
    (v.follow d).select keep =
      if d.isKept keep then (v.select keep).follow d
      else v.select keep := by
  rcases d with ⟨order, location⟩
  cases order with
  | key accidental count =>
      exact (if_pos hKey).symm
  | referenceOctave octave =>
      cases hOctave : keep .referenceOctave <;>
        simp [follow, select, Melody.select,
          Melody.setReferenceOctave, Directive.isKept,
          Order.name, hOctave]
  | _ =>
      exact (ite_self _).symm

/-
  Without deleted directives the voicing is followed alike,
  but for the octave on the center line.
-/
theorem foldl_follow_select
    (v : Voicing)
    (ds : List Directive) :
    (ds.filter (Directive.isKept keep)).foldl follow
        (v.select keep) =
      (ds.foldl follow v).select keep := by
  induction ds generalizing v with
  | nil =>
      rfl
  | cons d ds ih =>
      rw [List.foldl_cons, ← ih, follow_select hKey]
      cases hKept : d.isKept keep <;> simp [hKept]

/-
  What sounds does not depend on the
  octave on the center line.
-/
omit hKey in
theorem sound_select
    (v : Voicing)
    (s : Sounding) :
    (v.select keep).sound s =
      ((v.sound s).1, (v.sound s).2.select keep) := by
  unfold select Melody.select
  cases hOctave : keep .referenceOctave with
  | true =>
      simp
  | false =>
      cases s with
      | pitch p =>
          rfl
      | chord c =>
          rcases c with ⟨ps, location⟩
          cases ps <;> rfl

/-
  An attack has the same voices without deleted directives.
-/
theorem attack_select
    (v : Voicing)
    (d : Delivery) :
    (v.select keep).attack (d.select keep) =
      ((v.attack d).1.select keep,
        (v.attack d).2.select keep) := by
  rcases d with ⟨handed, element⟩
  have hOctave (w : Voicing) :
      (w.select keep).melody.referenceOctave =
        if keep .referenceOctave then
          w.melody.referenceOctave
        else ({} : Melody).referenceOctave := by
    unfold select Melody.select
    split <;> rfl
  unfold attack Delivery.select
  simp only [foldl_follow_select hKey]
  cases element with
  | none =>
      simp only [hOctave]
      rfl
  | some s =>
      simp only [sound_select, hOctave]
      rfl

theorem slots_select
    (v : Voicing)
    (parts : List (Slot Delivery)) :
    (v.select keep).slots
        (parts.map (Slot.select (Delivery.select keep))) =
      ((v.slots parts).1.map
          (Slot.select (Attack.select keep)),
        (v.slots parts).2.select keep) := by
  induction parts generalizing v with
  | nil =>
      rfl
  | cons part parts ih =>
      simp only [List.map_cons, slots, Slot.select,
        attack_select hKey, ih]

/- Cues have the same voices without deleted directives. -/
theorem cues_select
    (keepLyrics : DirectiveName → Bool)
    (v : Voicing)
    (received : List (Cue Delivery)) :
    (v.select keep).cues
        (received.filterMap
          (Cue.select keepLyrics (Delivery.select keep))) =
      (v.cues received).filterMap
        (Cue.select keepLyrics (Attack.select keep)) := by
  induction received generalizing v with
  | nil =>
      rfl
  | cons cue received ih =>
      cases cue with
      | directive d =>
          cases hKept : d.isKept keepLyrics <;>
            simp [Cue.select, hKept, cues, ih]
      | barline measure =>
          simp only [Cue.select, List.filterMap_cons, cues,
            ← ih]
          rfl
      | beat b parts =>
          simp only [Cue.select, List.filterMap_cons, cues,
            slots_select hKey, ih]

end Voicing

/- A block sounds the same voices as long as its keys stay. -/
theorem Block.voices_select
    {σ : Selection}
    (b : Block)
    (hKey : σ.pitches .key = true) :
    (b.select σ).voices =
      b.voices.filterMap
        (Cue.select σ.lyrics
          (Attack.select σ.pitches)) := by
  have hStart : ({} : Voicing).select σ.pitches = {} := by
    unfold Voicing.select Melody.select
    split <;> rfl
  rw [voices, voices, cues, cues, lyricStream_select,
    pitchStream_select, PitchStream.cues_select,
    ← Voicing.cues_select hKey, hStart]

end LyricScore
