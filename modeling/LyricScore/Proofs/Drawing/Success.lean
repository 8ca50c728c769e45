import LyricScore.Proofs.Drawing.Figure
import LyricScore.Proofs.Timing.Success

/-
  This file tells when a score can be drawn: every number that
  is shown can be written, every letter has a height, and
  every rendered beat is measurable.

  Key definitions include:
    * `Voice.IsNamed`
    * `Figure.IsDrawable`
    * `blockFigures`, `Score.figures`

  Key theorems include:
    * `Pen.exists_slot_iff`
    * `Pen.exists_drawBeat_iff`
    * `Pen.exists_cues_iff`
    * `Score.exists_layout_iff`
-/

namespace LyricScore

------------------------------------------------------------
-- Drawable figures
------------------------------------------------------------

/- The octave of a voice can be written. -/
def Voice.IsNamed
    (v : Voice) : Prop :=
  Numeral.Writable v.tone.octave

/-
  A figure whose number can be written, or whose letter has a
  name and, where it has an offset, a height.
-/
def Figure.IsDrawable
    (K : Type)
    [Coordinate K] : Figure → Prop
  | .tempo bpm => Numeral.Writable bpm
  | .octave number => Numeral.Writable number
  | .counter _ label => Numeral.Writable label
  | .letter v reference =>
    v.IsNamed ∧
      (offset? v.tone.letter.name v.accidental ≠ none →
        (Coordinate.ofInt? (v.tone.octave - reference) :
          Option K).isSome)
  | _ => True

instance
    (v : Voice) :
    Decidable v.IsNamed := by
  unfold Voice.IsNamed
  infer_instance

variable {K : Type} [Coordinate K]

instance
    (f : Figure) :
    Decidable (f.IsDrawable K) := by
  unfold Figure.IsDrawable
  cases f <;> infer_instance

/-
  A height is there unless it has an offset and its octave
  is too far away.
-/
theorem exists_pitchHeight_iff
    {center spacing : K}
    {octave reference : Int}
    {letter : String}
    {accidental : Accidental} :
    (∃ y,
        pitchHeight center octave letter accidental
            reference spacing =
          .ok y) ↔
      (offset? letter accidental ≠ none →
        (Coordinate.ofInt? (octave - reference) :
          Option K).isSome) := by
  unfold pitchHeight
  cases offset? letter accidental with
  | none =>
      simp
  | some offset =>
      cases
        (Coordinate.ofInt? (octave - reference) :
          Option K) <;>
        simp

namespace Pen

variable {s : LayoutSettings K}

/- A label is there just if its number can be written. -/
theorem exists_label_iff
    {letter : String}
    {n : Int} :
    (∃ text, label letter n = .ok text) ↔
      Numeral.Writable n := by
  rw [label, Outcome.exists_mapError_eq_ok,
    Outcome.exists_map_eq_ok, Numeral.write]
  split <;> simp [*]

/- A lyric directive is drawn just if its figures can be. -/
theorem exists_lyricDirective_iff
    (p : Pen K)
    {d : Directive} :
    (∃ r, lyricDirective s p d = .ok r) ↔
      ∀ f ∈ d.figures, f.IsDrawable K := by
  cases hOrder : d.order with
  | tempo bpm =>
      simp only [lyricDirective, hOrder, Directive.figures,
        List.forall_mem_singleton]
      exact Iff.trans
        (Outcome.exists_bind_of_total fun _ => ⟨_, rfl⟩)
        exists_label_iff
  | _ =>
      simp [lyricDirective, hOrder, Directive.figures]

theorem exists_lyricDirectives_iff
    (p : Pen K)
    {ds : List Directive} :
    (∃ r, lyricDirectives s p ds = .ok r) ↔
      ∀ f ∈ ds.flatMap Directive.figures, f.IsDrawable K := by
  induction ds generalizing p with
  | nil =>
      simp [lyricDirectives]
  | cons d ds ih =>
      rw [lyricDirectives, List.flatMap_cons,
        List.forall_mem_append]
      apply Outcome.exists_bind_iff
        (exists_lyricDirective_iff p)
      intro first _
      exact Iff.trans
        (Outcome.exists_bind_of_total fun _ => ⟨_, rfl⟩)
        (ih _)

/-
  The octaves before an attack are drawn just
  if all of them can be.
-/
theorem exists_octaveCommands_iff
    {x : K}
    {ds : List Directive} :
    (∃ r, octaveCommands s x ds = .ok r) ↔
      ∀ f ∈ ds.filterMap Directive.octaveFigure?,
        f.IsDrawable K := by
  induction ds with
  | nil =>
      simp [octaveCommands]
  | cons d ds ih =>
      cases hOrder : d.order with
      | referenceOctave octave =>
          have hFigure :
              d.octaveFigure? = some (.octave octave) := by
            simp [Directive.octaveFigure?, hOrder]
          simp only [octaveCommands, hOrder]
          rw [List.filterMap_cons_some hFigure,
            List.forall_mem_cons]
          apply Outcome.exists_bind_iff exists_label_iff
          intro text _
          exact Iff.trans
            (Outcome.exists_bind_of_total fun _ => ⟨_, rfl⟩)
            ih
      | _ =>
          have hFigure : d.octaveFigure? = none := by
            simp [Directive.octaveFigure?, hOrder]
          simp only [octaveCommands, hOrder]
          rw [List.filterMap_cons_none hFigure, ih]

/- A voice is drawn just if its letter can be. -/
theorem exists_voiceCommand_iff
    {reference : Int}
    {x : K}
    {v : Voice} :
    (∃ c, voiceCommand s reference x v = .ok c) ↔
      (Figure.letter v reference).IsDrawable K := by
  unfold voiceCommand Figure.IsDrawable Voice.IsNamed
  by_cases hNamed : Numeral.Writable v.tone.octave
  · simp only [hNamed, if_true, true_and]
    exact Iff.trans
      (Outcome.exists_bind_of_total fun _ => ⟨_, rfl⟩)
      exists_pitchHeight_iff
  · simp [hNamed]

/- A chord is drawn just if all its letters can be. -/
theorem exists_chordCommands_iff
    {reference : Int}
    {x : K}
    {right : Bool}
    {vs : List Voice} :
    (∃ r, chordCommands s reference x right vs = .ok r) ↔
      ∀ f ∈ vs.map fun v => Figure.letter v reference,
        f.IsDrawable K := by
  induction vs generalizing right with
  | nil =>
      simp [chordCommands]
  | cons v vs ih =>
      rw [chordCommands, List.map_cons, List.forall_mem_cons]
      apply Outcome.exists_bind_iff exists_voiceCommand_iff
      intro first _
      exact Iff.trans
        (Outcome.exists_bind_of_total fun _ => ⟨_, rfl⟩) ih

theorem exists_mapM_voiceCommand_iff
    {reference : Int}
    {x : K}
    {vs : List Voice} :
    (∃ r, vs.mapM (voiceCommand s reference x) = .ok r) ↔
      ∀ f ∈ vs.map fun v => Figure.letter v reference,
        f.IsDrawable K := by
  induction vs with
  | nil =>
      simp
  | cons v vs ih =>
      rw [List.mapM_cons, List.map_cons, List.forall_mem_cons]
      apply Outcome.exists_bind_iff exists_voiceCommand_iff
      intro first _
      exact Iff.trans
        (Outcome.exists_bind_of_total fun _ => ⟨_, rfl⟩) ih

/-
  A subdivision is drawn if its figures are
  drawable, and only then.
-/
theorem exists_slot_iff
    {x : K}
    {part : Slot Attack} :
    (∃ r, slot s x part = .ok r) ↔
      ∀ f ∈ part.figures, f.IsDrawable K := by
  have hVoices :
      (∃ r, voiceCommands s x part.content = .ok r) ↔
        ∀ f ∈ part.content.voices.map fun v =>
          Figure.letter v part.content.referenceOctave,
          f.IsDrawable K := by
    unfold voiceCommands
    split
    · exact exists_chordCommands_iff
    · exact exists_mapM_voiceCommand_iff
  rw [slot, Slot.figures, List.forall_mem_cons,
    List.forall_mem_append]
  simp only [Figure.IsDrawable, true_and]
  apply Outcome.exists_bind_iff exists_octaveCommands_iff
  intro octaves _
  exact Iff.trans
    (Outcome.exists_bind_of_total fun _ => ⟨_, rfl⟩) hVoices

/- Slots are drawn just if all their figures can be. -/
theorem exists_slots_iff
    {x : K}
    {parts : List (Slot Attack)} :
    (∃ r, slots s x parts = .ok r) ↔
      ∀ f ∈ parts.flatMap Slot.figures, f.IsDrawable K := by
  induction parts generalizing x with
  | nil =>
      simp [slots]
  | cons part parts ih =>
      rw [slots, List.flatMap_cons, List.forall_mem_append]
      apply Outcome.exists_bind_iff exists_slot_iff
      intro first _
      exact Iff.trans
        (Outcome.exists_bind_of_total fun _ => ⟨_, rfl⟩) ih

/- The slots and the counter of a rendered beat. -/
theorem exists_drawBeat_iff
    {block : Int}
    {p : Pen K}
    {b : Beat}
    {parts : List (Slot Attack)}
    (hRendered : parts ≠ []) :
    let t := b.directives.foldl Tally.follow p.tally
    (∃ r, drawBeat s block p b parts = .ok r) ↔
      (∀ f ∈
          b.directives.flatMap Directive.figures ++
            Beat.figures ⟨block, t.beat⟩ t.counter parts,
          f.IsDrawable K) ∧
        b.IsMeasurable := by
  intro t
  have hFigures :
      (∀ f ∈ Beat.figures ⟨block, t.beat⟩ t.counter parts,
          f.IsDrawable K) ↔
        (∀ f ∈ parts.flatMap Slot.figures, f.IsDrawable K) ∧
          Numeral.Writable t.counter := by
    rw [Beat.figures, List.forall_mem_append]
    simp [Figure.IsDrawable]
  rw [drawBeat, List.forall_mem_append, hFigures, and_assoc,
    and_assoc]
  apply Outcome.exists_bind_iff (exists_lyricDirectives_iff p)
  rintro ⟨directed, r⟩ hDirected
  have hCounter : r.counter = t.counter :=
    congrArg Tally.counter (draws_lyricDirectives hDirected).2
  simp only [if_neg hRendered]
  apply Outcome.exists_bind_iff exists_slots_iff
  intro drawn _
  apply Outcome.exists_bind_iff
  · rw [← hCounter]
    exact Iff.trans
      (Outcome.exists_bind_of_total fun _ => ⟨_, rfl⟩)
      exists_label_iff
  · intro counter _
    exact Iff.trans
      (Outcome.exists_bind_of_total fun _ => ⟨_, rfl⟩)
      (Iff.trans Outcome.exists_mapError_eq_ok
        Beat.exists_scale_iff)

end Pen

/- The beat of a cue is measurable if it has slots. -/
def Cue.IsMeasurable : Cue Attack → Prop
  | .beat b slots => slots ≠ [] → b.IsMeasurable
  | _ => True

/-
  Cues are drawn if their figures are drawable and their
  beats measurable, and only then.
-/
theorem Pen.exists_cues_iff
    {s : LayoutSettings K}
    {block : Int}
    {p : Pen K}
    {cs : List (Cue Attack)} :
    (∃ r, cues s block p cs = .ok r) ↔
      (∀ f ∈ Cue.figures block p.tally cs, f.IsDrawable K) ∧
        ∀ cue ∈ cs, cue.IsMeasurable := by
  induction cs generalizing p with
  | nil =>
      simp [cues, Cue.figures]
  | cons cue cs ih =>
      rw [List.forall_mem_cons]
      cases cue with
      | directive d =>
          rw [cues, Cue.figures, List.forall_mem_append,
            and_assoc]
          simp only [Cue.IsMeasurable, true_and]
          apply Outcome.exists_bind_iff
            (exists_lyricDirective_iff p)
          rintro ⟨first, q⟩ hFirst
          rw [← (draws_lyricDirective hFirst).2]
          exact Iff.trans
            (Outcome.exists_bind_of_total fun _ => ⟨_, rfl⟩)
            ih
      | barline measure =>
          rw [cues, Cue.figures, List.forall_mem_cons]
          simp only [Cue.IsMeasurable, Figure.IsDrawable,
            true_and]
          exact Iff.trans
            (Outcome.exists_bind_of_total fun _ => ⟨_, rfl⟩)
            ih
      | beat b parts =>
          rw [cues, Cue.figures]
          by_cases hEmpty : parts = []
          · subst hEmpty
            rw [List.forall_mem_append]
            simp only [if_true, Cue.IsMeasurable, ne_eq,
              not_true_eq_false, false_implies, true_and,
              and_assoc]
            apply Outcome.exists_bind_iff
            · simp only [drawBeat, if_true]
              exact Iff.trans
                (Outcome.exists_bind_of_total fun _ =>
                  ⟨_, rfl⟩) (exists_lyricDirectives_iff p)
            · rintro ⟨first, q⟩ hFirst
              rw [← (draws_beat_nil hFirst).2]
              exact Iff.trans
                (Outcome.exists_bind_of_total fun _ =>
                  ⟨_, rfl⟩) ih
          · have hMeasurable :
                (Cue.beat b parts).IsMeasurable ↔
                  b.IsMeasurable := by
              simp [Cue.IsMeasurable, hEmpty]
            rw [if_neg hEmpty, ← List.append_assoc,
              List.forall_mem_append, hMeasurable,
              and_and_and_comm]
            apply Outcome.exists_bind_iff
              (exists_drawBeat_iff hEmpty)
            rintro ⟨first, q⟩ hFirst
            rw [← (draws_beat hEmpty hFirst).2]
            exact Iff.trans
              (Outcome.exists_bind_of_total fun _ =>
                ⟨_, rfl⟩) ih

------------------------------------------------------------
-- Drawings of scores
------------------------------------------------------------

namespace Block

/-
  The beats among the voices of a block are those of its
  lyric stream.
-/
theorem measurable_voices_iff
    (b : Block) :
    (∀ cue ∈ b.voices, cue.IsMeasurable) ↔
      ∀ item ∈ b.lyricStream, item.IsMeasurable := by
  rw [← b.map_item_voices, List.forall_mem_map]
  apply forall₂_congr
  intro cue hCue
  have hSlots := subdivisions_of_mem_voices hCue
  cases cue with
  | directive d =>
      rfl
  | barline measure =>
      rfl
  | beat beat slots =>
      have hEmpty : slots = [] ↔ beat.subdivisions = [] := by
        rw [← List.map_eq_nil_iff (f := Slot.subdivision)]
        exact Eq.congr_left hSlots
      simp only [Cue.IsMeasurable, Cue.item,
        LyricItem.IsMeasurable, ne_eq, hEmpty]

/-
  A block is drawn just if its figures can be and its beats
  have a length.
-/
theorem exists_layout_iff
    {s : LayoutSettings K}
    {index : Int}
    {b : Block} :
    (∃ layout, b.layout s index = .ok layout) ↔
      (∀ f ∈ b.figures index, f.IsDrawable K) ∧
        ∀ item ∈ b.lyricStream, item.IsMeasurable := by
  have hFigures :
      (∀ f ∈ b.figures index, f.IsDrawable K) ↔
        ∀ f ∈ Cue.figures index {} b.voices,
          f.IsDrawable K := by
    simp [Block.figures, Figure.IsDrawable]
  rw [hFigures, ← b.measurable_voices_iff]
  exact Iff.trans
    (Outcome.exists_bind_of_total fun _ => ⟨_, rfl⟩)
    Pen.exists_cues_iff

end Block

/-
  What the drawings of blocks show, the first of which has
  the index `index`.
-/
def blockFigures
    (index : Nat) : List Block → List Figure
  | [] => []
  | b :: rest =>
      b.figures index ++ blockFigures (index + 1) rest

/- What the drawing of a score shows below its title. -/
def Score.figures
    (s : Score) : List Figure :=
  blockFigures 0 s.blocks

/-
  Blocks are drawn just if all their figures can be and all
  their beats have a length.
-/
theorem exists_layoutBlocks_iff
    {ls : LayoutSettings K}
    {index : Nat}
    {bs : List Block} :
    (∃ layouts, layoutBlocks ls index bs = .ok layouts) ↔
      (∀ f ∈ blockFigures index bs, f.IsDrawable K) ∧
        ∀ b ∈ bs,
          ∀ item ∈ b.lyricStream, item.IsMeasurable := by
  induction bs generalizing index with
  | nil =>
      simp [layoutBlocks, blockFigures]
  | cons b bs ih =>
      rw [layoutBlocks, blockFigures,
        List.forall_mem_append, List.forall_mem_cons,
        and_and_and_comm]
      apply Outcome.exists_bind_iff Block.exists_layout_iff
      intro first _
      exact Iff.trans
        (Outcome.exists_bind_of_total fun _ => ⟨_, rfl⟩) ih

/-
  A score is drawn if its figures are drawable and its beats
  measurable, and only then.
-/
theorem Score.exists_layout_iff
    {ls : LayoutSettings K}
    {s : Score} :
    (∃ drawing, s.layout ls = .ok drawing) ↔
      (∀ f ∈ s.figures, f.IsDrawable K) ∧ s.IsMeasurable :=
  Iff.trans (Outcome.exists_bind_of_total fun _ => ⟨_, rfl⟩)
    exists_layoutBlocks_iff

end LyricScore
