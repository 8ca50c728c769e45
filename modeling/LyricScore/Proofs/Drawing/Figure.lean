import Mathlib.Data.List.Forall2
import LyricScore.Drawing.Score
import LyricScore.Proofs.Outcome
import LyricScore.Proofs.Timing.Timeline

/-
  This file tells what a drawing of a block shows, command by
  command.  The figures of a block depend on its cues alone,
  so what is drawn and in which order does not depend on
  coordinates; each command draws the figure in its place.

  Key definitions include:
    * `Figure`
    * `Figure.Draws`
    * `Cue.figures`
    * `Block.figures`
    * `shiftedBy`

  Key theorems include:
    * `Pen.draws_slot`
    * `Pen.draws_beat`
    * `Pen.draws_cues`
    * `Block.layout_eq_ok`
-/

namespace LyricScore

variable {K : Type} [Coordinate K]

------------------------------------------------------------
-- Figures
------------------------------------------------------------

/-
  What a command shows: a guide line, a tempo, a barline, the
  text of a subdivision, an octave, the letter of a voice when
  the octave `reference` is on the center line, or the circle
  or the number of a beat.
-/
inductive Figure where
  | guide
  | tempo (bpm : Int)
  | barline
  | lyric (text : String)
  | octave (number : Int)
  | letter (v : Voice) (reference : Int)
  | circle (key : BeatKey)
  | counter (key : BeatKey) (label : Int)
deriving DecidableEq, Repr

namespace Figure

/-
  The letter that is shown, with the
  octave on the center line.
-/
def letter? : Figure → Option (Voice × Int)
  | letter v reference => some (v, reference)
  | _ => none

/-
  A command that draws a figure, at whatever
  place along the line.
-/
def Draws
    (s : LayoutSettings K)
    (f : Figure)
    (c : DrawCommand K) : Prop :=
  match f with
  | guide =>
      ∃ endX octaves, c = BlockLayout.guide s endX octaves
  | tempo bpm =>
    ∃ x text,
      Pen.label "T" bpm = .ok text ∧
        c = Pen.tempoCommand s x text
  | barline => ∃ p, c = Pen.barlineCommand s p
  | lyric text => ∃ x, c = Pen.lyricCommand s x text
  | octave number =>
    ∃ x text,
      Pen.label "G" number = .ok text ∧
        c = Pen.octaveCommand s x text
  | letter v reference =>
    ∃ x y,
      pitchHeight s.centerLine v.tone.octave
            v.tone.letter.name v.accidental reference
            s.staffLineSpacing =
          .ok y ∧
        c = Pen.letterCommand s x y v
  | circle key => ∃ x, c = Pen.circleCommand s x key
  | counter key label =>
    ∃ x text,
      Pen.label "" label = .ok text ∧
        c = Pen.counterCommand s x key text

end Figure

/- The number of the next beat and its index in the block. -/
structure Tally where
  counter : Int := 1
  beat : Nat := 0
deriving DecidableEq, Repr

namespace Tally

/- A pickup sets the number. -/
def follow
    (t : Tally)
    (d : Directive) : Tally :=
  match d.order with
  | .pickup count => { t with counter := count }
  | _ => t

end Tally

/- What a directive of the lyric stream shows. -/
def Directive.figures
    (d : Directive) : List Figure :=
  match d.order with
  | .tempo bpm => [.tempo bpm]
  | _ => []

/- The octave that a directive of the pitch stream shows. -/
def Directive.octaveFigure?
    (d : Directive) : Option Figure :=
  match d.order with
  | .referenceOctave octave => some (.octave octave)
  | _ => none

namespace Directive

variable {α : Type}
variable {read : Figure → Option α}

/-
  A directive of the lyric stream shows nothing but a tempo.
-/
theorem filterMap_figures
    (hTempo : ∀ bpm, read (.tempo bpm) = none)
    (d : Directive) :
    d.figures.filterMap read = [] := by
  unfold figures
  split
  · exact List.filterMap_cons_none (hTempo _)
  · rfl

/-
  A reading that knows nothing of tempos finds nothing among
  the figures of directives.
-/
theorem filterMap_flatMap_figures
    (hTempo : ∀ bpm, read (.tempo bpm) = none)
    (ds : List Directive) :
    (ds.flatMap figures).filterMap read = [] := by
  rw [List.filterMap_flatMap]
  simp [filterMap_figures hTempo]

/-
  A directive of the pitch stream shows
  nothing but an octave.
-/
theorem filterMap_octaveFigures
    (hOctave : ∀ number, read (.octave number) = none)
    (ds : List Directive) :
    (ds.filterMap octaveFigure?).filterMap read = [] := by
  rw [List.filterMap_filterMap, List.filterMap_eq_nil_iff]
  intro d _
  unfold octaveFigure?
  split
  · exact hOctave _
  · rfl

end Directive

/-
  What a subdivision shows: its text, octaves, and the
  letters of its voices.
-/
def Slot.figures
    (slot : Slot Attack) : List Figure :=
  .lyric slot.subdivision.displayText ::
    (slot.content.delivery.handed.filterMap
        Directive.octaveFigure? ++
      slot.content.voices.map fun v =>
        .letter v slot.content.referenceOctave)

/- What the slots and the counter of a rendered beat show. -/
def Beat.figures
    (key : BeatKey)
    (label : Int)
    (slots : List (Slot Attack)) : List Figure :=
  slots.flatMap Slot.figures ++
    [.circle key, .counter key label]

/- What cues show. -/
def Cue.figures
    (block : Int)
    (t : Tally) : List (Cue Attack) → List Figure
  | [] => []
  | .directive d :: rest =>
      d.figures ++ figures block (t.follow d) rest
  | .barline _ :: rest =>
      .barline :: figures block { t with counter := 1 } rest
  | .beat b slots :: rest =>
    let t := b.directives.foldl Tally.follow t
    b.directives.flatMap Directive.figures ++
      if slots = [] then figures block t rest
      else
        Beat.figures ⟨block, t.beat⟩ t.counter slots ++
          figures block
            ⟨t.counter + b.units, t.beat + 1⟩ rest

/- What the drawing of a block shows. -/
def Block.figures
    (b : Block)
    (index : Int) : List Figure :=
  [.guide, .guide, .guide] ++ Cue.figures index {} b.voices

------------------------------------------------------------
-- Pens draw figures
------------------------------------------------------------

namespace Pen

variable {s : LayoutSettings K}

/- What a pen knows that is not a place. -/
def tally
    (p : Pen K) : Tally :=
  ⟨p.counter, p.beat⟩

omit [Coordinate K] in
/- A label is the number behind the letter. -/
theorem eq_append_of_label
    {letter : String}
    {n : Int}
    {text : String}
    (hText : label letter n = .ok text) :
    text = letter ++ toString n := by
  simp only [label, Outcome.mapError_eq_ok,
    Outcome.map_eq_ok, Numeral.write] at hText
  rcases hText with ⟨written, hWritten, rfl⟩
  split at hWritten
  · cases hWritten
    rfl
  · cases hWritten

/-
  A lyric directive draws its figures, and
  the tally follows it.
-/
theorem draws_lyricDirective
    {p q : Pen K}
    {d : Directive}
    {drawn : List (DrawCommand K)}
    (hDraw : lyricDirective s p d = .ok (drawn, q)) :
    List.Forall₂ (Figure.Draws s) d.figures drawn ∧
      q.tally = p.tally.follow d := by
  cases hOrder : d.order with
  | tempo bpm =>
      simp only [lyricDirective, hOrder, Outcome.bind_eq_ok,
        Outcome.pure_eq, Except.ok.injEq,
        Prod.mk.injEq] at hDraw
      rcases hDraw with ⟨text, hText, rfl, rfl⟩
      constructor
      · simp only [Directive.figures, hOrder]
        exact .cons ⟨p.x, text, hText, rfl⟩ .nil
      · simp [Tally.follow, hOrder, tally]
  | _ =>
      simp only [lyricDirective, hOrder, Except.ok.injEq,
        Prod.mk.injEq] at hDraw
      rcases hDraw with ⟨rfl, rfl⟩
      constructor
      · simp [Directive.figures, hOrder]
      · simp [Tally.follow, hOrder, tally]

theorem draws_lyricDirectives
    {p q : Pen K}
    {ds : List Directive}
    {drawn : List (DrawCommand K)}
    (hDraw : lyricDirectives s p ds = .ok (drawn, q)) :
    List.Forall₂ (Figure.Draws s)
        (ds.flatMap Directive.figures) drawn ∧
      q.tally = ds.foldl Tally.follow p.tally := by
  induction ds generalizing p drawn with
  | nil =>
      simp only [lyricDirectives, Except.ok.injEq,
        Prod.mk.injEq] at hDraw
      rcases hDraw with ⟨rfl, rfl⟩
      exact ⟨.nil, rfl⟩
  | cons d ds ih =>
      simp only [lyricDirectives, Outcome.bind_eq_ok,
        Outcome.pure_eq, Except.ok.injEq,
        Prod.mk.injEq] at hDraw
      rcases hDraw with
        ⟨⟨first, r⟩, hFirst, ⟨more, q⟩, hMore, rfl, rfl⟩
      rcases draws_lyricDirective hFirst with ⟨hShown, hTally⟩
      rcases ih hMore with ⟨hRest, hLast⟩
      rw [hTally] at hLast
      exact ⟨List.rel_append hShown hRest, hLast⟩

/-
  The directives before an attack draw the
  octaves that they set.
-/
theorem draws_octaveCommands
    {x : K}
    {ds : List Directive}
    {drawn : List (DrawCommand K)}
    (hDraw : octaveCommands s x ds = .ok drawn) :
    List.Forall₂ (Figure.Draws s)
      (ds.filterMap Directive.octaveFigure?) drawn := by
  induction ds generalizing drawn with
  | nil =>
      simp only [octaveCommands, Except.ok.injEq] at hDraw
      subst hDraw
      exact .nil
  | cons d ds ih =>
      cases hOrder : d.order with
      | referenceOctave octave =>
          simp only [octaveCommands, hOrder,
            Outcome.bind_eq_ok, Outcome.pure_eq,
            Except.ok.injEq] at hDraw
          rcases hDraw with ⟨text, hText, more, hMore, rfl⟩
          have hFigure :
              d.octaveFigure? = some (.octave octave) := by
            simp [Directive.octaveFigure?, hOrder]
          rw [List.filterMap_cons_some hFigure]
          exact .cons ⟨x, text, hText, rfl⟩ (ih hMore)
      | _ =>
          simp only [octaveCommands, hOrder] at hDraw
          have hFigure : d.octaveFigure? = none := by
            simp [Directive.octaveFigure?, hOrder]
          rw [List.filterMap_cons_none hFigure]
          exact ih hDraw

/- A voice draws its letter. -/
theorem draws_voiceCommand
    {reference : Int}
    {x : K}
    {v : Voice}
    {c : DrawCommand K}
    (hDraw : voiceCommand s reference x v = .ok c) :
    (Figure.letter v reference).Draws s c := by
  unfold voiceCommand at hDraw
  split at hDraw
  · simp only [Outcome.bind_eq_ok, Outcome.pure_eq,
      Except.ok.injEq] at hDraw
    rcases hDraw with ⟨y, hHeight, rfl⟩
    exact ⟨x, y, hHeight, rfl⟩
  · cases hDraw

/- A chord draws the letters of its voices, in order. -/
theorem draws_chordCommands
    {reference : Int}
    {x : K}
    {right : Bool}
    {vs : List Voice}
    {drawn : List (DrawCommand K)}
    (hDraw : chordCommands s reference x right vs = .ok drawn) :
    List.Forall₂ (Figure.Draws s)
      (vs.map fun v => .letter v reference) drawn := by
  induction vs generalizing right drawn with
  | nil =>
      simp only [chordCommands, Except.ok.injEq] at hDraw
      subst hDraw
      exact .nil
  | cons v vs ih =>
      simp only [chordCommands, Outcome.bind_eq_ok,
        Outcome.pure_eq, Except.ok.injEq] at hDraw
      rcases hDraw with ⟨first, hFirst, more, hMore, rfl⟩
      exact .cons (draws_voiceCommand hFirst) (ih hMore)

/- Voices one by one draw their letters, in order. -/
theorem draws_mapM_voiceCommand
    {reference : Int}
    {x : K}
    {vs : List Voice}
    {drawn : List (DrawCommand K)}
    (hDraw : vs.mapM (voiceCommand s reference x) = .ok drawn) :
    List.Forall₂ (Figure.Draws s)
      (vs.map fun v => .letter v reference) drawn := by
  induction vs generalizing drawn with
  | nil =>
      simp only [List.mapM_nil, Outcome.pure_eq,
        Except.ok.injEq] at hDraw
      subst hDraw
      exact .nil
  | cons v vs ih =>
      simp only [List.mapM_cons, Outcome.bind_eq_ok,
        Outcome.pure_eq, Except.ok.injEq] at hDraw
      rcases hDraw with ⟨first, hFirst, more, hMore, rfl⟩
      exact .cons (draws_voiceCommand hFirst) (ih hMore)

/- The commands of a subdivision. -/
theorem draws_slot
    {x : K}
    {part : Slot Attack}
    {drawn : List (DrawCommand K)}
    (hDraw : slot s x part = .ok drawn) :
    List.Forall₂ (Figure.Draws s) part.figures drawn := by
  simp only [slot, Outcome.bind_eq_ok, Outcome.pure_eq,
    Except.ok.injEq] at hDraw
  rcases hDraw with ⟨octaves, hOctaves, letters, hLetters, rfl⟩
  have hShown :
      List.Forall₂ (Figure.Draws s)
        (part.content.voices.map fun v =>
          .letter v part.content.referenceOctave)
        letters := by
    unfold voiceCommands at hLetters
    split at hLetters
    · exact draws_chordCommands hLetters
    · exact draws_mapM_voiceCommand hLetters
  exact .cons ⟨x, rfl⟩
    (List.rel_append (draws_octaveCommands hOctaves) hShown)

/- The slots of a beat draw their figures, in order. -/
theorem draws_slots
    {x endX : K}
    {parts : List (Slot Attack)}
    {drawn : List (DrawCommand K)}
    (hDraw : slots s x parts = .ok (drawn, endX)) :
    List.Forall₂ (Figure.Draws s)
      (parts.flatMap Slot.figures) drawn := by
  induction parts generalizing x drawn with
  | nil =>
      simp only [slots, Except.ok.injEq, Prod.mk.injEq] at hDraw
      rcases hDraw with ⟨rfl, -⟩
      exact .nil
  | cons part parts ih =>
      simp only [slots, Outcome.bind_eq_ok, Outcome.pure_eq,
        Except.ok.injEq, Prod.mk.injEq] at hDraw
      rcases hDraw with
        ⟨first, hFirst, ⟨more, last⟩, hMore, rfl, rfl⟩
      exact List.rel_append (draws_slot hFirst) (ih hMore)

/-
  The commands of a beat without subdivisions are those of
  its directives.
-/
theorem draws_beat_nil
    {block : Int}
    {p q : Pen K}
    {b : Beat}
    {drawn : List (DrawCommand K)}
    (hDraw : drawBeat s block p b [] = .ok (drawn, q)) :
    List.Forall₂ (Figure.Draws s)
        (b.directives.flatMap Directive.figures) drawn ∧
      q.tally =
        b.directives.foldl Tally.follow p.tally := by
  simp only [drawBeat, Outcome.bind_eq_ok, if_true,
    Except.ok.injEq, Prod.mk.injEq] at hDraw
  rcases hDraw with ⟨⟨directed, r⟩, hDirected, rfl, rfl⟩
  exact draws_lyricDirectives hDirected

/-
  The commands of a rendered beat, and the
  number of the next one.
-/
theorem draws_beat
    {block : Int}
    {p q : Pen K}
    {b : Beat}
    {parts : List (Slot Attack)}
    {drawn : List (DrawCommand K)}
    (hRendered : parts ≠ [])
    (hDraw : drawBeat s block p b parts = .ok (drawn, q)) :
    let t := b.directives.foldl Tally.follow p.tally
    List.Forall₂ (Figure.Draws s)
        (b.directives.flatMap Directive.figures ++
          Beat.figures ⟨block, t.beat⟩ t.counter parts)
        drawn ∧
      q.tally = ⟨t.counter + b.units, t.beat + 1⟩ := by
  intro t
  simp only [drawBeat, hRendered, if_false,
    Outcome.bind_eq_ok, Outcome.pure_eq,
    Outcome.mapError_eq_ok, counterCommands,
    Except.ok.injEq, Prod.mk.injEq] at hDraw
  rcases hDraw with
    ⟨⟨directed, r⟩, hDirected, ⟨shown, endX⟩, hShown,
      counter, ⟨text, hText, rfl⟩, scale, hScale, rfl, rfl⟩
  rcases draws_lyricDirectives hDirected with
    ⟨hDirectives, hTally⟩
  have hCounter : r.counter = t.counter :=
    congrArg Tally.counter hTally
  have hBeat : r.beat = t.beat := congrArg Tally.beat hTally
  have hUnits := Beat.scale_eq_ok hScale
  rw [hCounter] at hText
  constructor
  · rw [List.append_assoc, hBeat]
    refine List.rel_append hDirectives
      (List.rel_append (draws_slots hShown) ?_)
    exact .cons ⟨_, rfl⟩ (.cons ⟨_, text, hText, rfl⟩ .nil)
  · simp only [tally, hCounter, hBeat, hUnits]

/-
  The commands of cues are those of their figures, in order.
-/
theorem draws_cues
    {block : Int}
    {p q : Pen K}
    {cs : List (Cue Attack)}
    {drawn : List (DrawCommand K)}
    (hDraw : cues s block p cs = .ok (drawn, q)) :
    List.Forall₂ (Figure.Draws s)
      (Cue.figures block p.tally cs) drawn := by
  induction cs generalizing p drawn with
  | nil =>
      simp only [cues, Except.ok.injEq, Prod.mk.injEq] at hDraw
      rcases hDraw with ⟨rfl, -⟩
      exact .nil
  | cons cue cs ih =>
      cases cue with
      | directive d =>
          simp only [cues, Outcome.bind_eq_ok,
            Outcome.pure_eq, Except.ok.injEq,
            Prod.mk.injEq] at hDraw
          rcases hDraw with
            ⟨⟨first, r⟩, hFirst, ⟨more, last⟩, hMore, rfl,
              rfl⟩
          rcases draws_lyricDirective hFirst with
            ⟨hShown, hTally⟩
          have hRest := ih hMore
          rw [hTally] at hRest
          exact List.rel_append hShown hRest
      | barline measure =>
          simp only [cues, Outcome.bind_eq_ok,
            Outcome.pure_eq, Except.ok.injEq,
            Prod.mk.injEq] at hDraw
          rcases hDraw with ⟨⟨more, last⟩, hMore, rfl, rfl⟩
          exact .cons ⟨p, rfl⟩ (ih hMore)
      | beat b parts =>
          simp only [cues, Outcome.bind_eq_ok,
            Outcome.pure_eq, Except.ok.injEq,
            Prod.mk.injEq] at hDraw
          rcases hDraw with
            ⟨⟨first, r⟩, hFirst, ⟨more, last⟩, hMore, rfl,
              rfl⟩
          have hRest := ih hMore
          rw [Cue.figures]
          by_cases hEmpty : parts = []
          · subst hEmpty
            rcases draws_beat_nil hFirst with ⟨hShown, hTally⟩
            rw [hTally] at hRest
            rw [if_pos rfl]
            exact List.rel_append hShown hRest
          · rcases draws_beat hEmpty hFirst with
              ⟨hShown, hTally⟩
            rw [hTally] at hRest
            rw [if_neg hEmpty, ← List.append_assoc]
            exact List.rel_append hShown hRest

end Pen

------------------------------------------------------------
-- Drawings of blocks
------------------------------------------------------------

/- A command moved down as far as its block is, if it is. -/
def shiftedBy
    (dy : Option K)
    (c : DrawCommand K) : DrawCommand K :=
  match dy with
  | none => c
  | some dy => c.moved (Coordinate.nat 0) dy

@[simp] theorem shiftedBy_none :
    (shiftedBy none : DrawCommand K → DrawCommand K) = id := rfl

/-
  The commands of a block draw its figures, before all are
  moved down together by what reaches above the top.
-/
theorem Block.layout_eq_ok
    {s : LayoutSettings K}
    {index : Int}
    {b : Block}
    {layout : BlockLayout K}
    (hLayout : b.layout s index = .ok layout) :
    ∃ endX drawn placed dy,
      layout = .finish s endX drawn ∧
        List.Forall₂ (Figure.Draws s) (b.figures index) placed ∧
        layout.commands = placed.map (shiftedBy dy) := by
  simp only [Block.layout, Outcome.bind_eq_ok,
    Outcome.pure_eq, Except.ok.injEq] at hLayout
  rcases hLayout with ⟨⟨drawn, p⟩, hDraw, rfl⟩
  let placed :=
    BlockLayout.lowestGuide s p.x ::
      (BlockLayout.upperGuides s p.x ++ drawn)
  have hDraws :
      List.Forall₂ (Figure.Draws s) (b.figures index)
        placed :=
    .cons ⟨p.x, _, rfl⟩
      (.cons ⟨p.x, _, rfl⟩
        (.cons ⟨p.x, _, rfl⟩ (Pen.draws_cues hDraw)))
  have hPlaced :
      ∃ dy,
        (BlockLayout.finish s p.x drawn).commands =
          placed.map (shiftedBy dy) := by
    simp only [BlockLayout.finish]
    split
    · exact ⟨some _, rfl⟩
    · refine ⟨none, ?_⟩
      simp [placed]
  rcases hPlaced with ⟨dy, hPlaced⟩
  exact ⟨p.x, drawn, placed, dy, rfl, hDraws, hPlaced⟩

end LyricScore
