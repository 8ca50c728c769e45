import LyricScore.Proofs.Drawing.Figure
import LyricScore.Proofs.Stream.Spelling

/-
  This file tells which commands the drawing of a block is made
  of, and in which order.  Apart from where they stand, the
  commands follow from the lyric stream of the block and from
  what its attacks take: item by item, with nothing in between.
  So no text of a subdivision is lost where pitches are missing.

  Key definitions include:
    * `DrawCommand.unplaced`
    * `Figure.mark`
    * `Figure.IsShownBy`
    * `Cue.shown`, `Cue.shownInTurn`
    * `Block.subdivisions`
    * `lyricTexts`

  Key theorems include:
    * `Figure.Draws.isShownBy`
    * `Cue.figures_eq`
    * `Block.lyrics_figures`
    * `Block.commands_follow_lyrics`
-/

namespace LyricScore

variable {K : Type} [Coordinate K]

------------------------------------------------------------
-- Commands without places
------------------------------------------------------------

namespace DrawCommand

/- A command of which it is not known where it stands. -/
def unplaced
    (c : DrawCommand K) : DrawCommand K :=
  { c with
    x := Coordinate.nat 0
    y := Coordinate.nat 0
    x2 := c.x2.map fun _ => Coordinate.nat 0
    y2 := c.y2.map fun _ => Coordinate.nat 0 }

/- A text in a font and a color. -/
def textMark
    (font color text : String) : DrawCommand K where
  primitive := .text
  x := Coordinate.nat 0
  y := Coordinate.nat 0
  text := some text
  font := some font
  color := some color

/- A line in a color. -/
def lineMark
    (color : String) : DrawCommand K where
  primitive := .line
  x := Coordinate.nat 0
  y := Coordinate.nat 0
  x2 := some (Coordinate.nat 0)
  y2 := some (Coordinate.nat 0)
  stroke := some color
  strokeWidth := some (Coordinate.nat 1)

/-
  Moving a command up or down does not change
  it apart from its place.
-/
theorem unplaced_shiftedBy
    (dy : Option K)
    (c : DrawCommand K) :
    (shiftedBy dy c).unplaced = c.unplaced := by
  cases dy with
  | none =>
      rfl
  | some dy =>
      simp [shiftedBy, moved, unplaced, Function.comp_def]

end DrawCommand

namespace Figure

/- The command that shows a figure, wherever it stands. -/
def mark
    (s : LayoutSettings K) : Figure → DrawCommand K
  | guide => .lineMark s.guideColor
  | tempo bpm =>
      .textMark s.tempoFont "black" ("T" ++ toString bpm)
  | barline => .lineMark s.barlineColor
  | lyric text => .textMark s.lyricFont "black" text
  | octave number =>
      .textMark s.octaveFont s.annotationColor
        ("G" ++ toString number)
  | letter v _ =>
      .textMark s.pitchFont (s.pitchColor v.accidental)
        v.tone.letter.name
  | circle key =>
    { primitive := .circle
      x := Coordinate.nat 0
      y := Coordinate.nat 0
      r := some s.counterRadius
      fill := some "none"
      stroke := some "none"
      attributes := Pen.beatAttributes "beat-circle" key }
  | counter key label =>
    { DrawCommand.textMark s.counterFont s.counterColor
        (toString label) with
      anchor := some "middle"
      attributes := Pen.beatAttributes "beat-counter" key }

/-
  A command shows a figure; a guide line
  lies, and a barline stands.
-/
structure IsShownBy
    (s : LayoutSettings K)
    (f : Figure)
    (c : DrawCommand K) : Prop where
  mark : c.unplaced = f.mark s
  lying : f = .guide → c.y2 = some c.y
  standing : f = .barline → c.x2 = some c.x

/-
  A figure is shown by the command that shows it, wherever
  that is moved.
-/
theorem IsShownBy.shifted
    {s : LayoutSettings K}
    {f : Figure}
    {c : DrawCommand K}
    (hShown : f.IsShownBy s c)
    (dy : Option K) :
    f.IsShownBy s (shiftedBy dy c) := by
  rcases hShown with ⟨hMark, hLying, hStanding⟩
  refine ⟨by rw [DrawCommand.unplaced_shiftedBy, hMark], ?_, ?_⟩
  · intro hGuide
    cases dy with
    | none =>
        exact hLying hGuide
    | some dy =>
        simp [shiftedBy, DrawCommand.moved, hLying hGuide]
  · intro hBarline
    cases dy with
    | none =>
        exact hStanding hBarline
    | some dy =>
        simp [shiftedBy, DrawCommand.moved, hStanding hBarline]

/-
  What draws a figure shows it, and says its
  number as it is written.
-/
theorem Draws.isShownBy
    {s : LayoutSettings K}
    {f : Figure}
    {c : DrawCommand K}
    (hDraws : f.Draws s c) :
    f.IsShownBy s c := by
  cases f with
  | guide =>
      rcases hDraws with ⟨endX, octaves, rfl⟩
      exact ⟨rfl, fun _ => rfl, nofun⟩
  | tempo bpm =>
      rcases hDraws with ⟨x, text, hText, rfl⟩
      rw [Pen.eq_append_of_label hText]
      exact ⟨rfl, nofun, nofun⟩
  | barline =>
      rcases hDraws with ⟨p, rfl⟩
      exact ⟨rfl, nofun, fun _ => rfl⟩
  | lyric text =>
      rcases hDraws with ⟨x, rfl⟩
      exact ⟨rfl, nofun, nofun⟩
  | octave number =>
      rcases hDraws with ⟨x, text, hText, rfl⟩
      rw [Pen.eq_append_of_label hText]
      exact ⟨rfl, nofun, nofun⟩
  | letter v reference =>
      rcases hDraws with ⟨x, y, -, rfl⟩
      exact ⟨rfl, nofun, nofun⟩
  | circle key =>
      rcases hDraws with ⟨x, rfl⟩
      exact ⟨rfl, nofun, nofun⟩
  | counter key label =>
      rcases hDraws with ⟨x, text, hText, rfl⟩
      rw [Pen.eq_append_of_label hText, String.empty_append]
      exact ⟨rfl, nofun, nofun⟩

end Figure

------------------------------------------------------------
-- Items of the lyric stream
------------------------------------------------------------

/- The tally behind an item. -/
def Tally.pass
    (t : Tally) : Cue Attack → Tally
  | .directive d => t.follow d
  | .barline _ => { t with counter := 1 }
  | .beat b slots =>
    let t := b.directives.foldl Tally.follow t
    if slots = [] then t
    else ⟨t.counter + b.units, t.beat + 1⟩

/-
  What a subdivision shows: its text, and if it is an attack
  the octaves on the way to what it takes and a letter for each
  voice of that.
-/
def Slot.shown
    (slot : Slot Attack) : List Figure :=
  .lyric slot.subdivision.displayText ::
    if slot.subdivision.IsAttack then
      slot.content.delivery.handed.filterMap
          Directive.octaveFigure? ++
        slot.content.voices.map fun v =>
          .letter v slot.content.referenceOctave
    else []

namespace Cue

/-
  What an item shows: a directive its tempo, a barline itself,
  a beat its tempos, its subdivisions, and if it has any a
  circle and a number.
-/
def shown
    (block : Int)
    (t : Tally) : Cue Attack → List Figure
  | .directive d => d.figures
  | .barline _ => [.barline]
  | .beat b slots =>
    let t := b.directives.foldl Tally.follow t
    b.directives.flatMap Directive.figures ++
      slots.flatMap Slot.shown ++
      if slots = [] then []
      else
        [.circle ⟨block, t.beat⟩,
          .counter ⟨block, t.beat⟩ t.counter]

/- What items show, one after the other. -/
def shownInTurn
    (block : Int)
    (t : Tally) : List (Cue Attack) → List Figure
  | [] => []
  | cue :: rest =>
      cue.shown block t ++
        shownInTurn block (t.pass cue) rest

end Cue

/-
  A subdivision that received nothing and sounds nothing
  shows its text alone.
-/
theorem Slot.figures_eq
    {slot : Slot Attack}
    (hHolds :
      ¬ slot.subdivision.IsAttack →
        slot.content.delivery = {} ∧ slot.content.voices = []) :
    slot.figures = slot.shown := by
  unfold Slot.figures Slot.shown
  by_cases hAttack : slot.subdivision.IsAttack
  · rw [if_pos hAttack]
  · rcases hHolds hAttack with ⟨hDelivery, hVoices⟩
    rw [if_neg hAttack, hDelivery, hVoices]
    rfl

/-
  The figures of cues are those of their items, one
  after the other.  Both thread the same tally; only
  slots are shown otherwise.
-/
theorem Cue.figures_eq
    (block : Int)
    (t : Tally)
    {cues : List (Cue Attack)}
    (hHolds :
      ∀ cue ∈ cues,
        ∀ slot ∈ cue.slots,
          ¬ slot.subdivision.IsAttack →
            slot.content.delivery = {} ∧
              slot.content.voices = []) :
    Cue.figures block t cues =
      Cue.shownInTurn block t cues := by
  induction cues generalizing t with
  | nil =>
      rfl
  | cons cue cues ih =>
      rcases List.forall_mem_cons.mp hHolds with ⟨hHere, hRest⟩
      cases cue with
      | directive d =>
          rw [Cue.figures, Cue.shownInTurn, ih _ hRest,
            Cue.shown, Tally.pass]
      | barline measure =>
          rw [Cue.figures, Cue.shownInTurn, ih _ hRest,
            Cue.shown, Tally.pass]
          rfl
      | beat b slots =>
          have hSlots :
              slots.flatMap Slot.figures =
                slots.flatMap Slot.shown :=
            List.flatMap_congr fun slot hSlot =>
              Slot.figures_eq (hHere slot hSlot)
          rw [Cue.figures, Cue.shownInTurn, Cue.shown,
            Tally.pass]
          by_cases hEmpty : slots = []
          · simp [hEmpty, ih _ hRest]
          · simp [hEmpty, ih _ hRest, Beat.figures, hSlots]

------------------------------------------------------------
-- Texts of subdivisions
------------------------------------------------------------

/- The subdivisions of a block, in the order of its lyrics. -/
def Block.subdivisions
    (b : Block) : List Subdivision :=
  b.lyricLines.flatMap fun l =>
    l.measures.flatMap fun m =>
      m.beats.flatMap Beat.subdivisions

/- The text of a subdivision that is shown. -/
def Figure.lyric? : Figure → Option String
  | lyric text => some text
  | _ => none

/-
  The texts at the places of subdivisions, where `figures`
  tells what commands show.
-/
def lyricTexts
    (figures : List Figure)
    (commands : List (DrawCommand K)) : List (Option String) :=
  (figures.zip commands).filterMap fun shown =>
    shown.1.lyric?.map fun _ => shown.2.text

/-
  The lyric texts among the commands are
  those of the figures.
-/
theorem lyricTexts_eq
    {s : LayoutSettings K}
    {figures : List Figure}
    {commands : List (DrawCommand K)}
    (hShown :
      List.Forall₂ (Figure.IsShownBy s) figures commands) :
    lyricTexts figures commands =
      (figures.filterMap Figure.lyric?).map some := by
  induction hShown with
  | nil =>
      rfl
  | @cons f c figures commands hHere _ ih =>
      cases f with
      | lyric text =>
          have hText : c.text = some text :=
            congrArg DrawCommand.text hHere.mark
          calc
            lyricTexts (.lyric text :: figures) (c :: commands)
              = c.text :: lyricTexts figures commands := rfl
            _ =
              ((Figure.lyric text :: figures).filterMap
                Figure.lyric?).map some := by
              rw [hText, ih]
              rfl
      | _ =>
          exact ih

/-
  The items of a measure have the subdivisions of its beats.
-/
theorem LyricMeasure.subdivisions_items
    (m : LyricMeasure)
    (index : Nat) :
    (m.items index).flatMap LyricItem.subdivisions =
      m.beats.flatMap Beat.subdivisions := by
  rw [LyricMeasure.items, List.flatMap_append, List.flatMap_map]
  split <;> simp [LyricItem.subdivisions]

/-
  The lyric stream holds the subdivisions
  of its lines, in order.
-/
theorem Block.subdivisions_lyricStream
    (b : Block) :
    b.lyricStream.flatMap LyricItem.subdivisions =
      b.subdivisions := by
  rw [Block.lyricStream, Block.subdivisions, List.flatMap_assoc]
  apply List.flatMap_congr
  intro l _
  have hDirectives :
      (l.directives.map LyricItem.directive).flatMap
          LyricItem.subdivisions =
        [] := by
    simp [List.flatMap_map, LyricItem.subdivisions]
  rw [LyricLine.items, List.flatMap_append, hDirectives,
    List.nil_append, List.flatMap_assoc]
  calc
    l.measures.zipIdx.flatMap (fun p =>
        (p.1.items p.2).flatMap LyricItem.subdivisions) =
      (l.measures.zipIdx.map Prod.fst).flatMap (fun m =>
        m.beats.flatMap Beat.subdivisions) := by
        rw [List.flatMap_map]
        exact List.flatMap_congr fun p _ =>
          p.1.subdivisions_items p.2
    _ =
      l.measures.flatMap (fun m =>
        m.beats.flatMap Beat.subdivisions) := by
        rw [List.zipIdx_map_fst]

/-
  A slot shows the text of its
  subdivision, and no other lyric.
-/
theorem lyrics_slot
    (slot : Slot Attack) :
    slot.shown.filterMap Figure.lyric? =
      [slot.subdivision.displayText] := by
  have hOctaves :
      (slot.content.delivery.handed.filterMap
          Directive.octaveFigure?).filterMap Figure.lyric? =
        [] :=
    Directive.filterMap_octaveFigures (fun _ => rfl) _
  have hText :
      (Figure.lyric slot.subdivision.displayText).lyric? =
        some _ :=
    rfl
  rw [Slot.shown, List.filterMap_cons_some hText]
  split
  · rw [List.filterMap_append, hOctaves, List.filterMap_map]
    simp [Function.comp_def, Figure.lyric?]
  · rfl

/- An item shows the texts of its slots, one each. -/
theorem lyrics_cue
    (block : Int)
    (t : Tally)
    (cue : Cue Attack) :
    (cue.shown block t).filterMap Figure.lyric? =
      cue.slots.map fun slot =>
        slot.subdivision.displayText := by
  cases cue with
  | directive d =>
      exact d.filterMap_figures fun _ => rfl
  | barline measure =>
      rfl
  | beat b slots =>
      have hDirectives :
          (b.directives.flatMap Directive.figures).filterMap
              Figure.lyric? =
            [] :=
        Directive.filterMap_flatMap_figures (fun _ => rfl)
          b.directives
      have hSlots :
          (slots.flatMap Slot.shown).filterMap
              Figure.lyric? =
            slots.map fun slot =>
              slot.subdivision.displayText := by
        rw [List.filterMap_flatMap]
        simp only [lyrics_slot]
        exact List.flatMap_pure_eq_map _ slots
      rw [Cue.shown, List.filterMap_append,
        List.filterMap_append, hDirectives, hSlots]
      by_cases hEmpty : slots = []
      · simp [hEmpty, Cue.slots]
      · simp [hEmpty, Cue.slots, Figure.lyric?]

/-
  The lyrics that cues show are the texts of their
  subdivisions, in order.
-/
theorem lyrics_shownInTurn
    (block : Int)
    (t : Tally)
    (cues : List (Cue Attack)) :
    (Cue.shownInTurn block t cues).filterMap Figure.lyric? =
      cues.flatMap fun cue =>
        cue.slots.map fun slot =>
          slot.subdivision.displayText := by
  induction cues generalizing t with
  | nil =>
      rfl
  | cons cue cues ih =>
      rw [Cue.shownInTurn, List.filterMap_append,
        lyrics_cue, ih, List.flatMap_cons]

------------------------------------------------------------
-- Blocks
------------------------------------------------------------

namespace Block

variable {b : Block}

/-
  A subdivision that is no attack receives nothing and
  sounds nothing.
-/
theorem nothing_of_not_isAttack
    {cue : Cue Attack}
    (hCue : cue ∈ b.voices)
    {slot : Slot Attack}
    (hSlot : slot ∈ cue.slots)
    (hHolds : ¬ slot.subdivision.IsAttack) :
    slot.content.delivery = {} ∧ slot.content.voices = [] := by
  refine ⟨?_, b.voices_of_not_isAttack hCue hSlot hHolds⟩
  rcases Voicing.exists_of_mem_cues hCue hSlot with
    ⟨other, hOther, r, hReceived, w, rfl⟩
  rw [Voicing.delivery_attack]
  exact (PitchStream.slots_of_mem_cues _ _ hOther).2 r
    hReceived hHolds

/-
  The voices of an attack have the letters of what it took.
-/
theorem letters_of_mem_voices
    {cue : Cue Attack}
    (hCue : cue ∈ b.voices)
    {slot : Slot Attack}
    (hSlot : slot ∈ cue.slots) :
    slot.content.voices.map (fun v => v.tone.letter) =
      slot.content.delivery.letters := by
  rcases Voicing.exists_of_mem_cues hCue hSlot with
    ⟨other, -, r, -, w, rfl⟩
  rw [Voicing.delivery_attack]
  exact w.letters_attack r.content

/-
  A block starts with three guide lines, and then shows its
  cues in turn.
-/
theorem figures_eq
    (b : Block)
    (index : Int) :
    b.figures index =
      [.guide, .guide, .guide] ++
        Cue.shownInTurn index {} b.voices := by
  rw [Block.figures]
  congr 1
  exact Cue.figures_eq index {} fun cue hCue slot hSlot =>
    nothing_of_not_isAttack hCue hSlot

/-
  The texts that a block shows are those of its
  subdivisions, each once.
-/
theorem lyrics_figures
    (b : Block)
    (index : Int) :
    (b.figures index).filterMap Figure.lyric? =
      b.subdivisions.map Subdivision.displayText := by
  have hGuides :
      ([.guide, .guide, .guide] : List Figure).filterMap
          Figure.lyric? =
        [] :=
    rfl
  calc
    (b.figures index).filterMap Figure.lyric? =
      b.voices.flatMap (fun cue =>
        cue.slots.map fun slot =>
          slot.subdivision.displayText) := by
        rw [figures_eq, List.filterMap_append, hGuides,
          List.nil_append, lyrics_shownInTurn]
    _ =
      b.voices.flatMap (fun cue =>
        cue.item.subdivisions.map
          Subdivision.displayText) := by
        apply List.flatMap_congr
        intro cue hCue
        rw [← b.subdivisions_of_mem_voices hCue, List.map_map]
        rfl
    _ =
      ((b.voices.map Cue.item).flatMap
        LyricItem.subdivisions).map
          Subdivision.displayText := by
        rw [List.flatMap_map, List.map_flatMap]
    _ = b.subdivisions.map Subdivision.displayText := by
        rw [map_item_voices, subdivisions_lyricStream]

/-
  The commands of a block, apart from where they stand.  Three
  guide lines come first, which lie.  Then each item of the
  lyric stream shows what belongs to it, in order: a directive
  its tempo, a barline a standing line, and a beat its tempos,
  its subdivisions, and a circle and a number if it has any.
  A subdivision shows its text, and if it is an attack the
  octaves that it was handed and one letter for each pitch that
  it took, if it took any.  Nothing else is drawn, so the texts
  are those of all subdivisions, each once and in order,
  whatever the pitches are.
-/
theorem commands_follow_lyrics
    {s : LayoutSettings K}
    {index : Int}
    {layout : BlockLayout K}
    (hLayout : b.layout s index = .ok layout) :
    layout.commands.map DrawCommand.unplaced =
        (b.figures index).map (Figure.mark s) ∧
      b.figures index =
        [.guide, .guide, .guide] ++
          Cue.shownInTurn index {} b.voices ∧
      b.voices.map Cue.item = b.lyricStream ∧
      b.voices.map (Cue.map Attack.delivery) =
        PitchStream.cues b.pitchStream b.lyricStream ∧
      (∀ cue ∈ b.voices,
        cue.slots.map Slot.subdivision =
            cue.item.subdivisions ∧
          ∀ slot ∈ cue.slots,
            slot.content.voices.map
                (fun v => v.tone.letter) =
              slot.content.delivery.letters) ∧
      List.Forall₂ (Figure.IsShownBy s) (b.figures index)
        layout.commands ∧
      lyricTexts (b.figures index) layout.commands =
        b.subdivisions.map fun sub =>
          some sub.displayText := by
  rcases Block.layout_eq_ok hLayout with
    ⟨endX, drawn, placed, dy, -, hDraws, hPlaced⟩
  have hShown :
      List.Forall₂ (Figure.IsShownBy s) (b.figures index)
        layout.commands := by
    rw [hPlaced, List.forall₂_map_right_iff]
    exact hDraws.imp fun f c hDraw => hDraw.isShownBy.shifted dy
  refine ⟨?_, b.figures_eq index, b.map_item_voices,
    Voicing.map_delivery_cues {} b.cues, ?_, hShown, ?_⟩
  · rw [eq_comm, ← List.forall₂_eq_eq_eq,
      List.forall₂_map_left_iff, List.forall₂_map_right_iff]
    exact hShown.imp fun f c hHere => hHere.mark.symm
  · intro cue hCue
    exact ⟨b.subdivisions_of_mem_voices hCue,
      fun slot hSlot => b.letters_of_mem_voices hCue hSlot⟩
  · rw [lyricTexts_eq hShown, b.lyrics_figures index,
      List.map_map]
    rfl

/-
  A block with more attacks than pitches and a tone above the
  top: a tempo before the beats and one in a beat without
  subdivisions, an octave before a chord, a hyphen and a blank.
-/
def sparse : Block where
  lyricLines := [
    { directives := [⟨.tempo 90, {}⟩]
      measures := [
        { beats := [
            { elements := [
                .subdivision ⟨.syllable, "la", {}⟩,
                .subdivision ⟨.hyphen, "-", {}⟩] },
            { elements := [.directive ⟨.tempo 60, {}⟩] },
            { elements := [
                .subdivision ⟨.syllable, "lu", {}⟩] }]
          barline := true },
        { beats := [
            { elements := [
                .subdivision ⟨.blank, "_", {}⟩] }] }] }]
  pitchLines := [
    { measures := [
        { elements := [
            .directive ⟨.referenceOctave 5, {}⟩,
            .chord {
              pitches := [
                { letter := .c, shift := 3 },
                { letter := .e, accidental := some .flat }] }] }] }]

/- What it shows, in order, and the lyrics among that. -/
theorem sparse_commands_follow_lyrics :
    ∃ layout : BlockLayout Rat,
      sparse.layout .default 0 = .ok layout ∧
        layout.commands.map DrawCommand.text =
          [none, none, none, some "T90", some "la",
            some "G5", some "c", some "e", some "-", none,
            some "1", some "T60", some "lu", none, some "2",
            none, some "", none, some "1"] ∧
        lyricTexts (sparse.figures 0) layout.commands =
          [some "la", some "-", some "lu", some ""] := by
  have hOk :
      (sparse.layout (.default : LayoutSettings Rat)
          0).isOk =
        true := by
    decide +kernel
  rcases Outcome.exists_eq_ok hOk with ⟨layout, hLayout⟩
  rcases commands_follow_lyrics hLayout with
    ⟨hCommands, -, -, -, -, -, hTexts⟩
  have hShown := congrArg (List.map DrawCommand.text) hCommands
  rw [List.map_map, List.map_map] at hShown
  refine ⟨layout, hLayout, hShown.trans ?_, hTexts.trans ?_⟩
  · decide +kernel
  · decide +kernel

end Block

end LyricScore
