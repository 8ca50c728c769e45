import LyricScore.Proofs.Drawing.Figure
import LyricScore.Proofs.Drawing.Walk
import LyricScore.Proofs.Performance.PianoRoll
import LyricScore.Proofs.Performance.Walk

/-
  This file shows that what is drawn for a block is what is
  played for it: both are the voices of the block, one letter
  and one struck note each, in the same order.  It holds of
  the one-pass walks as well, in which drawing and playing
  keep streams, keys and melodies of their own.

  Key definitions include:
    * `Block.resolvedVoices`
    * `glyphs`
    * `ShowsLetter`
    * `Passage.struck`

  Key theorems include:
    * `Block.letters_figures`
    * `Block.voices_moments`
    * `Performance.Renders.struck_of_mem`
    * `Score.draws_what_it_plays`
-/

namespace LyricScore

variable {K : Type} [Coordinate K]

------------------------------------------------------------
-- Resolved voices
------------------------------------------------------------

/-
  Every voice of a block: letter, octave and the accidental
  that applies.
-/
def Block.resolvedVoices
    (b : Block) : List Voice :=
  b.voices.flatMap fun cue =>
    cue.slots.flatMap fun slot => slot.content.voices

------------------------------------------------------------
-- Letters that are drawn
------------------------------------------------------------

/-
  The commands that draw letters, where `figures` tells what
  commands draw.
-/
def glyphs
    (figures : List Figure)
    (commands : List (DrawCommand K)) : List (DrawCommand K) :=
  (figures.zip commands).filterMap fun (f, c) =>
    f.letter?.map fun _ => c

/-
  A command shows the letter of a voice: its color tells the
  accidental, and it stands at the height of the voice, moved
  down with the rest of the block.
-/
structure ShowsLetter
    (s : LayoutSettings K)
    (dy : Option K)
    (shown : Voice × Int)
    (c : DrawCommand K) : Prop where
  primitive : c.primitive = .text
  text : c.text = some shown.1.tone.letter.name
  font : c.font = some s.pitchFont
  color : c.color = some (s.pitchColor shown.1.accidental)
  height :
    ∃ y,
      pitchHeight s.centerLine shown.1.tone.octave
            shown.1.tone.letter.name shown.1.accidental
            shown.2 s.staffLineSpacing =
          .ok y ∧
        c.y = (dy.map (y + ·)).getD y

/-
  The letters among drawn figures are shown by the glyphs
  among the commands.
-/
theorem forall₂_glyphs
    {s : LayoutSettings K}
    {figures : List Figure}
    {commands : List (DrawCommand K)}
    (hDraws : List.Forall₂ (Figure.Draws s) figures commands) :
    List.Forall₂ (ShowsLetter s none)
      (figures.filterMap Figure.letter?)
      (glyphs figures commands) := by
  induction hDraws with
  | nil =>
      exact .nil
  | @cons f c figures commands hDraw _ ih =>
      cases f with
      | letter v reference =>
          rcases hDraw with ⟨x, y, hHeight, rfl⟩
          exact .cons ⟨rfl, rfl, rfl, rfl, y, hHeight, rfl⟩ ih
      | _ =>
          exact ih

omit [Coordinate K] in
theorem glyphs_map
    (move : DrawCommand K → DrawCommand K)
    (figures : List Figure)
    (commands : List (DrawCommand K)) :
    glyphs figures (commands.map move) =
      (glyphs figures commands).map move := by
  rw [glyphs, glyphs, List.zip_map_right,
    List.filterMap_map, List.map_filterMap]
  congr 1
  funext shown
  cases hLetter : shown.1.letter? <;> simp [hLetter]

/- A letter that is moved down still shows its voice. -/
theorem ShowsLetter.shifted
    {s : LayoutSettings K}
    {shown : Voice × Int}
    {c : DrawCommand K}
    (hShows : ShowsLetter s none shown c)
    (dy : Option K) :
    ShowsLetter s dy shown (shiftedBy dy c) := by
  cases dy with
  | none =>
      exact hShows
  | some dy =>
      rcases hShows with
        ⟨hPrimitive, hText, hFont, hColor, y, hHeight,
          hPlace⟩
      refine ⟨hPrimitive, hText, hFont, hColor, y, hHeight, ?_⟩
      have hMoved : (shiftedBy (some dy) c).y = c.y + dy := rfl
      rw [hMoved, hPlace]
      rfl

theorem letters_directive
    (d : Directive) :
    d.figures.filterMap Figure.letter? = [] :=
  d.filterMap_figures fun _ => rfl

theorem letters_directives
    (ds : List Directive) :
    (ds.flatMap Directive.figures).filterMap
        Figure.letter? =
      [] :=
  Directive.filterMap_flatMap_figures (fun _ => rfl) ds

theorem letters_octaves
    (ds : List Directive) :
    (ds.filterMap Directive.octaveFigure?).filterMap
        Figure.letter? =
      [] :=
  Directive.filterMap_octaveFigures (fun _ => rfl) ds

/- A subdivision shows the letters of its voices. -/
theorem letters_slot
    (slot : Slot Attack) :
    (slot.figures.filterMap Figure.letter?).map Prod.fst =
      slot.content.voices := by
  rw [Slot.figures, List.filterMap_cons_none rfl,
    List.filterMap_append, letters_octaves,
    List.filterMap_map]
  simp [Function.comp_def, Figure.letter?]

/- Slots draw the letters of their voices, in order. -/
theorem letters_slots
    (slots : List (Slot Attack)) :
    ((slots.flatMap Slot.figures).filterMap
        Figure.letter?).map Prod.fst =
      slots.flatMap fun slot => slot.content.voices := by
  rw [List.filterMap_flatMap, List.map_flatMap]
  simp only [letters_slot]

/- Cues draw the letters of their voices, in order. -/
theorem letters_cues
    (block : Int)
    (t : Tally)
    (cues : List (Cue Attack)) :
    ((Cue.figures block t cues).filterMap
        Figure.letter?).map Prod.fst =
      cues.flatMap fun cue =>
        cue.slots.flatMap fun slot =>
          slot.content.voices := by
  induction cues generalizing t with
  | nil =>
      rfl
  | cons cue cues ih =>
      cases cue with
      | directive d =>
          rw [Cue.figures, List.filterMap_append,
            letters_directive, List.nil_append, ih]
          rfl
      | barline measure =>
          exact ih _
      | beat b slots =>
          rw [Cue.figures, List.filterMap_append,
            letters_directives, List.nil_append]
          by_cases hEmpty : slots = []
          · subst hEmpty
            rw [if_pos rfl, ih]
            rfl
          · have hCounter :
                ([.circle
                      ⟨block,
                        (b.directives.foldl Tally.follow
                          t).beat⟩,
                    .counter
                      ⟨block,
                        (b.directives.foldl Tally.follow
                          t).beat⟩
                      (b.directives.foldl Tally.follow
                        t).counter] :
                    List Figure).filterMap Figure.letter? =
                  [] :=
              rfl
            rw [if_neg hEmpty, Beat.figures,
              List.filterMap_append, List.filterMap_append,
              hCounter, List.append_nil, List.map_append,
              letters_slots, ih]
            rfl

/- The letters of a block are its voices, in order. -/
theorem Block.letters_figures
    (b : Block)
    (index : Int) :
    ((b.figures index).filterMap Figure.letter?).map
        Prod.fst =
      b.resolvedVoices :=
  letters_cues index {} b.voices

------------------------------------------------------------
-- Notes that are struck
------------------------------------------------------------

/- The voice that is struck. -/
def Act.voice? : Act → Option Voice
  | .strike v _ => some v
  | _ => none

/- The events that strike notes. -/
def Passage.struck
    (p : Passage) : List MidiEvent :=
  p.emissions.filterMap fun e =>
    e.action.act.voice?.map fun _ => e.own

/-
  A player strikes the voices of a moment,
  each once and in order.
-/
theorem Player.voices_moment
    {ticksPerQuarter : Int}
    {p q : Player}
    {m : Moment}
    {done : List Action}
    (hMoment : p.moment ticksPerQuarter m = .ok (done, q)) :
    done.filterMap (fun a => a.act.voice?) = m.voices := by
  cases m with
  | directive d =>
      simp only [Player.moment, Except.ok.injEq] at hMoment
      rcases frame_followLyrics hMoment with ⟨-, hHeard⟩
      apply List.filterMap_eq_nil_iff.mpr
      intro a hAction
      rcases hHeard a hAction with ⟨tempo, rfl⟩
      rfl
  | barline measure =>
      simp only [Player.moment, Except.ok.injEq,
        Prod.mk.injEq] at hMoment
      rcases hMoment with ⟨rfl, -⟩
      rfl
  | part part =>
      simp only [Player.moment, Outcome.bind_eq_ok,
        Outcome.pure_eq, Except.ok.injEq,
        Prod.mk.injEq] at hMoment
      rcases hMoment with
        ⟨ticks, -, ⟨sounded, r⟩, hSound, rfl, -⟩
      have hReleases :
          (p.sounding.map fun note =>
              p.act (.release note)).filterMap (fun a =>
              a.act.voice?) =
            [] := by
        simp [Player.act, Act.voice?]
      rcases sound_eq_ok hSound with
        ⟨hAttack, hDone⟩ | ⟨hNoAttack, -, rfl, -⟩ |
          ⟨hHyphen, rfl, -⟩
      · rcases attack_eq_ok hDone with ⟨rfl, -⟩
        simp [Moment.voices, hAttack, Player.act, Act.voice?]
      · rw [hReleases]
        simp [Moment.voices, hNoAttack]
      · simp [Moment.voices, Subdivision.IsAttack, hHyphen]

/- The parts of a beat have the voices of its slots. -/
theorem voices_parts
    (b : Beat)
    (key : BeatKey)
    (count first : Nat)
    (slots : List (Slot Attack))
    (hSilent :
      ∀ slot ∈ slots,
        ¬ slot.subdivision.IsAttack →
          slot.content.voices = []) :
    (b.parts key count first slots).flatMap Moment.voices =
      slots.flatMap fun slot => slot.content.voices := by
  induction slots generalizing first with
  | nil =>
      rfl
  | cons slot slots ih =>
      have hFirst :
          (Moment.part
              ⟨key, first, count, b, slot⟩).voices =
            slot.content.voices := by
        by_cases hAttack : slot.subdivision.IsAttack
        · simp [Moment.voices, hAttack]
        · simp [Moment.voices, hAttack,
            hSilent slot List.mem_cons_self hAttack]
      rw [Beat.parts_cons, List.flatMap_cons,
        List.flatMap_cons, hFirst,
        ih _ fun other hMember =>
          hSilent other (List.mem_cons_of_mem _ hMember)]

/- The moments of cues have the voices of their slots. -/
theorem voices_cues
    (block : Int)
    (index : Nat)
    (cues : List (Cue Attack))
    (hSilent :
      ∀ cue ∈ cues,
        ∀ slot ∈ cue.slots,
          ¬ slot.subdivision.IsAttack →
            slot.content.voices = []) :
    (Cue.moments block index cues).flatMap Moment.voices =
      cues.flatMap fun cue =>
        cue.slots.flatMap fun slot =>
          slot.content.voices := by
  induction cues generalizing index with
  | nil =>
      rfl
  | cons cue cues ih =>
      have hRest :=
        fun other hMember =>
          hSilent other (List.mem_cons_of_mem cue hMember)
      cases cue with
      | directive d =>
          exact ih index hRest
      | barline measure =>
          exact ih index hRest
      | beat b slots =>
          have hDirectives :
              (b.directives.map Moment.directive).flatMap
                  Moment.voices =
                [] := by
            simp [List.flatMap_map, Moment.voices]
          have hSlots :
              ∀ slot ∈ slots,
                ¬ slot.subdivision.IsAttack →
                  slot.content.voices = [] :=
            hSilent (.beat b slots) List.mem_cons_self
          rw [Cue.moments, List.flatMap_append,
            List.flatMap_append, hDirectives,
            voices_parts _ _ _ _ _ hSlots, ih _ hRest]
          rfl

/-
  The voices at the moments of a block are
  its voices, in order.
-/
theorem Block.voices_moments
    (b : Block)
    (block : Int) :
    (b.moments block).flatMap Moment.voices =
      b.resolvedVoices :=
  voices_cues block 0 b.voices fun _ hCue _ hSlot =>
    Block.voices_of_not_isAttack hCue hSlot

namespace Performance

variable {settings : AudioSettings}
variable {s : Score}
variable {perf : Performance}
variable {done : List (Moment × List Action)}
variable {last : Player}

/- The event of a struck voice is that of its nearest note. -/
theorem Renders.own_of_strike
    (hRenders : perf.Renders settings s done last)
    {e : Emission}
    (hEmission : e ∈ perf.emissions)
    {v : Voice}
    (hVoice : e.action.act.voice? = some v) :
    e.own.kind = .noteOn ∧
      e.own.param1 =
        some (clamp 0 127 v.midiNumber).toNat := by
  rcases hRenders.schedule with ⟨t, hSchedule⟩
  rcases Schedule.exists_emission_of_mem hSchedule
      hEmission with
    ⟨u, w, hOne⟩
  rcases Schedule.emission_eq_ok hOne with ⟨-, -, -, hOwn, -⟩
  cases hAct : e.action.act with
  | strike voice velocity =>
      rw [hAct] at hVoice hOwn
      cases hVoice
      rcases MidiEvent.noteOn_eq_ok hOwn with ⟨-, hEvent⟩
      rw [hEvent]
      exact ⟨rfl, rfl⟩
  | _ =>
      rw [hAct] at hVoice
      cases hVoice

/- At each moment its voices are struck, one note each. -/
theorem Renders.struck_of_mem
    (hRenders : perf.Renders settings s done last)
    {passage : Passage}
    (hPassage : passage ∈ perf.passages) :
    passage.struck.map (fun e => (e.kind, e.param1)) =
      passage.moment.voices.map fun v =>
        (MidiKind.noteOn,
          some (clamp 0 127 v.midiNumber).toNat) := by
  have hVoices :=
    Player.forall_mem_moments
      (fun _ _ _ _ hMoment => Player.voices_moment hMoment)
      hRenders.run _ (hRenders.mem_done hPassage)
  rw [List.filterMap_map] at hVoices
  simp only at hVoices
  rw [← hVoices, Passage.struck, List.map_filterMap,
    List.map_filterMap]
  apply List.filterMap_congr
  intro e hMember
  have hEmission : e ∈ perf.emissions := by
    simp only [emissions, List.mem_append, List.mem_flatMap]
    exact Or.inl (Or.inr ⟨passage, hPassage, hMember⟩)
  cases hVoice : e.action.act.voice? with
  | none =>
      simp [hVoice]
  | some v =>
      rcases hRenders.own_of_strike hEmission hVoice with
        ⟨hKind, hNote⟩
      simp [hVoice, hKind, hNote]

end Performance

------------------------------------------------------------
-- Blocks of a score
------------------------------------------------------------

/- Each block is laid out by itself, under its own index. -/
theorem layoutBlocks_eq_ok
    {ls : LayoutSettings K}
    {index : Nat}
    {bs : List Block}
    {layouts : List (BlockLayout K)}
    (hLayouts : layoutBlocks ls index bs = .ok layouts) :
    layouts.length = bs.length ∧
      ∀ (i : Nat) (b : Block) (layout : BlockLayout K),
        bs[i]? = some b →
          layouts[i]? = some layout →
          b.layout ls ((index + i : Nat) : Int) =
            .ok layout := by
  induction bs generalizing index layouts with
  | nil =>
      simp only [layoutBlocks, Except.ok.injEq] at hLayouts
      subst hLayouts
      simp
  | cons first bs ih =>
      simp only [layoutBlocks, Outcome.bind_eq_ok,
        Outcome.pure_eq, Except.ok.injEq] at hLayouts
      rcases hLayouts with ⟨drawn, hFirst, more, hMore, rfl⟩
      rcases ih hMore with ⟨hLength, hEach⟩
      refine ⟨by simp [hLength], ?_⟩
      intro i b layout hBlock hLayout
      cases i with
      | zero =>
          cases hBlock
          cases hLayout
          exact hFirst
      | succ i =>
          have hLater := hEach i b layout hBlock hLayout
          have hIndex :
              index + (i + 1) = index + 1 + i := by
            omega
          rw [hIndex]
          exact hLater

theorem blockMoments_append
    (index : Nat)
    (bs more : List Block) :
    blockMoments index (bs ++ more) =
      blockMoments index bs ++
        blockMoments (index + bs.length) more := by
  induction bs generalizing index with
  | nil =>
      rfl
  | cons b bs ih =>
      have hIndex :
          index + 1 + bs.length =
            index + (bs.length + 1) := by
        omega
      rw [List.cons_append, blockMoments, blockMoments, ih,
        List.append_assoc, hIndex, List.length_cons]

/- The moments of a score before, in and behind a block. -/
theorem Score.moments_split
    {s : Score}
    {i : Nat}
    {b : Block}
    (hBlock : s.blocks[i]? = some b) :
    s.moments =
      blockMoments 0 (s.blocks.take i) ++ b.moments i ++
        blockMoments (i + 1) (s.blocks.drop (i + 1)) := by
  rcases List.getElem?_eq_some_iff.mp hBlock with
    ⟨hIndex, hHere⟩
  have hSplit :
      s.blocks =
        s.blocks.take i ++ b :: s.blocks.drop (i + 1) := by
    rw [← hHere, List.cons_getElem_drop_succ,
      List.take_append_drop]
  have hLength : 0 + (s.blocks.take i).length = i := by
    rw [List.length_take]
    omega
  calc
    s.moments =
      blockMoments 0
        (s.blocks.take i ++
          b :: s.blocks.drop (i + 1)) := by
        rw [← hSplit, Score.moments]
    _ =
      blockMoments 0 (s.blocks.take i) ++
        (b.moments i ++
          blockMoments (i + 1)
            (s.blocks.drop (i + 1))) := by
        rw [blockMoments_append, hLength, blockMoments]
    _ = blockMoments 0 (s.blocks.take i) ++ b.moments i ++
          blockMoments (i + 1) (s.blocks.drop (i + 1)) := by
        rw [List.append_assoc]

/- The passages of a performance at a block. -/
theorem Performance.exists_passages_of_block
    {s : Score}
    {perf : Performance}
    (hMoments : perf.passages.map Passage.moment = s.moments)
    {i : Nat}
    {b : Block}
    (hBlock : s.blocks[i]? = some b) :
    ∃ before during after,
      perf.passages = before ++ during ++ after ∧
        before.map Passage.moment =
          blockMoments 0 (s.blocks.take i) ∧
        during.map Passage.moment = b.moments i ∧
        after.map Passage.moment =
          blockMoments (i + 1) (s.blocks.drop (i + 1)) := by
  rw [Score.moments_split hBlock] at hMoments
  rcases List.map_eq_append_iff.mp hMoments with
    ⟨through, after, hPassages, hThrough, hAfter⟩
  rcases List.map_eq_append_iff.mp hThrough with
    ⟨before, during, rfl, hBefore, hDuring⟩
  exact ⟨before, during, after, hPassages, hBefore, hDuring,
    hAfter⟩

------------------------------------------------------------
-- Drawing and playing
------------------------------------------------------------

/-
  What is drawn is what is played.  For each block of a score
  the commands that draw letters show the voices of the block,
  one each and in order, and so do the notes that are struck
  at its moments.  At each moment the struck notes are those
  of its own voices, which are the letters behind the text of
  its subdivision.  Drawing and playing in one pass, each with
  a stream, a key and a melody of its own, come to the same.
-/
theorem Score.draws_what_it_plays
    {ls : LayoutSettings K}
    {settings : AudioSettings}
    {s : Score}
    {drawing : ScoreLayout K}
    {events : List MidiEvent}
    (hDrawing : s.layout ls = .ok drawing)
    (hEvents : s.events settings = .ok events) :
    drawing.blocks.length = s.blocks.length ∧
      (∀ index b,
        DrawWalk.layout ls index b = b.layout ls index) ∧
      PlayWalk.actions settings s = s.actions settings ∧
      ∃ perf,
        s.performance settings = .ok perf ∧
          perf.events = events ∧
          ∀ (i : Nat) (b : Block) (layout : BlockLayout K),
            s.blocks[i]? = some b →
            drawing.blocks[i]? = some layout →
            (∃ placed dy,
              List.Forall₂ (Figure.Draws ls)
                  (b.figures i) placed ∧
                layout.commands = placed.map (shiftedBy dy) ∧
                ((b.figures i).filterMap
                    Figure.letter?).map Prod.fst =
                  b.resolvedVoices ∧
                List.Forall₂ (ShowsLetter ls dy)
                  ((b.figures i).filterMap Figure.letter?)
                  (glyphs (b.figures i) layout.commands)) ∧
            ∃ before during after,
              perf.passages = before ++ during ++ after ∧
                before.map Passage.moment =
                  blockMoments 0 (s.blocks.take i) ∧
                during.map Passage.moment = b.moments i ∧
                after.map Passage.moment =
                  blockMoments (i + 1)
                    (s.blocks.drop (i + 1)) ∧
                (∀ passage ∈ during,
                  passage.struck.map
                      (fun e => (e.kind, e.param1)) =
                    passage.moment.voices.map fun v =>
                      (MidiKind.noteOn,
                        some
                          (clamp 0 127
                            v.midiNumber).toNat)) ∧
                (during.flatMap Passage.struck).map
                    (fun e => (e.kind, e.param1)) =
                  b.resolvedVoices.map fun v =>
                    (MidiKind.noteOn,
                      some
                        (clamp 0 127
                          v.midiNumber).toNat) := by
  simp only [Score.layout, Outcome.bind_eq_ok,
    Outcome.pure_eq, Except.ok.injEq] at hDrawing
  rcases hDrawing with ⟨layouts, hLayouts, rfl⟩
  rcases layoutBlocks_eq_ok hLayouts with ⟨hLength, hEach⟩
  rcases Score.performance_of_events hEvents with
    ⟨perf, hPerformance, rfl⟩
  rcases Score.performance_eq_ok hPerformance with
    ⟨done, last, hRenders⟩
  refine ⟨hLength, DrawWalk.layout_eq ls,
    PlayWalk.actions_eq settings s, perf, hPerformance, rfl,
    ?_⟩
  intro i b layout hBlock hLayout
  constructor
  · have hDrawn := hEach i b layout hBlock hLayout
    rw [Nat.zero_add] at hDrawn
    rcases Block.layout_eq_ok hDrawn with
      ⟨endX, drawn, placed, dy, -, hDraws, hPlaced⟩
    refine
      ⟨placed, dy, hDraws, hPlaced, b.letters_figures i, ?_⟩
    rw [hPlaced, glyphs_map, List.forall₂_map_right_iff]
    exact (forall₂_glyphs hDraws).imp fun _ _ hShows =>
      hShows.shifted dy
  · rcases Performance.exists_passages_of_block
      hRenders.map_moment hBlock with
      ⟨before, during, after, hPassages, hBefore, hDuring,
        hAfter⟩
    have hStruck :
        ∀ passage ∈ during,
          passage.struck.map (fun e => (e.kind, e.param1)) =
            passage.moment.voices.map fun v =>
              (MidiKind.noteOn,
                some (clamp 0 127 v.midiNumber).toNat) := by
      intro passage hMember
      apply hRenders.struck_of_mem
      rw [hPassages]
      simp [hMember]
    refine ⟨before, during, after, hPassages, hBefore,
      hDuring, hAfter, hStruck, ?_⟩
    rw [← b.voices_moments i, ← hDuring, List.map_flatMap,
      List.map_flatMap, List.flatMap_map]
    exact List.flatMap_congr hStruck

/-
  It draws five letters and plays five notes, the high ones
  at the limit.
-/
theorem Score.heldOver_draws_what_it_plays :
    ∃ (drawing : ScoreLayout Rat) (events : List MidiEvent)
      (perf : Performance),
      heldOver.layout .default = .ok drawing ∧
        heldOver.events {} = .ok events ∧
        perf.events = events ∧
        ∀ (b : Block) (layout : BlockLayout Rat),
          heldOver.blocks[0]? = some b →
            drawing.blocks[0]? = some layout →
            (glyphs (b.figures 0) layout.commands).length =
                5 ∧
              ∃ during : List Passage,
                during.map Passage.moment = b.moments 0 ∧
                  (during.flatMap Passage.struck).map
                      MidiEvent.param1 =
                    [some 60, some 127, some 127, some 127,
                      some 60] := by
  have hDrawn :
      (heldOver.layout
          (.default : LayoutSettings Rat)).isOk =
        true := by
    decide +kernel
  have hPlayed : (heldOver.events {}).isOk = true := by
    decide +kernel
  rcases Outcome.exists_eq_ok hDrawn with ⟨drawing, hDrawing⟩
  rcases Outcome.exists_eq_ok hPlayed with ⟨events, hEvents⟩
  rcases Score.draws_what_it_plays hDrawing hEvents with
    ⟨-, -, -, perf, -, hSame, hBlocks⟩
  refine ⟨drawing, events, perf, hDrawing, hEvents, hSame, ?_⟩
  intro b layout hBlock hLayout
  rcases hBlocks 0 b layout hBlock hLayout with
    ⟨⟨placed, dy, -, -, hLetters, hGlyphs⟩, before, during,
      after, -, -, hDuring, -, -, hStruck⟩
  have hVoices :
      (b.resolvedVoices.map fun v =>
          some (clamp 0 127 v.midiNumber).toNat) =
        [some 60, some 127, some 127, some 127,
          some 60] := by
    cases hBlock
    decide +kernel
  constructor
  · have hCount := congrArg List.length hVoices
    rw [List.length_map, ← hLetters, List.length_map] at hCount
    exact hGlyphs.length_eq.symm.trans hCount
  · refine ⟨during, hDuring, ?_⟩
    have hNotes := congrArg (List.map Prod.snd) hStruck
    rw [List.map_map, List.map_map] at hNotes
    exact hNotes.trans hVoices

end LyricScore
