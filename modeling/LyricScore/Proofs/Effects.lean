import LyricScore.Proofs.Score.Selection

/-
  This file shows where directives act.  Drawing follows
  pickups and tempos of the lyric lines, and keys and octaves
  of the pitch lines; playing follows note values and tempos
  of the lyric lines, and keys, instruments and volumes of the
  pitch lines; and the beat map follows nothing but the note
  values of the lyric lines.  All other directives may be
  deleted.

  Key definitions include:
    * `Selection.Draws`, `Selection.Plays`
    * `Selection.acting`
    * `Score.beatsOnly`

  Key theorems include:
    * `Score.layout_select`
    * `Score.events_select`
    * `Score.timing_select`
    * `Score.directives_act_where_they_belong`
-/

namespace LyricScore

------------------------------------------------------------
-- Directives that act
------------------------------------------------------------

namespace Selection

/- The directives stay that drawing follows. -/
structure Draws
    (σ : Selection) : Prop where
  pickup : σ.lyrics .pickup = true
  tempo : σ.lyrics .tempo = true
  key : σ.pitches .key = true
  referenceOctave : σ.pitches .referenceOctave = true

/- The directives stay that playing follows. -/
structure Plays
    (σ : Selection) : Prop where
  beatUnit : σ.lyrics .beatUnit = true
  tempo : σ.lyrics .tempo = true
  key : σ.pitches .key = true
  instrument : σ.pitches .instrument = true
  volume : σ.pitches .volume = true

end Selection

/- Nothing is done before other things. -/
theorem Outcome.bind_nothing
    {ε α β : Type}
    (x : Except ε (List α × β)) :
    (do
      let (more, b) ← x
      return ([] ++ more, b)) = x := by
  cases x <;> rfl

------------------------------------------------------------
-- Drawing
------------------------------------------------------------

section Drawing

variable {K : Type} [Coordinate K]
variable (s : LayoutSettings K)
variable {σ : Selection}
variable (hDraws : σ.Draws)

namespace Pen

include hDraws

/- A deleted lyric directive draws nothing. -/
theorem lyricDirective_of_deleted
    (p : Pen K)
    {d : Directive}
    (hDeleted : d.isKept σ.lyrics = false) :
    lyricDirective s p d = .ok ([], p) := by
  rcases d with ⟨order, location⟩
  cases order with
  | pickup count =>
      cases hDeleted.symm.trans hDraws.pickup
  | tempo bpm =>
      cases hDeleted.symm.trans hDraws.tempo
  | _ =>
      rfl

/- Deleted lyric directives draw nothing. -/
theorem lyricDirectives_filter
    (p : Pen K)
    (ds : List Directive) :
    lyricDirectives s p
        (ds.filter (Directive.isKept σ.lyrics)) =
      lyricDirectives s p ds := by
  induction ds generalizing p with
  | nil =>
      rfl
  | cons d ds ih =>
      cases hKept : d.isKept σ.lyrics with
      | true =>
          simp only [List.filter_cons_of_pos hKept,
            lyricDirectives, ih]
      | false =>
          rw [List.filter_cons_of_neg (by simp [hKept]), ih,
            lyricDirectives,
            lyricDirective_of_deleted s hDraws p hKept]
          exact (Outcome.bind_nothing _).symm

/- Deleted pitch directives draw no octave. -/
theorem octaveCommands_filter
    (x : K)
    (ds : List Directive) :
    octaveCommands s x
        (ds.filter (Directive.isKept σ.pitches)) =
      octaveCommands s x ds := by
  induction ds with
  | nil =>
      rfl
  | cons d ds ih =>
      rcases d with ⟨order, location⟩
      cases hKept : Directive.isKept σ.pitches
        ⟨order, location⟩ with
      | true =>
          simp only [List.filter_cons_of_pos hKept,
            octaveCommands, ih]
      | false =>
          rw [List.filter_cons_of_neg (by simp [hKept]), ih]
          cases order with
          | referenceOctave octave =>
              cases hKept.symm.trans hDraws.referenceOctave
          | _ =>
              rfl

/- A slot is drawn as it is without deleted directives. -/
theorem slot_select
    (x : K)
    (part : Slot Attack) :
    slot s x (part.select (Attack.select σ.pitches)) =
      slot s x part := by
  have hVoices :
      voiceCommands s x (part.content.select σ.pitches) =
        voiceCommands s x part.content := by
    unfold voiceCommands Attack.select
    simp only [hDraws.referenceOctave, if_true]
    rfl
  have hOctaves :
      octaveCommands s x
          (part.content.select σ.pitches).delivery.handed =
        octaveCommands s x part.content.delivery.handed :=
    octaveCommands_filter s hDraws x _
  unfold slot Slot.select
  simp only [hVoices, hOctaves]

theorem slots_select
    (x : K)
    (parts : List (Slot Attack)) :
    slots s x
        (parts.map
          (Slot.select (Attack.select σ.pitches))) =
      slots s x parts := by
  induction parts generalizing x with
  | nil =>
      rfl
  | cons part parts ih =>
      simp only [List.map_cons, slots, slot_select s hDraws, ih]
      rfl

theorem drawBeat_select
    (block : Int)
    (p : Pen K)
    (b : Beat)
    (parts : List (Slot Attack)) :
    drawBeat s block p (b.select σ.lyrics)
        (parts.map (Slot.select (Attack.select σ.pitches))) =
      drawBeat s block p b parts := by
  unfold drawBeat
  simp only [Beat.directives_select,
    lyricDirectives_filter s hDraws, List.map_eq_nil_iff,
    slots_select s hDraws, Beat.scale_select]

/- Cues are drawn as they are without deleted directives. -/
theorem cues_select
    (block : Int)
    (p : Pen K)
    (cs : List (Cue Attack)) :
    cues s block p
      (cs.filterMap
        (Cue.select σ.lyrics (Attack.select σ.pitches))) =
      cues s block p cs := by
  induction cs generalizing p with
  | nil =>
      rfl
  | cons cue cs ih =>
      cases cue with
      | directive d =>
          cases hKept : d.isKept σ.lyrics with
          | true =>
              simp only [List.filterMap_cons, Cue.select,
                hKept, if_true, cues, ih]
          | false =>
              simp only [List.filterMap_cons, Cue.select,
                hKept, Bool.false_eq_true, if_false, cues,
                ih,
                lyricDirective_of_deleted s hDraws p hKept]
              exact (Outcome.bind_nothing _).symm
      | barline measure =>
          simp only [List.filterMap_cons, Cue.select, cues, ih]
      | beat b parts =>
          simp only [List.filterMap_cons, Cue.select, cues,
            drawBeat_select s hDraws, ih]

end Pen

include hDraws

/- Blocks are drawn as they are without deleted directives. -/
theorem layoutBlocks_select
    (index : Nat)
    (bs : List Block) :
    layoutBlocks s index (bs.map (Block.select σ)) =
      layoutBlocks s index bs := by
  induction bs generalizing index with
  | nil =>
      rfl
  | cons b bs ih =>
      simp only [List.map_cons, layoutBlocks, Block.layout,
        b.voices_select hDraws.key,
        Pen.cues_select s hDraws, ih]

/-
  A score is drawn alike without the directives that drawing
  does not follow.
-/
theorem Score.layout_select
    (score : Score) :
    (score.select σ).layout s = score.layout s := by
  simp only [Score.layout, Score.select,
    layoutBlocks_select s hDraws]

end Drawing

------------------------------------------------------------
-- Playing
------------------------------------------------------------

section Playing

variable {σ : Selection}
variable (hPlays : σ.Plays)

namespace Player

include hPlays

/- A deleted lyric directive is not heard. -/
theorem followLyrics_of_deleted
    (p : Player)
    {d : Directive}
    (hDeleted : d.isKept σ.lyrics = false) :
    p.followLyrics d = ([], p) := by
  rcases d with ⟨order, location⟩
  cases order with
  | beatUnit code =>
      cases hDeleted.symm.trans hPlays.beatUnit
  | tempo bpm =>
      cases hDeleted.symm.trans hPlays.tempo
  | _ =>
      rfl

/- A deleted pitch directive is not heard. -/
theorem followPitches_of_deleted
    (p : Player)
    {d : Directive}
    (hDeleted : d.isKept σ.pitches = false) :
    p.followPitches d = ([], p) := by
  rcases d with ⟨order, location⟩
  cases order with
  | instrument program =>
      cases hDeleted.symm.trans hPlays.instrument
  | volume level =>
      cases hDeleted.symm.trans hPlays.volume
  | _ =>
      rfl

/- Deleted lyric directives are not heard. -/
theorem followAllLyrics_filter
    (p : Player)
    (ds : List Directive) :
    p.followAllLyrics
        (ds.filter (Directive.isKept σ.lyrics)) =
      p.followAllLyrics ds := by
  induction ds generalizing p with
  | nil =>
      rfl
  | cons d ds ih =>
      cases hKept : d.isKept σ.lyrics with
      | true =>
          simp only [List.filter_cons_of_pos hKept,
            followAllLyrics, ih]
      | false =>
          rw [List.filter_cons_of_neg (by simp [hKept]), ih,
            followAllLyrics,
            followLyrics_of_deleted hPlays p hKept]
          rfl

theorem followAllPitches_filter
    (p : Player)
    (ds : List Directive) :
    p.followAllPitches
        (ds.filter (Directive.isKept σ.pitches)) =
      p.followAllPitches ds := by
  induction ds generalizing p with
  | nil =>
      rfl
  | cons d ds ih =>
      cases hKept : d.isKept σ.pitches with
      | true =>
          simp only [List.filter_cons_of_pos hKept,
            followAllPitches, ih]
      | false =>
          rw [List.filter_cons_of_neg (by simp [hKept]), ih,
            followAllPitches,
            followPitches_of_deleted hPlays p hKept]
          rfl

/- A slot sounds as it does without deleted directives. -/
theorem sound_select
    (p : Player)
    (part : Slot Attack) :
    p.sound (part.select (Attack.select σ.pitches)) =
      p.sound part := by
  have hHanded :
      p.followAllPitches
          (part.content.select σ.pitches).delivery.handed =
        p.followAllPitches part.content.delivery.handed :=
    followAllPitches_filter hPlays p _
  have hAttack :
      p.attack (part.content.select σ.pitches) =
        p.attack part.content := by
    unfold attack
    rw [hHanded]
    rfl
  unfold sound Slot.select
  simp only [hAttack]

theorem slots_select
    (p : Player)
    (step : Rat)
    (parts : List (Slot Attack)) :
    p.slots step
        (parts.map
          (Slot.select (Attack.select σ.pitches))) =
      p.slots step parts := by
  induction parts generalizing p with
  | nil =>
      rfl
  | cons part parts ih =>
      simp only [List.map_cons, slots, sound_select hPlays, ih]

theorem beat_select
    (ticksPerQuarter : Int)
    (p : Player)
    (b : Beat)
    (parts : List (Slot Attack)) :
    p.beat ticksPerQuarter (b.select σ.lyrics)
        (parts.map (Slot.select (Attack.select σ.pitches))) =
      p.beat ticksPerQuarter b parts := by
  unfold beat Beat.ticks
  simp only [Beat.directives_select,
    followAllLyrics_filter hPlays, List.map_eq_nil_iff,
    List.length_map, slots_select hPlays, Beat.scale_select]

theorem cues_select
    (ticksPerQuarter : Int)
    (p : Player)
    (cs : List (Cue Attack)) :
    p.cues ticksPerQuarter
      (cs.filterMap
        (Cue.select σ.lyrics (Attack.select σ.pitches))) =
      p.cues ticksPerQuarter cs := by
  induction cs generalizing p with
  | nil =>
      rfl
  | cons cue cs ih =>
      cases cue with
      | directive d =>
          cases hKept : d.isKept σ.lyrics with
          | true =>
              simp only [List.filterMap_cons, Cue.select,
                hKept, if_true, cues, ih]
          | false =>
              simp only [List.filterMap_cons, Cue.select,
                hKept, Bool.false_eq_true, if_false, cues,
                ih, followLyrics_of_deleted hPlays p hKept]
              exact (Outcome.bind_nothing _).symm
      | barline measure =>
          simp only [List.filterMap_cons, Cue.select, cues, ih]
      | beat b parts =>
          simp only [List.filterMap_cons, Cue.select, cues,
            beat_select hPlays, ih]

/- Blocks sound as they do without deleted directives. -/
theorem blocks_select
    (ticksPerQuarter : Int)
    (p : Player)
    (bs : List Block) :
    p.blocks ticksPerQuarter (bs.map (Block.select σ)) =
      p.blocks ticksPerQuarter bs := by
  induction bs generalizing p with
  | nil =>
      rfl
  | cons b bs ih =>
      simp only [List.map_cons, blocks,
        b.voices_select hPlays.key, cues_select hPlays, ih]

end Player

namespace Score

variable (settings : AudioSettings)
variable (s : Score)

include hPlays

/-
  A score is played alike without the directives that
  playing does not follow.
-/
theorem events_select :
    (s.select σ).events settings = s.events settings := by
  simp only [events, actions, select,
    Player.blocks_select hPlays]

/-
  The file that is written is that of the score without
  deleted directives.
-/
theorem midi_select :
    (s.select σ).midi settings = s.midi settings := by
  simp only [midi, events_select hPlays]

end Score

end Playing

------------------------------------------------------------
-- Timing
------------------------------------------------------------

section Timing

variable {keep : DirectiveName → Bool}
variable (hUnit : keep .beatUnit = true)

namespace BeatClock

include hUnit

/- A deleted directive sets no beat unit. -/
theorem follow_of_deleted
    (c : BeatClock)
    {d : Directive}
    (hDeleted : d.isKept keep = false) :
    c.follow d = c := by
  rcases d with ⟨order, location⟩
  cases order with
  | beatUnit code =>
      cases hDeleted.symm.trans hUnit
  | _ =>
      rfl

/-
  Deleting directives that set no beat unit changes nothing
  of the clock.
-/
theorem foldl_follow_filter
    (c : BeatClock)
    (ds : List Directive) :
    (ds.filter (Directive.isKept keep)).foldl follow c =
      ds.foldl follow c := by
  induction ds generalizing c with
  | nil =>
      rfl
  | cons d ds ih =>
      cases hKept : d.isKept keep with
      | true =>
          rw [List.filter_cons_of_pos hKept,
            List.foldl_cons, List.foldl_cons, ih]
      | false =>
          rw [List.filter_cons_of_neg (by simp [hKept]), ih,
            List.foldl_cons,
            follow_of_deleted hUnit c hKept]

/-
  The clock gives the same beats without deleted directives.
-/
theorem items_select
    (ticksPerQuarter : Int)
    (block : Int)
    (c : BeatClock)
    (index : Nat)
    (its : List LyricItem) :
    items ticksPerQuarter block c index
      (its.filterMap (LyricItem.select keep)) =
      items ticksPerQuarter block c index its := by
  induction its generalizing c index with
  | nil =>
      rfl
  | cons item its ih =>
      cases item with
      | directive d =>
          cases hKept : d.isKept keep with
          | true =>
              simp only [List.filterMap_cons,
                LyricItem.select, hKept, if_true, items, ih]
          | false =>
              simp only [List.filterMap_cons,
                LyricItem.select, hKept, Bool.false_eq_true,
                if_false, items, ih,
                follow_of_deleted hUnit c hKept]
      | barline measure =>
          simp only [List.filterMap_cons, LyricItem.select,
            items, ih]
      | beat b =>
          simp only [List.filterMap_cons, LyricItem.select,
            items, Beat.ticks, Beat.directives_select,
            Beat.subdivisions_select, Beat.scale_select,
            foldl_follow_filter hUnit, ih]

/-
  Blocks whose lyric streams differ in other directives only
  are timed alike.
-/
theorem blocks_map
    (f : Block → Block)
    (hStream :
      ∀ b : Block,
        (f b).lyricStream =
          b.lyricStream.filterMap (LyricItem.select keep))
    (ticksPerQuarter : Int)
    (c : BeatClock)
    (index : Nat)
    (bs : List Block) :
    blocks ticksPerQuarter c index (bs.map f) =
      blocks ticksPerQuarter c index bs := by
  induction bs generalizing c index with
  | nil =>
      rfl
  | cons b bs ih =>
      simp only [List.map_cons, blocks, hStream,
        items_select hUnit, ih]

end BeatClock

/-
  The lyric lines of a block, in which no directives but
  note values are left.
-/
def Block.beatsOnly
    (b : Block) : Block :=
  ⟨b.lyricLines.map
      (LyricLine.select fun name => name = .beatUnit), []⟩

/- What the beat map of a score rests on. -/
def Score.beatsOnly
    (s : Score) : Score :=
  ⟨[], s.blocks.map Block.beatsOnly⟩

namespace Score

variable (settings : AudioSettings)
variable (s : Score)

theorem timing_beatsOnly :
    s.beatsOnly.timing settings = s.timing settings := by
  have hStream (b : Block) :
      b.beatsOnly.lyricStream =
        b.lyricStream.filterMap
          (LyricItem.select fun name => name = .beatUnit) :=
    b.lyricStream_select ⟨_, fun _ => false⟩
  simp only [timing, beatMap, beatsOnly,
    BeatClock.blocks_map rfl Block.beatsOnly hStream]

/-
  A score is timed alike without the directives
  that are no note values.
-/
theorem timing_select
    {σ : Selection}
    (hUnit : σ.lyrics .beatUnit = true) :
    (s.select σ).timing settings = s.timing settings := by
  simp only [timing, beatMap, select,
    BeatClock.blocks_map hUnit (Block.select σ)
      (Block.lyricStream_select σ)]

end Score

end Timing

------------------------------------------------------------
-- Scores
------------------------------------------------------------

/-
  The directives that act at all: others have no meaning in
  a line of their sort.
-/
def Selection.acting : Selection where
  lyrics := fun name => name ∈ [.pickup, .beatUnit, .tempo]
  pitches :=
    fun name =>
      name ∈ [.key, .referenceOctave, .instrument, .volume]

/-
  Directives act only where they belong, whether or not the
  score can be drawn, played and timed.  Those that mean
  nothing in a line of their sort may be deleted; pickups and
  octaves are not heard; note values, instruments and volumes
  are not seen; and the beat map rests on the lyric lines and
  their note values alone.
-/
theorem Score.directives_act_where_they_belong
    {K : Type} [Coordinate K]
    (drawing : LayoutSettings K)
    (playing : AudioSettings)
    (s : Score) :
    ((s.select .acting).layout drawing = s.layout drawing ∧
        (s.select .acting).events playing =
          s.events playing ∧
        (s.select .acting).midi playing = s.midi playing ∧
        (s.select .acting).timing playing =
          s.timing playing) ∧
      ((s.select
            (.without [.pickup, .referenceOctave])).events
            playing =
          s.events playing ∧
        (s.select
            (.without [.pickup, .referenceOctave])).timing
            playing =
          s.timing playing) ∧
      (s.select
          (.without
            [.beatUnit, .instrument, .volume])).layout
          drawing =
        s.layout drawing ∧
      s.beatsOnly.timing playing = s.timing playing := by
  have hDrawn : Selection.acting.Draws := ⟨rfl, rfl, rfl, rfl⟩
  have hPlayed : Selection.acting.Plays :=
    ⟨rfl, rfl, rfl, rfl, rfl⟩
  have hHeard :
      (Selection.without
        [.pickup, .referenceOctave]).Plays :=
    ⟨rfl, rfl, rfl, rfl, rfl⟩
  have hSeen :
      (Selection.without
        [.beatUnit, .instrument, .volume]).Draws :=
    ⟨rfl, rfl, rfl, rfl⟩
  refine ⟨⟨?_, ?_, ?_, ?_⟩, ⟨?_, ?_⟩, ?_,
    s.timing_beatsOnly playing⟩
  · exact layout_select drawing hDrawn s
  · exact events_select hPlayed playing s
  · exact midi_select hPlayed playing s
  · exact timing_select playing s rfl
  · exact events_select hHeard playing s
  · exact timing_select playing s rfl
  · exact layout_select drawing hSeen s

end LyricScore
