import Mathlib.Data.List.Basic
import LyricScore.Compile
import LyricScore.Proofs.Outcome
import LyricScore.Proofs.Stream.Segment

/-
  This file shows that locations are only for messages: when
  every location of a score becomes another one, the score is
  still drawn, played and timed in the same way.

  Key definitions include:
    * `Score.mapLocations`
    * `LyricItem.mapLocations`, `PitchItem.mapLocations`
    * `Attack.mapLocations`

  Key theorems include:
    * `Block.voices_mapLocations`
    * `Score.layout_mapLocations`
    * `Score.events_mapLocations`
    * `Score.timing_mapLocations`
-/

namespace LyricScore

------------------------------------------------------------
-- Parts of a score with other locations
------------------------------------------------------------

section Parts

variable (f : Location → Location)

/- Another location for a directive. -/
def Directive.mapLocation
    (d : Directive) : Directive :=
  { d with location := f d.location }

/- Another location for a subdivision. -/
def Subdivision.mapLocation
    (s : Subdivision) : Subdivision :=
  { s with location := f s.location }

/- Another location for an element of a beat. -/
def BeatElement.mapLocation : BeatElement → BeatElement
  | subdivision s => .subdivision (s.mapLocation f)
  | directive d => .directive (d.mapLocation f)

/- Other locations for a beat and its elements. -/
def Beat.mapLocations
    (b : Beat) : Beat :=
  ⟨b.elements.map (BeatElement.mapLocation f), f b.location⟩

/- Other locations for a measure and its beats. -/
def LyricMeasure.mapLocations
    (m : LyricMeasure) : LyricMeasure :=
  ⟨m.beats.map (Beat.mapLocations f), m.barline, f m.location⟩

/- Other locations for a line and all that it holds. -/
def LyricLine.mapLocations
    (l : LyricLine) : LyricLine :=
  ⟨l.directives.map (Directive.mapLocation f),
    l.measures.map (LyricMeasure.mapLocations f),
    f l.location⟩

/- Another location for a pitch. -/
def Pitch.mapLocation
    (p : Pitch) : Pitch :=
  { p with location := f p.location }

/- Other locations for a chord and its pitches. -/
def Chord.mapLocations
    (c : Chord) : Chord :=
  ⟨c.pitches.map (Pitch.mapLocation f), f c.location⟩

/- Other locations for an element of a pitch line. -/
def PitchElement.mapLocations : PitchElement → PitchElement
  | pitch p => .pitch (p.mapLocation f)
  | chord c => .chord (c.mapLocations f)
  | directive d => .directive (d.mapLocation f)

/- Other locations for a measure and its elements. -/
def PitchMeasure.mapLocations
    (m : PitchMeasure) : PitchMeasure :=
  ⟨m.elements.map (PitchElement.mapLocations f), m.barline,
    f m.location⟩

/- Other locations for a line and all that it holds. -/
def PitchLine.mapLocations
    (l : PitchLine) : PitchLine :=
  ⟨l.directives.map (Directive.mapLocation f),
    l.measures.map (PitchMeasure.mapLocations f),
    f l.location⟩

/- Other locations for all that a block holds. -/
def Block.mapLocations
    (b : Block) : Block :=
  ⟨b.lyricLines.map (LyricLine.mapLocations f),
    b.pitchLines.map (PitchLine.mapLocations f)⟩

/- Other locations for all that a score holds. -/
def Score.mapLocations
    (s : Score) : Score :=
  ⟨s.title, s.blocks.map (Block.mapLocations f)⟩

@[simp] theorem Directive.order_mapLocation
    (d : Directive) :
    (d.mapLocation f).order = d.order := rfl

namespace Beat

variable (b : Beat)

@[simp] theorem subdivisions_mapLocations :
    (b.mapLocations f).subdivisions =
      b.subdivisions.map (Subdivision.mapLocation f) := by
  simp only [subdivisions, mapLocations, List.filterMap_map,
    List.map_filterMap]
  congr 1
  funext e
  cases e <;> rfl

@[simp] theorem directives_mapLocations :
    (b.mapLocations f).directives =
      b.directives.map (Directive.mapLocation f) := by
  simp only [directives, mapLocations, List.filterMap_map,
    List.map_filterMap]
  congr 1
  funext e
  cases e <;> rfl

@[simp] theorem scale_mapLocations :
    (b.mapLocations f).scale = b.scale := by
  have hDigits :
      (b.mapLocations f).scaleDigits = b.scaleDigits := by
    unfold scaleDigits
    rw [subdivisions_mapLocations]
    cases b.subdivisions <;> rfl
  unfold scale
  rw [hDigits]

end Beat

end Parts

/-
  Locations that stay as they are leave
  all parts as they are.
-/
section Same

@[simp] theorem BeatElement.mapLocation_id :
    mapLocation id = id := by
  funext e
  cases e <;> rfl

@[simp] theorem Beat.mapLocations_id :
    mapLocations id = id := by
  funext b
  simp [mapLocations]

@[simp] theorem Directive.mapLocation_id :
    mapLocation id = id := rfl

@[simp] theorem LyricMeasure.mapLocations_id :
    mapLocations id = id := by
  funext m
  simp [mapLocations]

@[simp] theorem LyricLine.mapLocations_id :
    mapLocations id = id := by
  funext l
  simp [mapLocations]

@[simp] theorem Pitch.mapLocation_id :
    mapLocation id = id := rfl

@[simp] theorem PitchElement.mapLocations_id :
    mapLocations id = id := by
  funext e
  cases e <;> simp [mapLocations, Chord.mapLocations]

@[simp] theorem PitchMeasure.mapLocations_id :
    mapLocations id = id := by
  funext m
  simp [mapLocations]

@[simp] theorem PitchLine.mapLocations_id :
    mapLocations id = id := by
  funext l
  simp [mapLocations]

@[simp] theorem Block.mapLocations_id :
    mapLocations id = id := by
  funext b
  simp [mapLocations]

end Same

------------------------------------------------------------
-- Streams
------------------------------------------------------------

section Streams

variable (f : Location → Location)

/- Other locations for an item of a lyric stream. -/
def LyricItem.mapLocations : LyricItem → LyricItem
  | directive d => .directive (d.mapLocation f)
  | beat b => .beat (b.mapLocations f)
  | barline measure => .barline measure

/- Other locations for what an attack sounds. -/
def Sounding.mapLocations : Sounding → Sounding
  | pitch p => .pitch (p.mapLocation f)
  | chord c => .chord (c.mapLocations f)

/- Other locations for an item of a pitch stream. -/
def PitchItem.mapLocations : PitchItem → PitchItem
  | directive d => .directive (d.mapLocation f)
  | sounding s => .sounding (s.mapLocations f)
  | barline => .barline

/- The items of a measure move with it. -/
theorem LyricMeasure.items_mapLocations
    (m : LyricMeasure)
    (index : Nat) :
    (m.mapLocations f).items index =
      (m.items index).map (LyricItem.mapLocations f) := by
  simp only [items, mapLocations, List.map_append, List.map_map,
    apply_ite (List.map (LyricItem.mapLocations f))]
  rfl

/- The items of a line move with it. -/
theorem LyricLine.items_mapLocations
    (l : LyricLine) :
    (l.mapLocations f).items =
      l.items.map (LyricItem.mapLocations f) := by
  simp only [items, mapLocations, List.map_append,
    List.map_map, List.map_flatMap, List.zipIdx_map,
    List.flatMap_map]
  congr 1
  apply List.flatMap_congr
  intro entry _
  exact entry.1.items_mapLocations f entry.2

theorem PitchMeasure.items_mapLocations
    (m : PitchMeasure) :
    (m.mapLocations f).items =
      m.items.map (PitchItem.mapLocations f) := by
  simp only [items, mapLocations, List.map_append, List.map_map,
    apply_ite (List.map (PitchItem.mapLocations f))]
  congr 1
  apply List.map_congr_left
  intro e _
  cases e <;> rfl

theorem PitchLine.items_mapLocations
    (l : PitchLine) :
    (l.mapLocations f).items =
      l.items.map (PitchItem.mapLocations f) := by
  simp only [items, mapLocations, List.map_append,
    List.map_map, List.map_flatMap, List.flatMap_map]
  congr 1
  apply List.flatMap_congr
  intro m _
  exact m.items_mapLocations f

namespace Block

variable (b : Block)

/- The lyric stream of a block moves with it. -/
theorem lyricStream_mapLocations :
    (b.mapLocations f).lyricStream =
      b.lyricStream.map (LyricItem.mapLocations f) := by
  simp only [lyricStream, mapLocations, List.map_flatMap,
    List.flatMap_map]
  apply List.flatMap_congr
  intro l _
  exact l.items_mapLocations f

theorem pitchStream_mapLocations :
    (b.mapLocations f).pitchStream =
      b.pitchStream.map (PitchItem.mapLocations f) := by
  simp only [pitchStream, mapLocations, List.map_flatMap,
    List.flatMap_map]
  apply List.flatMap_congr
  intro l _
  exact l.items_mapLocations f

end Block

end Streams

------------------------------------------------------------
-- Cues
------------------------------------------------------------

section Cues

variable (f : Location → Location)

/- Other locations for what an attack receives. -/
def Delivery.mapLocations
    (d : Delivery) : Delivery :=
  ⟨d.handed.map (Directive.mapLocation f),
    d.element.map (Sounding.mapLocations f)⟩

/-
  Other locations for what an attack sounds;
  its voices have none.
-/
def Attack.mapLocations
    (a : Attack) : Attack :=
  { a with delivery := a.delivery.mapLocations f }

/- Other locations for a subdivision and its content. -/
def Slot.mapLocations
    {α : Type}
    (content : α → α)
    (s : Slot α) : Slot α :=
  ⟨s.subdivision.mapLocation f, content s.content⟩

/- Other locations for a cue and its content. -/
def Cue.mapLocations
    {α : Type}
    (content : α → α) : Cue α → Cue α
  | directive d => .directive (d.mapLocation f)
  | beat b slots =>
      .beat (b.mapLocations f)
        (slots.map (Slot.mapLocations f content))
  | barline measure => .barline measure

namespace PitchStream

/- An attack gets the same from a stream that was moved. -/
theorem attack_mapLocations
    (s : PitchStream) :
    attack (s.map (PitchItem.mapLocations f)) =
      (s.attack.1.mapLocations f,
        s.attack.2.map (PitchItem.mapLocations f)) := by
  induction s with
  | nil =>
      rfl
  | cons item s ih =>
      cases item with
      | directive d =>
          simp only [List.map_cons, PitchItem.mapLocations,
            attack, ih]
          rfl
      | sounding sound =>
          rfl
      | barline =>
          rfl

/- A barline is passed alike in a stream that was moved. -/
theorem passBarline_mapLocations
    (s : PitchStream) :
    passBarline (s.map (PitchItem.mapLocations f)) =
      (s.passBarline.1,
        s.passBarline.2.map
          (PitchItem.mapLocations f)) := by
  induction s with
  | nil =>
      rfl
  | cons item s ih =>
      cases item with
      | barline =>
          rfl
      | _ =>
          simp only [List.map_cons, PitchItem.mapLocations,
            passBarline, ih]

/-
  Subdivisions are filled with the same from a
  stream that was moved.
-/
theorem fill_mapLocations
    (s : PitchStream)
    (subs : List Subdivision) :
    fill (s.map (PitchItem.mapLocations f))
        (subs.map (Subdivision.mapLocation f)) =
      ((s.fill subs).1.map
          (Slot.mapLocations f (Delivery.mapLocations f)),
        (s.fill subs).2.map
          (PitchItem.mapLocations f)) := by
  induction subs generalizing s with
  | nil =>
      rfl
  | cons sub subs ih =>
      have hAttack :
          (sub.mapLocation f).IsAttack ↔ sub.IsAttack :=
        Iff.rfl
      simp only [List.map_cons, fill, hAttack]
      split
      · simp only [attack_mapLocations, ih]
        rfl
      · rw [ih]
        rfl

/- Cues align alike in streams that were moved. -/
theorem cues_mapLocations
    (s : PitchStream)
    (items : List LyricItem) :
    cues (s.map (PitchItem.mapLocations f))
        (items.map (LyricItem.mapLocations f)) =
      (s.cues items).map
        (Cue.mapLocations f (Delivery.mapLocations f)) := by
  induction items generalizing s with
  | nil =>
      rfl
  | cons item items ih =>
      cases item with
      | directive d =>
          simp only [List.map_cons, LyricItem.mapLocations,
            cues, ih, Cue.mapLocations]
      | barline measure =>
          simp only [List.map_cons, LyricItem.mapLocations,
            cues, passBarline_mapLocations, ih,
            Cue.mapLocations]
      | beat b =>
          simp only [List.map_cons, LyricItem.mapLocations,
            cues, Beat.subdivisions_mapLocations,
            fill_mapLocations, ih, Cue.mapLocations]

end PitchStream

namespace Voicing

/- Directives are followed wherever they stand. -/
theorem foldl_follow_mapLocation
    (v : Voicing)
    (ds : List Directive) :
    (ds.map (Directive.mapLocation f)).foldl follow v =
      ds.foldl follow v := by
  rw [List.foldl_map]
  rfl

/- The tones of a chord climb alike wherever they stand. -/
theorem climb_mapLocation
    (lower : Tone)
    (ps : List Pitch) :
    Melody.climb lower (ps.map (Pitch.mapLocation f)) =
      Melody.climb lower ps := by
  induction ps generalizing lower with
  | nil =>
      rfl
  | cons p ps ih =>
      simp only [List.map_cons, Melody.climb, ih]
      rfl

/- What sounds has the same voices wherever it stands. -/
theorem sound_mapLocations
    (v : Voicing)
    (s : Sounding) :
    v.sound (s.mapLocations f) = v.sound s := by
  cases s with
  | pitch p =>
      rfl
  | chord c =>
      have hTones :
          v.melody.chord (c.pitches.map (Pitch.mapLocation f)) =
            v.melody.chord c.pitches := by
        cases c.pitches with
        | nil =>
            rfl
        | cons p ps =>
            simp only [List.map_cons, Melody.chord,
              climb_mapLocation]
            rfl
      simp only [sound, tones, Sounding.mapLocations,
        Chord.mapLocations, hTones]

/- An attack has the same voices wherever it stands. -/
theorem attack_mapLocations
    (v : Voicing)
    (d : Delivery) :
    v.attack (d.mapLocations f) =
      ((v.attack d).1.mapLocations f, (v.attack d).2) := by
  rcases d with ⟨handed, element⟩
  unfold attack Delivery.mapLocations
  simp only [foldl_follow_mapLocation]
  cases element with
  | none =>
      rfl
  | some s =>
      simp only [Option.map_some, sound_mapLocations]
      rfl

theorem slots_mapLocations
    (v : Voicing)
    (parts : List (Slot Delivery)) :
    v.slots
        (parts.map
          (Slot.mapLocations f (Delivery.mapLocations f))) =
      ((v.slots parts).1.map
          (Slot.mapLocations f (Attack.mapLocations f)),
        (v.slots parts).2) := by
  induction parts generalizing v with
  | nil =>
      rfl
  | cons part parts ih =>
      simp only [List.map_cons, slots, Slot.mapLocations,
        attack_mapLocations, ih]

theorem cues_mapLocations
    (v : Voicing)
    (received : List (Cue Delivery)) :
    v.cues
        (received.map
          (Cue.mapLocations f (Delivery.mapLocations f))) =
      (v.cues received).map
        (Cue.mapLocations f (Attack.mapLocations f)) := by
  induction received generalizing v with
  | nil =>
      rfl
  | cons cue received ih =>
      cases cue with
      | directive d =>
          simp only [List.map_cons, Cue.mapLocations, cues, ih]
      | barline measure =>
          simp only [List.map_cons, Cue.mapLocations, cues, ih]
      | beat b parts =>
          simp only [List.map_cons, Cue.mapLocations, cues,
            slots_mapLocations, ih]

end Voicing

/-
  The voices of a block are the same wherever
  its parts were written.
-/
theorem Block.voices_mapLocations
    (b : Block) :
    (b.mapLocations f).voices =
      b.voices.map
        (Cue.mapLocations f (Attack.mapLocations f)) := by
  rw [voices, voices, cues, cues, lyricStream_mapLocations,
    pitchStream_mapLocations, PitchStream.cues_mapLocations,
    Voicing.cues_mapLocations]

end Cues

------------------------------------------------------------
-- Drawing
------------------------------------------------------------

section Drawing

variable {K : Type} [Coordinate K]
variable (s : LayoutSettings K)
variable (f : Location → Location)

namespace Pen

/- Lyric directives are drawn alike wherever they stand. -/
theorem lyricDirectives_mapLocation
    (p : Pen K)
    (ds : List Directive) :
    lyricDirectives s p (ds.map (Directive.mapLocation f)) =
      lyricDirectives s p ds := by
  induction ds generalizing p with
  | nil =>
      rfl
  | cons d ds ih =>
      simp only [List.map_cons, lyricDirectives, ih]
      rfl

/- Octaves are drawn alike wherever they stand. -/
theorem octaveCommands_mapLocation
    (x : K)
    (ds : List Directive) :
    octaveCommands s x (ds.map (Directive.mapLocation f)) =
      octaveCommands s x ds := by
  induction ds with
  | nil =>
      rfl
  | cons d ds ih =>
      simp only [List.map_cons, octaveCommands,
        Directive.order_mapLocation, ih]

/- A slot is drawn alike wherever it stands. -/
theorem slot_mapLocations
    (x : K)
    (part : Slot Attack) :
    slot s x (part.mapLocations f (Attack.mapLocations f)) =
      slot s x part := by
  have hVoices :
      voiceCommands s x (part.content.mapLocations f) =
        voiceCommands s x part.content := by
    unfold voiceCommands Attack.mapLocations
      Delivery.mapLocations
    cases part.content.delivery.element with
    | none =>
        rfl
    | some sound =>
        cases sound <;> rfl
  have hOctaves :
      octaveCommands s x
          (part.content.mapLocations f).delivery.handed =
        octaveCommands s x part.content.delivery.handed :=
    octaveCommands_mapLocation s f x _
  unfold slot Slot.mapLocations
  simp only [hVoices, hOctaves]
  rfl

theorem slots_mapLocations
    (x : K)
    (parts : List (Slot Attack)) :
    slots s x
      (parts.map
        (Slot.mapLocations f (Attack.mapLocations f))) =
      slots s x parts := by
  induction parts generalizing x with
  | nil =>
      rfl
  | cons part parts ih =>
      simp only [List.map_cons, slots, slot_mapLocations, ih]
      rfl

theorem drawBeat_mapLocations
    (block : Int)
    (p : Pen K)
    (b : Beat)
    (parts : List (Slot Attack)) :
    drawBeat s block p (b.mapLocations f)
      (parts.map
        (Slot.mapLocations f (Attack.mapLocations f))) =
      drawBeat s block p b parts := by
  unfold drawBeat
  simp only [Beat.directives_mapLocations,
    lyricDirectives_mapLocation, List.map_eq_nil_iff,
    slots_mapLocations, Beat.scale_mapLocations]

theorem cues_mapLocations
    (block : Int)
    (p : Pen K)
    (cs : List (Cue Attack)) :
    cues s block p
      (cs.map
        (Cue.mapLocations f (Attack.mapLocations f))) =
      cues s block p cs := by
  induction cs generalizing p with
  | nil =>
      rfl
  | cons cue cs ih =>
      cases cue with
      | directive d =>
          simp only [List.map_cons, Cue.mapLocations, cues, ih]
          rfl
      | barline measure =>
          simp only [List.map_cons, Cue.mapLocations, cues, ih]
      | beat b parts =>
          simp only [List.map_cons, Cue.mapLocations, cues,
            drawBeat_mapLocations, ih]

end Pen

/- Blocks are drawn alike wherever they stand. -/
theorem layoutBlocks_mapLocations
    (index : Nat)
    (bs : List Block) :
    layoutBlocks s index (bs.map (Block.mapLocations f)) =
      layoutBlocks s index bs := by
  induction bs generalizing index with
  | nil =>
      rfl
  | cons b bs ih =>
      simp only [List.map_cons, layoutBlocks, Block.layout,
        Block.voices_mapLocations, Pen.cues_mapLocations,
        ih]

/- A score is drawn alike wherever its parts were written. -/
theorem Score.layout_mapLocations
    (score : Score) :
    (score.mapLocations f).layout s = score.layout s := by
  simp only [Score.layout, Score.mapLocations,
    layoutBlocks_mapLocations]

end Drawing

------------------------------------------------------------
-- Playing
------------------------------------------------------------

section Playing

variable (f : Location → Location)

namespace Player

/- Lyric directives are played alike wherever they stand. -/
theorem followAllLyrics_mapLocation
    (p : Player)
    (ds : List Directive) :
    p.followAllLyrics (ds.map (Directive.mapLocation f)) =
      p.followAllLyrics ds := by
  induction ds generalizing p with
  | nil =>
      rfl
  | cons d ds ih =>
      simp only [List.map_cons, followAllLyrics, ih]
      rfl

/- Pitch directives are played alike wherever they stand. -/
theorem followAllPitches_mapLocation
    (p : Player)
    (ds : List Directive) :
    p.followAllPitches (ds.map (Directive.mapLocation f)) =
      p.followAllPitches ds := by
  induction ds generalizing p with
  | nil =>
      rfl
  | cons d ds ih =>
      simp only [List.map_cons, followAllPitches, ih]
      rfl

/- A slot sounds alike wherever it stands. -/
theorem sound_mapLocations
    (p : Player)
    (part : Slot Attack) :
    p.sound (part.mapLocations f (Attack.mapLocations f)) =
      p.sound part := by
  have hAttack :
      p.attack (part.content.mapLocations f) =
        p.attack part.content := by
    have hHanded :
        p.followAllPitches
            (part.content.mapLocations f).delivery.handed =
          p.followAllPitches part.content.delivery.handed :=
      followAllPitches_mapLocation f p _
    unfold attack
    rw [hHanded]
    rfl
  unfold sound Slot.mapLocations
  simp only [hAttack]
  rfl

theorem slots_mapLocations
    (p : Player)
    (step : Rat)
    (parts : List (Slot Attack)) :
    p.slots step
      (parts.map
        (Slot.mapLocations f (Attack.mapLocations f))) =
      p.slots step parts := by
  induction parts generalizing p with
  | nil =>
      rfl
  | cons part parts ih =>
      simp only [List.map_cons, slots, sound_mapLocations, ih]

theorem beat_mapLocations
    (ticksPerQuarter : Int)
    (p : Player)
    (b : Beat)
    (parts : List (Slot Attack)) :
    p.beat ticksPerQuarter (b.mapLocations f)
      (parts.map
        (Slot.mapLocations f (Attack.mapLocations f))) =
      p.beat ticksPerQuarter b parts := by
  unfold beat Beat.ticks
  simp only [Beat.directives_mapLocations,
    followAllLyrics_mapLocation, List.map_eq_nil_iff,
    List.length_map, slots_mapLocations,
    Beat.scale_mapLocations]

theorem cues_mapLocations
    (ticksPerQuarter : Int)
    (p : Player)
    (cs : List (Cue Attack)) :
    p.cues ticksPerQuarter
      (cs.map
        (Cue.mapLocations f (Attack.mapLocations f))) =
      p.cues ticksPerQuarter cs := by
  induction cs generalizing p with
  | nil =>
      rfl
  | cons cue cs ih =>
      cases cue with
      | directive d =>
          simp only [List.map_cons, Cue.mapLocations, cues, ih]
          rfl
      | barline measure =>
          simp only [List.map_cons, Cue.mapLocations, cues, ih]
      | beat b parts =>
          simp only [List.map_cons, Cue.mapLocations, cues,
            beat_mapLocations, ih]

/- Blocks sound alike wherever they stand. -/
theorem blocks_mapLocations
    (ticksPerQuarter : Int)
    (p : Player)
    (bs : List Block) :
    p.blocks ticksPerQuarter (bs.map (Block.mapLocations f)) =
      p.blocks ticksPerQuarter bs := by
  induction bs generalizing p with
  | nil =>
      rfl
  | cons b bs ih =>
      simp only [List.map_cons, blocks,
        Block.voices_mapLocations, cues_mapLocations, ih]

end Player

namespace Score

variable (settings : AudioSettings)
variable (s : Score)

/- A score is played alike wherever its parts were written. -/
theorem events_mapLocations :
    (s.mapLocations f).events settings = s.events settings := by
  simp only [events, actions, mapLocations,
    Player.blocks_mapLocations]

/-
  The file that is written does not tell
  where the nodes stand.
-/
theorem midi_mapLocations :
    (s.mapLocations f).midi settings = s.midi settings := by
  simp only [midi, events_mapLocations]

end Score

end Playing

------------------------------------------------------------
-- Timing
------------------------------------------------------------

section Timing

variable (f : Location → Location)

namespace BeatClock

/-
  The clock gives the same beats of a
  block wherever they stand.
-/
theorem items_mapLocations
    (ticksPerQuarter : Int)
    (block : Int)
    (c : BeatClock)
    (index : Nat)
    (its : List LyricItem) :
    items ticksPerQuarter block c index
      (its.map (LyricItem.mapLocations f)) =
      items ticksPerQuarter block c index its := by
  induction its generalizing c index with
  | nil =>
      rfl
  | cons item its ih =>
      cases item with
      | directive d =>
          simp only [List.map_cons, LyricItem.mapLocations,
            items, ih]
          rfl
      | barline measure =>
          simp only [List.map_cons, LyricItem.mapLocations,
            items, ih]
      | beat b =>
          have hFollow :
              (b.directives.map
                (Directive.mapLocation f)).foldl follow c =
                b.directives.foldl follow c := by
            rw [List.foldl_map]
            rfl
          simp only [List.map_cons, LyricItem.mapLocations,
            items, Beat.ticks, Beat.directives_mapLocations,
            Beat.subdivisions_mapLocations,
            List.map_eq_nil_iff, Beat.scale_mapLocations,
            hFollow, ih]

theorem blocks_mapLocations
    (ticksPerQuarter : Int)
    (c : BeatClock)
    (index : Nat)
    (bs : List Block) :
    blocks ticksPerQuarter c index
      (bs.map (Block.mapLocations f)) =
      blocks ticksPerQuarter c index bs := by
  induction bs generalizing c index with
  | nil =>
      rfl
  | cons b bs ih =>
      simp only [List.map_cons, blocks,
        Block.lyricStream_mapLocations, items_mapLocations,
        ih]

end BeatClock

/- A score is timed alike wherever its parts were written. -/
theorem Score.timing_mapLocations
    (settings : AudioSettings)
    (s : Score) :
    (s.mapLocations f).timing settings = s.timing settings := by
  simp only [Score.timing, Score.beatMap, Score.mapLocations,
    BeatClock.blocks_mapLocations]

end Timing

end LyricScore
