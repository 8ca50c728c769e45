import LyricScore.Drawing.Block
import LyricScore.Proofs.Outcome

/-
  This file draws a block in one pass.  The walk takes from
  the pitch stream itself, and has a key and a melody of its
  own that it changes as directives, notes and barlines are
  met.  It draws what `Block.layout` draws, which finds out
  first what every attack sounds.

  Key definitions include:
    * `DrawWalk`
    * `DrawWalk.attack`
    * `DrawWalk.items`
    * `DrawWalk.layout`

  Key theorems include:
    * `DrawWalk.attack_eq`
    * `DrawWalk.slots_eq`
    * `DrawWalk.items_eq`
    * `DrawWalk.layout_eq`
-/

namespace LyricScore

variable {K : Type} [Coordinate K]

------------------------------------------------------------
-- Walks
------------------------------------------------------------

/-
  The pen, what is left of the pitch stream,
  the key and the melody.
-/
structure DrawWalk (K : Type) where
  pen : Pen K
  stream : PitchStream
  memory : KeyMemory := {}
  melody : Melody := {}

namespace DrawWalk

/-
  A directive on the way to an attack at `x`: the key changes,
  or an octave is drawn and set on the center line.
-/
def follow
    (s : LayoutSettings K)
    (x : K)
    (w : DrawWalk K)
    (d : Directive) :
      Except Failure (List (DrawCommand K) × DrawWalk K) :=
  match d.order with
  | .key accidental count =>
    .ok
      ([],
        { w with
          memory := w.memory.setKey accidental count })
  | .referenceOctave octave => do
    let text ← Pen.label "G" octave
    return ([Pen.octaveCommand s x text],
      { w with melody := w.melody.setReferenceOctave octave })
  | _ => .ok ([], w)

def followAll
    (s : LayoutSettings K)
    (x : K)
    (w : DrawWalk K) :
      List Directive →
        Except Failure (List (DrawCommand K) × DrawWalk K)
  | [] => .ok ([], w)
  | d :: ds => do
    let (first, w) ← w.follow s x d
    let (more, w) ← followAll s x w ds
    return (first ++ more, w)

/- A tone, with the accidental that applies to it now. -/
def tone
    (s : LayoutSettings K)
    (x : K)
    (w : DrawWalk K)
    (t : WrittenTone) :
      Except Failure (DrawCommand K × DrawWalk K) := do
  let (accidental, memory) :=
    w.memory.resolve t.tone.letter.name t.tone.octave
      t.accidental
  let command ←
    Pen.voiceCommand s w.melody.referenceOctave x
      ⟨t.tone, accidental⟩
  return (command, { w with memory := memory })

/-
  The tones of a chord, in turn to the
  right and to the left.
-/
def chord
    (s : LayoutSettings K)
    (x : K)
    (right : Bool)
    (w : DrawWalk K) :
      List WrittenTone →
        Except Failure (List (DrawCommand K) × DrawWalk K)
  | [] => .ok ([], w)
  | t :: ts => do
    let shift :=
      if right then s.chordStagger else -s.chordStagger
    let (first, w) ← w.tone s (x + shift) t
    let (more, w) ← chord s x (!right) w ts
    return (first :: more, w)

/-
  An attack takes from the pitch stream,
  and draws what it finds.
-/
def attack
    (s : LayoutSettings K)
    (x : K)
    (w : DrawWalk K) :
      Except Failure
        (List (DrawCommand K) × DrawWalk K) := do
  let (delivery, stream) := w.stream.attack
  let (octaves, w) ←
    followAll s x { w with stream := stream }
      delivery.handed
  match delivery.element with
  | none => return (octaves, w)
  | some (.pitch p) =>
    let (tone, melody) := w.melody.pitch p.letter p.shift
    let (letter, w) ←
      DrawWalk.tone s x { w with melody := melody }
        ⟨tone, p.accidental⟩
    return (octaves ++ [letter], w)
  | some (.chord c) =>
    let (tones, melody) := w.melody.chord c.pitches
    let (letters, w) ←
      chord s x true { w with melody := melody } tones
    return (octaves ++ letters, w)

/- Subdivisions side by side, and the place behind them. -/
def slots
    (s : LayoutSettings K)
    (x : K)
    (w : DrawWalk K) :
    List Subdivision →
      Except Failure (List (DrawCommand K) × K × DrawWalk K)
  | [] => .ok ([], x, w)
  | sub :: subs => do
    let (first, w) ←
      if sub.IsAttack then w.attack s x else .ok ([], w)
    let (more, last, w) ←
      slots s (x + s.textWidth sub.displayText) w subs
    return (Pen.lyricCommand s x sub.displayText :: first ++
        more, last, w)

def beat
    (s : LayoutSettings K)
    (block : Int)
    (w : DrawWalk K)
    (b : Beat) :
      Except Failure
        (List (DrawCommand K) × DrawWalk K) := do
  let (directed, pen) ← Pen.lyricDirectives s w.pen b.directives
  if b.subdivisions = [] then
    .ok (directed, { w with pen := pen })
  else do
    let (drawn, x, w) ←
      slots s pen.x { w with pen := pen } b.subdivisions
    let counter ← Pen.counterCommands s pen block
    let scale ← b.scale.mapError .numeral
    return (directed ++ drawn ++ counter,
      { w with
        pen :=
          ⟨x + s.beatGap, pen.counter + scale,
            pen.beat + 1⟩ })

/- The items of a lyric stream in turn. -/
def items
    (s : LayoutSettings K)
    (block : Int)
    (w : DrawWalk K) :
      List LyricItem →
        Except Failure (List (DrawCommand K) × DrawWalk K)
  | [] => .ok ([], w)
  | .directive d :: rest => do
    let (first, pen) ← Pen.lyricDirective s w.pen d
    let (more, w) ← items s block { w with pen := pen } rest
    return (first ++ more, w)
  | .barline _ :: rest => do
    let (more, last) ←
      items s block
        { w with
          pen := w.pen.passBarline s
          stream := w.stream.passBarline.2
          memory := w.memory.endMeasure }
        rest
    return (Pen.barlineCommand s w.pen :: more, last)
  | .beat b :: rest => do
    let (first, w) ← w.beat s block b
    let (more, w) ← items s block w rest
    return (first ++ more, w)

/- The drawing of a block in one pass. -/
def layout
    (s : LayoutSettings K)
    (index : Int)
    (b : Block) : Except Failure (BlockLayout K) := do
  let (drawn, w) ←
    items s index
      { pen := { x := s.baseMargin },
        stream := b.pitchStream } b.lyricStream
  return .finish s w.pen.x drawn

------------------------------------------------------------
-- Walks and voices
------------------------------------------------------------

/- A walk with the key and the melody of a block. -/
def of
    (pen : Pen K)
    (stream : PitchStream)
    (v : Voicing) : DrawWalk K :=
  ⟨pen, stream, v.memory, v.melody⟩

variable (s : LayoutSettings K)
variable (pen : Pen K)
variable (stream : PitchStream)
variable (v : Voicing)

/-
  Directives before an attack are drawn one after the other.
-/
theorem octaveCommands_cons
    (x : K)
    (d : Directive)
    (ds : List Directive) :
    Pen.octaveCommands s x (d :: ds) = do
      let first ← Pen.octaveCommands s x [d]
      let more ← Pen.octaveCommands s x ds
      return first ++ more := by
  cases hOrder : d.order with
  | referenceOctave octave =>
      cases hText : Pen.label "G" octave with
      | error e =>
          simp [Pen.octaveCommands, hOrder, hText]
      | ok text =>
          cases hMore : Pen.octaveCommands s x ds <;>
            simp [Pen.octaveCommands, hOrder, hText, hMore]
  | _ =>
      cases hMore : Pen.octaveCommands s x ds <;>
        simp [Pen.octaveCommands, hOrder, hMore]

/-
  The walk follows a pitch directive as the pen and the
  voicing do apart.
-/
theorem follow_eq
    (x : K)
    (d : Directive) :
    (of pen stream v).follow s x d =
      (Pen.octaveCommands s x [d]).map fun drawn =>
        (drawn, of pen stream (v.follow d)) := by
  cases hOrder : d.order with
  | referenceOctave octave =>
      cases hText : Pen.label "G" octave <;>
        simp [follow, Pen.octaveCommands, hOrder, hText, of,
          Voicing.follow]
  | _ =>
      simp [follow, Pen.octaveCommands, hOrder, of,
        Voicing.follow]

theorem followAll_eq
    (x : K)
    (ds : List Directive) :
    followAll s x (of pen stream v) ds =
      (Pen.octaveCommands s x ds).map fun drawn =>
        (drawn, of pen stream (ds.foldl Voicing.follow v)) := by
  induction ds generalizing v with
  | nil =>
      rfl
  | cons d ds ih =>
      rw [followAll, octaveCommands_cons, follow_eq,
        List.foldl_cons]
      cases Pen.octaveCommands s x [d] with
      | error e =>
          rfl
      | ok first =>
          simp only [Outcome.map_ok, Outcome.ok_bind, ih]
          cases Pen.octaveCommands s x ds <;> rfl

/-
  The walk draws a chord as the pen draws the voices that
  the voicing spells.
-/
theorem chord_eq
    (x : K)
    (right : Bool)
    (ts : List WrittenTone) :
    chord s x right (of pen stream v) ts =
      (Pen.chordCommands s v.melody.referenceOctave x right
          (Voicing.spellTones v.memory ts).1).map fun drawn =>
        (drawn,
          of pen stream
            ⟨(Voicing.spellTones v.memory ts).2,
              v.melody⟩) := by
  induction ts generalizing v right with
  | nil =>
      rfl
  | cons t ts ih =>
      simp only [chord, tone, Voicing.spellTones,
        Pen.chordCommands]
      cases hFirst : Pen.voiceCommand s
        v.melody.referenceOctave
        (x +
          if right then s.chordStagger else -s.chordStagger)
        ⟨t.tone,
          (v.memory.resolve t.tone.letter.name t.tone.octave
            t.accidental).1⟩ with
      | error e =>
          simp [of, hFirst]
      | ok first =>
          have hRest :=
            ih
              ⟨(v.memory.resolve t.tone.letter.name
                  t.tone.octave t.accidental).2, v.melody⟩
              (!right)
          simp only [of] at hRest
          simp only [of, hFirst, Outcome.ok_bind,
            Outcome.pure_eq, hRest]
          generalize Pen.chordCommands s
            v.melody.referenceOctave x (!right) _ = drawn
          cases drawn <;> rfl

/- An attack draws the voices that its block has for it. -/
theorem attack_eq
    (x : K) :
    (of pen stream v).attack s x = do
      let (a, w) := v.attack stream.attack.1
      let octaves ← Pen.octaveCommands s x a.delivery.handed
      let letters ← Pen.voiceCommands s x a
      return (octaves ++ letters, of pen stream.attack.2 w) := by
  have hTaken :
      { of pen stream v with stream := stream.attack.2 } =
        of pen stream.attack.2 v :=
    rfl
  have hStream : (of pen stream v).stream = stream := rfl
  simp only [attack, hStream, hTaken, followAll_eq,
    Voicing.attack]
  generalize stream.attack.1 = delivery
  generalize delivery.handed.foldl Voicing.follow v = w
  cases hOctaves : Pen.octaveCommands s x delivery.handed with
  | error e =>
      cases hElement : delivery.element with
      | none =>
          simp [hOctaves]
      | some element =>
          simp [hOctaves]
  | ok octaves =>
      cases hElement : delivery.element with
      | none =>
          simp [hOctaves, Pen.voiceCommands, hElement]
      | some element =>
          cases element with
          | pitch p =>
              simp [hOctaves, hElement, Voicing.sound,
                Voicing.tones, Voicing.spellTones,
                Pen.voiceCommands, tone, of]
          | chord c =>
              have hChord :=
                chord_eq s pen stream.attack.2
                  ⟨w.memory, (w.melody.chord c.pitches).2⟩ x
                  true (w.melody.chord c.pitches).1
              simp only [of] at hChord
              simp [hOctaves, hElement, hChord, of,
                Voicing.sound, Voicing.tones,
                Pen.voiceCommands]
              generalize Pen.chordCommands s _ x true _ =
                letters
              cases letters <;> rfl

/- A subdivision that is no attack is drawn as its text. -/
theorem slot_of_not_attack
    (x : K)
    (sub : Subdivision) :
    Pen.slot s x ⟨sub, (v.attack {}).1⟩ =
      .ok [Pen.lyricCommand s x sub.displayText] := by
  simp [Pen.slot, Pen.octaveCommands, Pen.voiceCommands,
    Voicing.attack]

theorem slots_eq
    (x : K)
    (subs : List Subdivision) :
    slots s x (of pen stream v) subs =
      (Pen.slots s x (v.slots (stream.fill subs).1).1).map
        fun (drawn, x) =>
        (drawn, x,
          of pen (stream.fill subs).2
            (v.slots (stream.fill subs).1).2) := by
  induction subs generalizing x stream v with
  | nil =>
      rfl
  | cons sub subs ih =>
      by_cases hAttack : sub.IsAttack
      · simp only [slots, PitchStream.fill, if_pos hAttack,
          attack_eq, Voicing.slots, Pen.slots, Pen.slot]
        cases Pen.octaveCommands s x
          (v.attack stream.attack.1).1.delivery.handed with
        | error e =>
            rfl
        | ok octaves =>
            cases Pen.voiceCommands s x
                (v.attack stream.attack.1).1 with
            | error e =>
                rfl
            | ok letters =>
                simp only [Outcome.ok_bind, Outcome.pure_eq, ih]
                generalize Pen.slots s _ _ = drawn
                cases drawn <;> simp
      · have hKept : (v.attack {}).2 = v := rfl
        simp only [slots, PitchStream.fill, if_neg hAttack,
          Voicing.slots, Pen.slots, slot_of_not_attack,
          hKept, Outcome.ok_bind, Outcome.pure_eq, ih]
        generalize Pen.slots s _ _ = drawn
        cases drawn <;> simp

/-
  The walk draws a beat as the pen draws what the voicing
  makes of its filled slots.
-/
theorem beat_eq
    (block : Int)
    (b : Beat) :
    (of pen stream v).beat s block b =
      (Pen.drawBeat s block pen b
        (v.slots (stream.fill b.subdivisions).1).1).map
        fun (drawn, pen) =>
          (drawn,
            of pen (stream.fill b.subdivisions).2
              (v.slots (stream.fill b.subdivisions).1).2) := by
  have hPen : (of pen stream v).pen = pen := rfl
  rw [beat, Pen.drawBeat, hPen]
  cases Pen.lyricDirectives s pen b.directives with
  | error e =>
      rfl
  | ok directed =>
      have hState :
          { of pen stream v with pen := directed.2 } =
            of directed.2 stream v :=
        rfl
      cases hSubdivisions : b.subdivisions with
      | nil =>
          rfl
      | cons sub subs =>
          have hRendered :
              (v.slots (stream.fill (sub :: subs)).1).1 ≠
                [] := by
            simp [PitchStream.fill, Voicing.slots]
          simp only [Outcome.ok_bind, hState,
            if_neg hRendered, reduceCtorEq, if_false,
            slots_eq]
          generalize Pen.slots s _ _ = drawn
          cases drawn with
          | error e =>
              rfl
          | ok drawn =>
              simp only [Outcome.map_ok, Outcome.ok_bind]
              cases Pen.counterCommands s directed.2 block with
              | error e =>
                  rfl
              | ok counter =>
                  cases hScale : b.scale.mapError
                    Failure.numeral <;>
                    rfl

/- A walk draws what the cues of its block show. -/
theorem items_eq
    (block : Int)
    (items : List LyricItem) :
    ((of pen stream v).items s block items).map
        (fun (drawn, w) => (drawn, w.pen)) =
      Pen.cues s block pen
        (v.cues (stream.cues items)) := by
  induction items generalizing pen stream v with
  | nil =>
      rfl
  | cons item items ih =>
      cases item with
      | directive d =>
          have hPen : (of pen stream v).pen = pen := rfl
          rw [DrawWalk.items, PitchStream.cues,
            Voicing.cues, Pen.cues, hPen]
          cases Pen.lyricDirective s pen d with
          | error e =>
              rfl
          | ok first =>
              simp only [Outcome.ok_bind, ← ih first.2 stream v]
              have hState :
                  { of pen stream v with pen := first.2 } =
                    of first.2 stream v :=
                rfl
              rw [hState]
              cases DrawWalk.items s block
                (of first.2 stream v) items <;>
                rfl
      | barline measure =>
          have hState :
              { of pen stream v with
                pen := (of pen stream v).pen.passBarline s
                stream := (of pen stream v).stream.passBarline.2
                memory := (of pen stream v).memory.endMeasure } =
                of (pen.passBarline s) stream.passBarline.2
                    { v with
                      memory := v.memory.endMeasure } :=
                  rfl
          rw [DrawWalk.items, PitchStream.cues,
            Voicing.cues, Pen.cues, hState, ← ih]
          cases DrawWalk.items s block _ items <;> rfl
      | beat b =>
          rw [DrawWalk.items, PitchStream.cues,
            Voicing.cues, Pen.cues, beat_eq]
          cases Pen.drawBeat s block pen b _ with
          | error e =>
              rfl
          | ok first =>
              simp only [Outcome.map_ok, Outcome.ok_bind, ← ih]
              cases DrawWalk.items s block _ items <;> rfl

/- In one pass or from voices, a block is drawn alike. -/
theorem layout_eq
    (index : Int)
    (b : Block) :
    layout s index b = b.layout s index := by
  have hStart :
      ({ pen := { x := s.baseMargin },
         stream := b.pitchStream } :
          DrawWalk K) =
        of { x := s.baseMargin } b.pitchStream {} :=
    rfl
  rw [layout, Block.layout, Block.voices, Block.cues,
    ← items_eq, hStart]
  cases items s index
    (of { x := s.baseMargin } b.pitchStream {})
    b.lyricStream <;>
    rfl

end DrawWalk

end LyricScore
