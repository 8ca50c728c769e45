import LyricScore.Performance.Action
import LyricScore.Proofs.Outcome
import LyricScore.Proofs.Stream.Segment

/-
  This file plays a score in one pass.  The walk takes from
  the pitch stream of a block itself, and has a key and a
  melody of its own for each block.  It does what
  `Score.actions` does, which finds out first what every
  attack sounds.

  Key definitions include:
    * `PlayWalk`
    * `PlayWalk.attack`
    * `PlayWalk.items`
    * `PlayWalk.actions`

  Key theorems include:
    * `PlayWalk.attack_eq`
    * `PlayWalk.slots_eq`
    * `PlayWalk.items_eq`
    * `PlayWalk.actions_eq`
-/

namespace LyricScore

------------------------------------------------------------
-- Walks
------------------------------------------------------------

/-
  The player, what is left of the pitch stream,
  the key and the melody.
-/
structure PlayWalk where
  player : Player
  stream : PitchStream
  memory : KeyMemory := {}
  melody : Melody := {}

namespace PlayWalk

/-
  A directive on the way to an attack: the key, the
  octave on the center line or the loudness changes,
  or a program is changed to.
-/
def follow
    (w : PlayWalk)
    (d : Directive) : List Action × PlayWalk :=
  match d.order with
  | .key accidental count =>
      ([],
        { w with
          memory := w.memory.setKey accidental count })
  | .referenceOctave octave =>
    ([],
      { w with
        melody := w.melody.setReferenceOctave octave })
  | .instrument program =>
      ([w.player.act
          (.program (clamp 0 127 (program - 1)))], w)
  | .volume level =>
    ([],
      { w with
        player :=
          { w.player with velocity := clamp 0 100 level } })
  | _ => ([], w)

def followAll
    (w : PlayWalk) : List Directive → List Action × PlayWalk
  | [] => ([], w)
  | d :: ds =>
    let (first, w) := w.follow d
    let (more, w) := followAll w ds
    (first ++ more, w)

/- A tone, with the accidental that applies to it now. -/
def tone
    (w : PlayWalk)
    (t : WrittenTone) :
      Except NumeralError (Action × PlayWalk) := do
  let (accidental, memory) :=
    w.memory.resolve t.tone.letter.name t.tone.octave
      t.accidental
  let (struck, player) ← w.player.strike ⟨t.tone, accidental⟩
  return (struck, { w with player := player, memory := memory })

def tones
    (w : PlayWalk) :
      List WrittenTone →
        Except NumeralError (List Action × PlayWalk)
  | [] => .ok ([], w)
  | t :: ts => do
    let (first, w) ← w.tone t
    let (more, w) ← tones w ts
    return (first :: more, w)

/-
  An attack takes from the pitch stream, releases what sounds,
  and strikes what it found.
-/
def attack
    (w : PlayWalk) :
      Except NumeralError (List Action × PlayWalk) := do
  let (delivery, stream) := w.stream.attack
  let (directed, w) :=
    followAll { w with stream := stream } delivery.handed
  let (released, player) := w.player.silence
  let w := { w with player := player }
  match delivery.element with
  | none => return (directed ++ released, w)
  | some (.pitch p) =>
    let (tone, melody) := w.melody.pitch p.letter p.shift
    let (struck, w) ←
      PlayWalk.tone { w with melody := melody }
        ⟨tone, p.accidental⟩
    return (directed ++ released ++ [struck], w)
  | some (.chord c) =>
    let (written, melody) := w.melody.chord c.pitches
    let (struck, w) ← tones { w with melody := melody } written
    return (directed ++ released ++ struck, w)

/-
  A subdivision; a silence releases, and
  a hyphen lets sound.
-/
def sound
    (w : PlayWalk)
    (sub : Subdivision) :
      Except NumeralError (List Action × PlayWalk) :=
  if sub.IsAttack then w.attack
  else if sub.IsSilence then
    .ok
      (w.player.silence.1,
        { w with player := w.player.silence.2 })
  else .ok ([], w)

/- Subdivisions that last `step` ticks each in turn. -/
def slots
    (w : PlayWalk)
    (step : Rat) :
      List Subdivision →
        Except NumeralError (List Action × PlayWalk)
  | [] => .ok ([], w)
  | sub :: subs => do
    let (first, w) ← w.sound sub
    let (more, w) ←
      slots { w with player := w.player.wait step }
        step subs
    return (first ++ more, w)

def beat
    (ticksPerQuarter : Int)
    (w : PlayWalk)
    (b : Beat) :
      Except NumeralError (List Action × PlayWalk) := do
  let (directed, player) :=
    w.player.followAllLyrics b.directives
  let w := { w with player := player }
  if b.subdivisions = [] then .ok (directed, w)
  else do
    let ticks ← b.ticks w.player.unit ticksPerQuarter
    let (played, w) ←
      w.slots (ticks / b.subdivisions.length) b.subdivisions
    return (directed ++ played, w)

/- The items of a lyric stream in turn. -/
def items
    (ticksPerQuarter : Int)
    (w : PlayWalk) :
      List LyricItem →
        Except NumeralError (List Action × PlayWalk)
  | [] => .ok ([], w)
  | .directive d :: rest => do
    let (first, player) := w.player.followLyrics d
    let (more, w) ←
      items ticksPerQuarter { w with player := player } rest
    return (first ++ more, w)
  | .barline _ :: rest =>
    items ticksPerQuarter
      { w with
        stream := w.stream.passBarline.2,
        memory := w.memory.endMeasure } rest
  | .beat b :: rest => do
    let (first, w) ← w.beat ticksPerQuarter b
    let (more, w) ← items ticksPerQuarter w rest
    return (first ++ more, w)

/-
  Blocks in turn: the player goes on, all else begins anew.
-/
def blocks
    (ticksPerQuarter : Int)
    (p : Player) :
      List Block →
        Except NumeralError (List Action × Player)
  | [] => .ok ([], p)
  | b :: rest => do
    let (first, w) ←
      items ticksPerQuarter
        { player := p, stream := b.pitchStream }
        b.lyricStream
    let (more, p) ← blocks ticksPerQuarter w.player rest
    return (first ++ more, p)

/- Everything that playing a score in one pass does. -/
def actions
    (settings : AudioSettings)
    (s : Score) : Except NumeralError (List Action) := do
  let p := Player.start settings
  let opening :=
    [p.act (.tempo p.tempo),
      p.act (.program settings.defaultInstrument)]
  let (played, p) ← blocks settings.ticksPerQuarter p s.blocks
  return opening ++ played ++ p.silence.1

------------------------------------------------------------
-- Walks and voices
------------------------------------------------------------

/- A walk with the key and the melody of a block. -/
def of
    (p : Player)
    (stream : PitchStream)
    (v : Voicing) : PlayWalk :=
  ⟨p, stream, v.memory, v.melody⟩

variable (p : Player)
variable (stream : PitchStream)
variable (v : Voicing)

/-
  The walk follows a pitch directive as the player and the
  voicing do apart.
-/
theorem follow_eq
    (d : Directive) :
    (of p stream v).follow d =
      ((p.followPitches d).1,
        of (p.followPitches d).2 stream (v.follow d)) := by
  cases hOrder : d.order <;>
    simp [follow, Player.followPitches, Voicing.follow, of,
      hOrder]

theorem followAll_eq
    (ds : List Directive) :
    (of p stream v).followAll ds =
      ((p.followAllPitches ds).1,
        of (p.followAllPitches ds).2 stream
          (ds.foldl Voicing.follow v)) := by
  induction ds generalizing p v with
  | nil =>
      rfl
  | cons d ds ih =>
      simp only [followAll, Player.followAllPitches,
        follow_eq, ih, List.foldl_cons]

/- The walk strikes the tones that the voicing spells. -/
theorem tones_eq
    (ts : List WrittenTone) :
    (of p stream v).tones ts =
      (p.strikeAll (Voicing.spellTones v.memory ts).1).map
        fun (done, q) =>
        (done,
          of q stream
            ⟨(Voicing.spellTones v.memory ts).2,
              v.melody⟩) := by
  induction ts generalizing p v with
  | nil =>
      rfl
  | cons t ts ih =>
      simp only [tones, tone, Voicing.spellTones,
        Player.strikeAll, of]
      cases p.strike
        ⟨t.tone,
          (v.memory.resolve t.tone.letter.name t.tone.octave
            t.accidental).1⟩ with
      | error e =>
          rfl
      | ok first =>
          have hRest :=
            ih first.2
              ⟨(v.memory.resolve t.tone.letter.name
                  t.tone.octave t.accidental).2, v.melody⟩
          simp only [of] at hRest
          simp only [Outcome.ok_bind, Outcome.pure_eq, hRest]
          generalize Player.strikeAll _ _ = struck
          cases struck <;> rfl

/-
  An attack does with its player what the
  voices of its block tell.
-/
theorem attack_eq :
    (of p stream v).attack =
      (p.attack (v.attack stream.attack.1).1).map
        fun (done, q) =>
        (done,
          of q stream.attack.2
            (v.attack stream.attack.1).2) := by
  have hTaken :
      { of p stream v with stream := stream.attack.2 } =
        of p stream.attack.2 v :=
    rfl
  have hStream : (of p stream v).stream = stream := rfl
  simp only [attack, hStream, hTaken, followAll_eq,
    Voicing.attack]
  generalize stream.attack.1 = delivery
  generalize delivery.handed.foldl Voicing.follow v = w
  cases delivery.element with
  | none =>
      simp [Player.attack, Player.strikeAll, of]
  | some element =>
      cases element with
      | pitch pitch =>
          simp only [Player.attack, Voicing.sound,
            Voicing.tones, Voicing.spellTones,
            Player.strikeAll, tone, of]
          generalize Player.strike _ _ = struck
          cases struck <;> simp
      | chord c =>
          have hTones (q : Player) :=
            tones_eq q stream.attack.2
              ⟨w.memory, (w.melody.chord c.pitches).2⟩
              (w.melody.chord c.pitches).1
          simp only [of] at hTones
          simp only [Player.attack, Voicing.sound,
            Voicing.tones, of, hTones]
          generalize Player.strikeAll _ _ = struck
          cases struck <;> rfl

/-
  The walk sounds a subdivision as the player does with what
  the voicing made of its delivery.
-/
theorem sound_eq
    (sub : Subdivision) :
    let delivery :=
      if sub.IsAttack then stream.attack else ({}, stream)
    (of p stream v).sound sub =
      (p.sound ⟨sub, (v.attack delivery.1).1⟩).map
        fun (done, q) =>
        (done, of q delivery.2 (v.attack delivery.1).2) := by
  intro delivery
  by_cases hAttack : sub.IsAttack
  · simp only [sound, Player.sound, delivery,
      if_pos hAttack, attack_eq]
  · simp only [sound, Player.sound, delivery, if_neg hAttack]
    split <;> rfl

/-
  The walk plays slots as the player does with what the
  voicing makes of the filled slots.
-/
theorem slots_eq
    (step : Rat)
    (subs : List Subdivision) :
    (of p stream v).slots step subs =
      (p.slots step (v.slots (stream.fill subs).1).1).map
        fun (done, q) =>
        (done,
          of q (stream.fill subs).2
            (v.slots (stream.fill subs).1).2) := by
  induction subs generalizing p stream v with
  | nil =>
      rfl
  | cons sub subs ih =>
      rw [slots, sound_eq]
      simp only [PitchStream.fill, Voicing.slots, Player.slots]
      generalize
        (if sub.IsAttack then
            stream.attack
          else ({}, stream)) = delivery
      cases p.sound ⟨sub, (v.attack delivery.1).1⟩ with
      | error e =>
          rfl
      | ok first =>
          have hWait :
              { of first.2 delivery.2
                  (v.attack delivery.1).2 with
                player :=
                  (of first.2 delivery.2
                    (v.attack
                      delivery.1).2).player.wait step } =
                of (first.2.wait step) delivery.2
                    (v.attack delivery.1).2 :=
                  rfl
          simp only [Outcome.map_ok, Outcome.ok_bind, hWait, ih]
          generalize Player.slots _ _ _ = played
          cases played <;> rfl

theorem length_slots_fill
    (subs : List Subdivision) :
    (v.slots (stream.fill subs).1).1.length = subs.length := by
  have hSlots :=
    congrArg List.length
      (Voicing.map_delivery_slots v (stream.fill subs).1)
  have hFill :=
    congrArg List.length
      (PitchStream.subdivisions_fill stream subs)
  rw [List.length_map] at hSlots hFill
  rw [hSlots, hFill]

/-
  The walk plays a beat as the player does with what the
  voicing makes of its filled slots.
-/
theorem beat_eq
    (ticksPerQuarter : Int)
    (b : Beat) :
    (of p stream v).beat ticksPerQuarter b =
      (p.beat ticksPerQuarter b
        (v.slots (stream.fill b.subdivisions).1).1).map
        fun (done, q) =>
          (done,
            of q (stream.fill b.subdivisions).2
              (v.slots (stream.fill b.subdivisions).1).2) := by
  have hPlayer : (of p stream v).player = p := rfl
  rw [beat, Player.beat, hPlayer, length_slots_fill]
  generalize p.followAllLyrics b.directives = directed
  have hState :
      { of p stream v with player := directed.2 } =
        of directed.2 stream v :=
    rfl
  simp only [hState]
  cases hSubdivisions : b.subdivisions with
  | nil =>
      rfl
  | cons sub subs =>
      have hRendered :
          (v.slots (stream.fill (sub :: subs)).1).1 ≠
            [] := by
        simp [PitchStream.fill, Voicing.slots]
      simp only [if_neg hRendered, reduceCtorEq, if_false,
        slots_eq]
      cases b.ticks directed.2.unit ticksPerQuarter with
      | error e =>
          rfl
      | ok ticks =>
          simp only [Outcome.ok_bind]
          generalize Player.slots _ _ _ = played
          cases played <;> rfl

/-
  A walk does with its player what the
  cues of its block tell.
-/
theorem items_eq
    (ticksPerQuarter : Int)
    (items : List LyricItem) :
    ((of p stream v).items ticksPerQuarter items).map
        (fun (done, w) => (done, w.player)) =
      p.cues ticksPerQuarter
        (v.cues (stream.cues items)) := by
  induction items generalizing p stream v with
  | nil =>
      rfl
  | cons item items ih =>
      cases item with
      | directive d =>
          have hState (q : Player) :
              { of p stream v with player := q } =
                of q stream v :=
            rfl
          have hPlayer : (of p stream v).player = p := rfl
          simp only [PlayWalk.items, PitchStream.cues,
            Voicing.cues, Player.cues, hPlayer, hState,
            ← ih]
          cases PlayWalk.items ticksPerQuarter
            (of (p.followLyrics d).2 stream v) items <;>
            rfl
      | barline measure =>
          rw [PitchStream.cues, Voicing.cues, Player.cues, ← ih]
          rfl
      | beat b =>
          rw [PlayWalk.items, PitchStream.cues,
            Voicing.cues, Player.cues, beat_eq]
          generalize p.beat ticksPerQuarter b _ = first
          cases first with
          | error e =>
              rfl
          | ok first =>
              simp only [Outcome.map_ok, Outcome.ok_bind, ← ih]
              cases PlayWalk.items ticksPerQuarter _
                items <;>
                rfl

/- The walk plays blocks as the player does. -/
theorem blocks_eq
    (ticksPerQuarter : Int)
    (bs : List Block) :
    blocks ticksPerQuarter p bs =
      p.blocks ticksPerQuarter bs := by
  induction bs generalizing p with
  | nil =>
      rfl
  | cons b bs ih =>
      have hStart :
          ({ player := p, stream := b.pitchStream } :
              PlayWalk) =
            of p b.pitchStream {} :=
        rfl
      rw [blocks, Player.blocks, Block.voices, Block.cues,
        ← items_eq, hStart]
      cases items ticksPerQuarter (of p b.pitchStream {})
        b.lyricStream with
      | error e =>
          rfl
      | ok first =>
          simp only [Outcome.ok_bind, Outcome.map_ok, ih]

/- In one pass or from voices, a score is played alike. -/
theorem actions_eq
    (settings : AudioSettings)
    (s : Score) :
    actions settings s = s.actions settings := by
  rw [actions, Score.actions]
  simp only [blocks_eq]

end PlayWalk

end LyricScore
