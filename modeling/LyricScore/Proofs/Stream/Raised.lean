import Mathlib.Algebra.Group.Basic
import Mathlib.Tactic.Ring
import LyricScore.Proofs.Pitch.KeyMemory
import LyricScore.Proofs.Stream.Taken

/-
  This file shows that a block is transposed by octaves if the
  first pitch that is resolved in it is: each tone is found
  from the one before, and the accidentals of a measure are
  kept under the names of tones that have all moved alike.

  Key definitions include:
    * `Sounding.raise`, `Voice.raise`
    * `Block.raise`
    * `KeyMemory.RaisedBy`, `Voicing.RaisedBy`
    * `Attack.RaisedBy`, `Slot.RaisedBy`, `Cue.RaisedBy`
    * `Voicing.Beside`

  Key theorems include:
    * `Voice.midiNumber_raise`
    * `KeyMemory.RaisedBy.resolve`
    * `Voicing.RaisedBy.sound`
    * `Voicing.raisedBy_sound_raise`
    * `Voicing.Beside.attack`
    * `Block.FirstResolved.voices_raise`
-/

namespace LyricScore

------------------------------------------------------------
-- Raised by octaves
------------------------------------------------------------

/- A pitch with so many more octaves of shift. -/
def Pitch.raise
    (d : Int)
    (p : Pitch) : Pitch :=
  { p with shift := p.shift + d }

/-
  A pitch, or a chord by its first pitch, with so many more
  octaves of shift.
-/
def Sounding.raise
    (d : Int) : Sounding → Sounding
  | pitch p => .pitch (p.raise d)
  | chord c =>
      .chord
        { c with
          pitches := c.pitches.modifyHead (Pitch.raise d) }

/-
  A tone with its written accidental, so
  many octaves higher.
-/
def WrittenTone.raise
    (d : Int)
    (t : WrittenTone) : WrittenTone :=
  { t with tone := t.tone.shift d }

/-
  A voice so many octaves higher, with the
  accidental that it has.
-/
def Voice.raise
    (d : Int)
    (v : Voice) : Voice :=
  { v with tone := v.tone.shift d }

/- A block with a pitch or a chord in a place of it raised. -/
def Block.raise
    (d : Int)
    (b : Block)
    (place : SoundingPlace)
    (x : Sounding) : Block :=
  { b with pitchLines := place.plug (x.raise d) }

/- An octave has twelve semitones. -/
theorem Voice.midiNumber_raise
    (d : Int)
    (v : Voice) :
    (v.raise d).midiNumber = v.midiNumber + 12 * d := by
  simp only [midiNumber, raise, Tone.shift,
    LyricScore.midiNumber]
  ring

@[simp] theorem Voice.accidental_raise
    (d : Int)
    (v : Voice) :
    (v.raise d).accidental = v.accidental := rfl

@[simp] theorem Voice.raise_zero
    (v : Voice) :
    v.raise 0 = v := by
  simp [raise, Tone.shift]

namespace Tone

theorem shift_add
    (t : Tone)
    (m n : Int) :
    t.shift (m + n) = (t.shift m).shift n := by
  simp [shift, Int.add_assoc]

theorem shift_comm
    (t : Tone)
    (m n : Int) :
    (t.shift m).shift n = (t.shift n).shift m := by
  rw [← shift_add, ← shift_add, Int.add_comm]

/- The nearest tone moves with the tone before it. -/
theorem nearest_shift
    (t : Tone)
    (d : Int)
    (l : Letter) :
    (t.shift d).nearest l = (t.nearest l).shift d := by
  have hLetter : (t.shift d).letter = t.letter := rfl
  have hOctave (step : Int) :
      (t.shift d).octave + step = t.octave + step + d := by
    simp only [shift]
    omega
  by_cases hUp : (l.index : Int) - t.letter.index > 3
  · rw [nearest, nearest, hLetter, if_pos hUp, if_pos hUp,
      Int.sub_eq_add_neg, hOctave]
    rfl
  · by_cases hDown : (l.index : Int) - t.letter.index < -3
    · rw [nearest, nearest, hLetter, if_neg hUp, if_neg hUp,
        if_pos hDown, if_pos hDown, hOctave]
      rfl
    · rw [nearest, nearest, hLetter, if_neg hUp, if_neg hUp,
        if_neg hDown, if_neg hDown]
      rfl

/- The next higher tone moves with the tone below it. -/
theorem above_shift
    (t : Tone)
    (d : Int)
    (l : Letter) :
    (t.shift d).above l = (t.above l).shift d := by
  have hLetter : (t.shift d).letter = t.letter := rfl
  have hOctave : (t.shift d).octave + 1 = t.octave + 1 + d := by
    simp only [shift]
    omega
  by_cases hAbove : l.index > t.letter.index
  · rw [above, above, hLetter, if_pos hAbove, if_pos hAbove]
    rfl
  · rw [above, above, hLetter, if_neg hAbove, if_neg hAbove,
      hOctave]
    rfl

end Tone

------------------------------------------------------------
-- Accidentals of a measure
------------------------------------------------------------

namespace KeyMemory

/-
  A memory that holds for each tone what another holds for
  the tone octaves below.
-/
structure RaisedBy
    (d : Int)
    (m m' : KeyMemory) : Prop where
  signature : m'.signature = m.signature
  marks :
    ∀ (l : Letter) (o : Int),
      m'.marks.lookup (toneName l.name (o + d)) =
        m.marks.lookup (toneName l.name o)

variable {d : Int}
variable {m m' : KeyMemory}

/- A memory without marks is raised by any octaves. -/
theorem raisedBy_of_marks_eq_nil
    (hMarks : m.marks = []) :
    m.RaisedBy d m :=
  ⟨rfl, fun l o => by simp [hMarks]⟩

/-
  The same accidental applies to a tone
  and to the raised one.
-/
theorem RaisedBy.resolve
    (hRaised : m.RaisedBy d m')
    (l : Letter)
    (o : Int)
    (written : Option Accidental) :
    (m'.resolve l.name (o + d) written).1 =
        (m.resolve l.name o written).1 ∧
      (m.resolve l.name o written).2.RaisedBy d
        (m'.resolve l.name (o + d) written).2 := by
  simp only [KeyMemory.resolve]
  cases explicit? written with
  | none =>
      refine ⟨?_, hRaised⟩
      simp only
      rw [hRaised.marks, hRaised.signature]
  | some a =>
      refine ⟨rfl, hRaised.signature, ?_⟩
      intro other octave
      have hSame :
          (toneName other.name (octave + d) ==
              toneName l.name (o + d)) =
            (toneName other.name octave ==
              toneName l.name o) := by
        rw [Bool.eq_iff_iff, beq_iff_eq, beq_iff_eq,
          toneName_inj, toneName_inj, add_left_inj]
      simp only [List.lookup_cons, hSame, hRaised.marks]

/- A raised memory stays so if the key is set. -/
theorem RaisedBy.setKey
    (hRaised : m.RaisedBy d m')
    (accidental : Option Accidental)
    (count : Int) :
    (m.setKey accidental count).RaisedBy d
      (m'.setKey accidental count) :=
  ⟨rfl, hRaised.marks⟩

theorem RaisedBy.endMeasure
    (hRaised : m.RaisedBy d m') :
    m.endMeasure.RaisedBy d m'.endMeasure :=
  ⟨hRaised.signature, fun _ _ => rfl⟩

end KeyMemory

------------------------------------------------------------
-- Melodies
------------------------------------------------------------

namespace Melody

/- A melody that has come to a tone so many octaves higher. -/
def raise
    (d : Int)
    (m : Melody) : Melody :=
  { m with previous := m.previous.shift d }

/-
  A chord climbs as many octaves higher from
  a tone so much higher.
-/
theorem climb_shift
    (d : Int)
    (lower : Tone)
    (ps : List Pitch) :
    climb (lower.shift d) ps =
      (climb lower ps).map (WrittenTone.raise d) := by
  induction ps generalizing lower with
  | nil =>
      rfl
  | cons p ps ih =>
      simp only [climb, List.map_cons, WrittenTone.raise,
        Tone.above_shift, Tone.shift_comm _ d, ih]

/- A chord over a first tone that is raised is raised. -/
theorem chord_of_shift
    {d : Int}
    {m m' : Melody}
    {p p' : Pitch}
    (hReference : m'.referenceOctave = m.referenceOctave)
    (hAccidental : p'.accidental = p.accidental)
    (hFirst :
      (m'.previous.nearest p'.letter).shift p'.shift =
        ((m.previous.nearest p.letter).shift p.shift).shift d)
    (ps : List Pitch) :
    m'.chord (p' :: ps) =
      ((m.chord (p :: ps)).1.map (WrittenTone.raise d),
        (m.chord (p :: ps)).2.raise d) := by
  simp only [chord, hFirst, hAccidental, raise, hReference]
  generalize (m.previous.nearest p.letter).shift p.shift = first
  have hTones :
      (⟨first.shift d, p.accidental⟩ ::
          climb (first.shift d) ps) =
        (⟨first, p.accidental⟩ :: climb first ps).map
          (WrittenTone.raise d) := by
    rw [climb_shift]
    rfl
  rw [hTones, List.getLast?_map]
  cases
    (⟨first, p.accidental⟩ :: climb first ps).getLast? <;>
    rfl

end Melody

namespace Voicing

/-
  Tones found from a tone octaves higher are octaves higher.
-/
theorem tones_raise_melody
    (d : Int)
    (m : Melody)
    (x : Sounding) :
    tones (m.raise d) x =
      ((tones m x).1.map (WrittenTone.raise d),
        (tones m x).2.raise d) := by
  have hNearest (p : Pitch) :
      ((m.raise d).previous.nearest p.letter).shift
          p.shift =
        ((m.previous.nearest p.letter).shift p.shift).shift
          d := by
    rw [Melody.raise, Tone.nearest_shift, Tone.shift_comm]
  cases x with
  | pitch p =>
      simp only [tones, Melody.pitch, hNearest]
      rfl
  | chord c =>
      cases hPitches : c.pitches with
      | nil =>
          simp [tones, Melody.chord, hPitches]
      | cons p ps =>
          simp only [tones, hPitches]
          exact @Melody.chord_of_shift d m (m.raise d) p p
            rfl rfl (hNearest p) ps

/- The tones of what is raised are octaves higher. -/
theorem tones_raise
    (d : Int)
    (m : Melody)
    {x : Sounding}
    (hPitches : x.pitches ≠ []) :
    tones m (x.raise d) =
      ((tones m x).1.map (WrittenTone.raise d),
        (tones m x).2.raise d) := by
  have hNearest (p : Pitch) :
      (m.previous.nearest (p.raise d).letter).shift
          (p.raise d).shift =
        ((m.previous.nearest p.letter).shift p.shift).shift
          d :=
    Tone.shift_add _ _ _
  cases x with
  | pitch p =>
      simp only [Sounding.raise, tones, Melody.pitch, hNearest]
      rfl
  | chord c =>
      rcases List.exists_cons_of_ne_nil hPitches with
        ⟨p, ps, hChord⟩
      simp only [Sounding.pitches] at hChord
      simp only [Sounding.raise, tones, hChord,
        List.modifyHead_cons]
      exact @Melody.chord_of_shift d m m p (p.raise d) rfl
        rfl (hNearest p) ps

/- Raised tones are spelled with the same accidentals. -/
theorem spellTones_raise
    {d : Int}
    {m m' : KeyMemory}
    (hRaised : m.RaisedBy d m')
    (ts : List WrittenTone) :
    (spellTones m' (ts.map (WrittenTone.raise d))).1 =
        (spellTones m ts).1.map (Voice.raise d) ∧
      (spellTones m ts).2.RaisedBy d
        (spellTones m' (ts.map (WrittenTone.raise d))).2 := by
  induction ts generalizing m m' with
  | nil =>
      exact ⟨rfl, hRaised⟩
  | cons t ts ih =>
      rcases hRaised.resolve t.tone.letter t.tone.octave
        t.accidental with
        ⟨hAccidental, hNext⟩
      rcases ih hNext with ⟨hVoices, hLast⟩
      constructor
      · simp only [List.map_cons, spellTones,
          WrittenTone.raise, Tone.shift] at hVoices ⊢
        rw [hAccidental, hVoices]
        rfl
      · exact hLast

------------------------------------------------------------
-- Voicings
------------------------------------------------------------

/-
  A voicing that has come to the same, so
  many octaves higher.
-/
structure RaisedBy
    (d : Int)
    (v v' : Voicing) : Prop where
  memory : v.memory.RaisedBy d v'.memory
  melody : v'.melody = v.melody.raise d

variable {d : Int}
variable {v v' : Voicing}

/- A raised voicing stays so if a directive is followed. -/
theorem RaisedBy.follow
    (hRaised : v.RaisedBy d v')
    (directive : Directive) :
    (v.follow directive).RaisedBy d (v'.follow directive) := by
  cases hOrder : directive.order with
  | key accidental count =>
      simp only [Voicing.follow, hOrder]
      exact ⟨hRaised.memory.setKey accidental count,
        hRaised.melody⟩
  | referenceOctave octave =>
      simp only [Voicing.follow, hOrder]
      refine ⟨hRaised.memory, ?_⟩
      simp only [hRaised.melody]
      rfl
  | _ =>
      simp only [Voicing.follow, hOrder]
      exact hRaised

theorem RaisedBy.foldl_follow
    (hRaised : v.RaisedBy d v')
    (ds : List Directive) :
    (ds.foldl Voicing.follow v).RaisedBy d
      (ds.foldl Voicing.follow v') := by
  induction ds generalizing v v' with
  | nil =>
      exact hRaised
  | cons directive ds ih =>
      exact ih (hRaised.follow directive)

/-
  From octaves higher, the same element
  sounds octaves higher.
-/
theorem RaisedBy.sound
    (hRaised : v.RaisedBy d v')
    (x : Sounding) :
    (v'.sound x).1 = (v.sound x).1.map (Voice.raise d) ∧
      (v.sound x).2.RaisedBy d (v'.sound x).2 := by
  rcases spellTones_raise hRaised.memory
      (tones v.melody x).1 with
    ⟨hVoices, hMemory⟩
  simp only [Voicing.sound, hRaised.melody, tones_raise_melody]
  exact ⟨hVoices, hMemory, rfl⟩

/-
  Where no accidental is kept yet, a raised element sounds
  octaves higher.
-/
theorem raisedBy_sound_raise
    (hMarks : v.memory.marks = [])
    {x : Sounding}
    (hPitches : x.pitches ≠ []) :
    (v.sound (x.raise d)).1 =
        (v.sound x).1.map (Voice.raise d) ∧
      (v.sound x).2.RaisedBy d (v.sound (x.raise d)).2 := by
  rcases spellTones_raise
      (KeyMemory.raisedBy_of_marks_eq_nil hMarks)
      (tones v.melody x).1 with
    ⟨hVoices, hMemory⟩
  simp only [Voicing.sound, tones_raise d v.melody hPitches]
  exact ⟨hVoices, hMemory, rfl⟩

/- Directives leave the marks of a measure. -/
theorem marks_follow
    (v : Voicing)
    (directive : Directive) :
    (v.follow directive).memory.marks = v.memory.marks := by
  cases hOrder : directive.order <;>
    simp [follow, hOrder, KeyMemory.setKey]

theorem marks_foldl_follow
    (v : Voicing)
    (ds : List Directive) :
    (ds.foldl follow v).memory.marks = v.memory.marks := by
  induction ds generalizing v with
  | nil =>
      rfl
  | cons directive ds ih =>
      rw [List.foldl_cons, ih, marks_follow]

/- What has no pitch leaves a voicing as it is. -/
theorem sound_of_no_pitches
    (v : Voicing)
    {x : Sounding}
    (hPitches : x.pitches = []) :
    v.sound x = ([], v) := by
  cases x with
  | pitch p =>
      cases hPitches
  | chord c =>
      simp only [Sounding.pitches] at hPitches
      simp [sound, tones, hPitches, Melody.chord, spellTones]

end Voicing

------------------------------------------------------------
-- Raised cues
------------------------------------------------------------

/- An attack that sounds the same, so many octaves higher. -/
structure Attack.RaisedBy
    (d : Int)
    (a a' : Attack) : Prop where
  handed : a'.delivery.handed = a.delivery.handed
  voices : a'.voices = a.voices.map (Voice.raise d)

structure Slot.RaisedBy
    (d : Int)
    (s s' : Slot Attack) : Prop where
  subdivision : s'.subdivision = s.subdivision
  content : s.content.RaisedBy d s'.content

inductive Cue.RaisedBy
    (d : Int) : Cue Attack → Cue Attack → Prop where
  | directive (directive : Directive) :
      RaisedBy d (.directive directive) (.directive directive)
  | barline (measure : Nat) :
      RaisedBy d (.barline measure) (.barline measure)
  | beat (b : Beat)
      {slots slots' : List (Slot Attack)}
      (hSlots : List.Forall₂ (Slot.RaisedBy d) slots slots') :
      RaisedBy d (.beat b slots) (.beat b slots')

namespace Voicing

/-
  Two runs through a block, each with what is left of its pitch
  stream: in the second the pitch or chord `x` is raised, which
  stands before `after`.  As long as `x` lies ahead the runs
  are the same, no accidental has been kept, and `x` is the
  first with a pitch that is taken; `later` is all that is
  taken from here on.  Behind `x`, or if it was never met, the
  second run is so many octaves higher.
-/
inductive Beside
    (d : Int)
    (x : Sounding)
    (after : PitchStream)
    (later : List (Sounding × PitchStream)) :
    PitchStream × Voicing → PitchStream × Voicing → Prop where
  | ahead (before : PitchStream)
      (v : Voicing)
      (hMarks : v.memory.marks = [])
      (hFirst :
        later.find? (fun t => t.1.pitches ≠ []) =
          some (x, after)) :
      Beside d x after later (before ++ .sounding x :: after, v)
        (before ++ .sounding (x.raise d) :: after, v)
  | behind (s : PitchStream)
      {v v' : Voicing}
      (hRaised : v.RaisedBy d v') :
      Beside d x after later (s, v) (s, v')

variable {d : Int}
variable {x : Sounding}
variable {after : PitchStream}

/- A raised voicing makes raised voices of an attack. -/
theorem RaisedBy.attack
    {v v' : Voicing}
    (hRaised : v.RaisedBy d v')
    (delivery : Delivery) :
    (v.attack delivery).1.RaisedBy d
        (v'.attack delivery).1 ∧
      (v.attack delivery).2.RaisedBy d
        (v'.attack delivery).2 := by
  have hFollowed := hRaised.foldl_follow delivery.handed
  simp only [Voicing.attack]
  cases delivery.element with
  | none =>
      exact ⟨⟨rfl, rfl⟩, hFollowed⟩
  | some y =>
      rcases hFollowed.sound y with ⟨hVoices, hNext⟩
      exact ⟨⟨rfl, hVoices⟩, hNext⟩

/-
  An attack without a pitch follows its directives, and
  sounds nothing.
-/
theorem attack_of_no_pitches
    (v : Voicing)
    {delivery : Delivery}
    (hElement : ∀ y ∈ delivery.element, y.pitches = []) :
    (v.attack delivery).1.voices = [] ∧
      (v.attack delivery).2 =
        delivery.handed.foldl follow v := by
  simp only [attack]
  cases hTaken : delivery.element with
  | none =>
      exact ⟨rfl, rfl⟩
  | some y =>
      have hSound :=
        sound_of_no_pitches (delivery.handed.foldl follow v)
          (hElement y hTaken)
      simp only [hSound, and_self]

/-
  An attack keeps two runs beside each other.  If it takes `x`,
  the second run is octaves higher from here on.
-/
theorem Beside.attack
    {later : List (Sounding × PitchStream)}
    {s s' : PitchStream}
    {v v' : Voicing}
    (hBeside :
      Beside d x after (s.take? ++ later) (s, v) (s', v')) :
    (v.attack s.attack.1).1.RaisedBy d
        (v'.attack s'.attack.1).1 ∧
      Beside d x after later
        (s.attack.2, (v.attack s.attack.1).2)
        (s'.attack.2, (v'.attack s'.attack.1).2) := by
  cases hBeside with
  | behind s hRaised =>
      rcases hRaised.attack s.attack.1 with ⟨hAttack, hNext⟩
      exact ⟨hAttack, .behind _ hNext⟩
  | ahead before v hMarks hFirst =>
      rcases PitchStream.attack_hole before after with
        ⟨handed, hTakes⟩ | ⟨delivery, left, hLeaves⟩
      · have hPitches : x.pitches ≠ [] := by
          simpa using List.find?_some hFirst
        have hFollowed :
            (handed.foldl follow v).memory.marks = [] := by
          rw [marks_foldl_follow, hMarks]
        rcases raisedBy_sound_raise hFollowed hPitches with
          ⟨hVoices, hNext⟩
        simp only [hTakes, Voicing.attack]
        exact ⟨⟨rfl, hVoices⟩, .behind _ hNext⟩
      · have hTake :
            PitchStream.take?
                (before ++ .sounding x :: after) =
              delivery.element.toList.map fun y =>
                (y, left ++ .sounding x :: after) := by
          rw [PitchStream.take?, hLeaves]
        rw [hTake, List.find?_append] at hFirst
        have hNothing :
            ∀ y ∈ delivery.element, y.pitches = [] := by
          intro y hElement
          rw [Option.mem_def] at hElement
          by_contra hSome
          have hTaken :
              (y, left ++ PitchItem.sounding x :: after) =
                (x, after) := by
            simpa [hElement, hSome] using hFirst
          have hLength := congrArg (fun t => t.2.length) hTaken
          simp only [List.length_append,
            List.length_cons] at hLength
          omega
        have hNone :
            (delivery.element.toList.map fun y =>
                (y, left ++ PitchItem.sounding x :: after)).find?
              (fun t => t.1.pitches ≠ []) = none := by
          cases hElement : delivery.element with
          | none =>
              rfl
          | some y =>
              simp [hNothing y hElement]
        rw [hNone, Option.none_or] at hFirst
        rcases attack_of_no_pitches v hNothing with
          ⟨hVoices, hNext⟩
        simp only [hLeaves, hNext]
        refine ⟨⟨rfl, ?_⟩, .ahead left _ ?_ hFirst⟩
        · rw [hVoices]
          rfl
        · rw [marks_foldl_follow, hMarks]

/-
  Slots of streams beside each other are the same up to the
  raised element, and raised behind it.
-/
theorem Beside.slots
    {later : List (Sounding × PitchStream)}
    {subs : List Subdivision}
    {s s' : PitchStream}
    {v v' : Voicing}
    (hBeside :
      Beside d x after (s.takenBy subs ++ later) (s, v)
        (s', v')) :
    List.Forall₂ (Slot.RaisedBy d)
        (v.slots (s.fill subs).1).1
        (v'.slots (s'.fill subs).1).1 ∧
      Beside d x after later
        ((s.fill subs).2, (v.slots (s.fill subs).1).2)
        ((s'.fill subs).2,
          (v'.slots (s'.fill subs).1).2) := by
  induction subs generalizing s s' v v' with
  | nil =>
      exact ⟨.nil, hBeside⟩
  | cons sub subs ih =>
      by_cases hAttack : sub.IsAttack
      · rw [PitchStream.takenBy, if_pos hAttack,
          List.append_assoc] at hBeside
        rcases hBeside.attack with ⟨hRaised, hNext⟩
        rcases ih hNext with ⟨hSlots, hLast⟩
        simp only [PitchStream.fill, if_pos hAttack,
          Voicing.slots]
        exact ⟨.cons ⟨rfl, hRaised⟩ hSlots, hLast⟩
      · rw [PitchStream.takenBy, if_neg hAttack] at hBeside
        rcases ih hBeside with ⟨hSlots, hLast⟩
        simp only [PitchStream.fill, if_neg hAttack,
          Voicing.slots]
        exact ⟨.cons ⟨rfl, rfl, rfl⟩ hSlots, hLast⟩

/-
  A barline keeps two runs beside each other, for `x` is not
  dropped by it.
-/
theorem Beside.barline
    {items : List LyricItem}
    {s s' : PitchStream}
    {v v' : Voicing}
    (hBeside :
      Beside d x after (s.passBarline.2.taken items) (s, v)
        (s', v')) :
    Beside d x after (s.passBarline.2.taken items)
      (s.passBarline.2,
        { v with memory := v.memory.endMeasure })
      (s'.passBarline.2,
        { v' with memory := v'.memory.endMeasure }) := by
  cases hBeside with
  | behind s hRaised =>
      exact .behind _
        ⟨hRaised.memory.endMeasure, hRaised.melody⟩
  | ahead before v hMarks hFirst =>
      rcases PitchStream.passBarline_hole before after with
        ⟨left, hLeaves⟩ | hDrops
      · rw [hLeaves] at hFirst ⊢
        rw [hLeaves]
        exact .ahead left _ rfl hFirst
      · rw [hDrops] at hFirst
        have hTaken :=
          PitchStream.taken_suffix
            (List.mem_of_find?_eq_some hFirst)
        have hLeft :=
          (hTaken.trans
            (PitchStream.passBarline_suffix
              after)).length_le
        rw [List.length_cons] at hLeft
        omega

/-
  Cues of streams beside each other are
  raised as their slots are.
-/
theorem Beside.cues
    {items : List LyricItem}
    {s s' : PitchStream}
    {v v' : Voicing}
    (hBeside :
      Beside d x after (s.taken items) (s, v) (s', v')) :
    List.Forall₂ (Cue.RaisedBy d) (v.cues (s.cues items))
      (v'.cues (s'.cues items)) := by
  induction items generalizing s s' v v' with
  | nil =>
      exact .nil
  | cons item items ih =>
      cases item with
      | directive directive =>
          exact .cons (.directive directive) (ih hBeside)
      | barline measure =>
          exact .cons (.barline measure) (ih hBeside.barline)
      | beat b =>
          rcases Beside.slots hBeside with ⟨hSlots, hLast⟩
          exact .cons (.beat b hSlots) (ih hLast)

end Voicing

/-
  Raise what is resolved first in a block, and all that the
  block sounds is raised.
-/
theorem Block.FirstResolved.voices_raise
    {b : Block}
    {place : SoundingPlace}
    {x : Sounding}
    (hFirst : b.FirstResolved place x)
    (d : Int) :
    List.Forall₂ (Cue.RaisedBy d) b.voices
      (b.raise d place x).voices := by
  have hStream :
      b.pitchStream =
        place.itemsBefore ++
          .sounding x :: place.itemsAfter := by
    rw [pitchStream, hFirst.lines, place.items_plug]
  have hRaised :
      (b.raise d place x).pitchStream =
        place.itemsBefore ++
          .sounding (x.raise d) :: place.itemsAfter :=
    place.items_plug (x.raise d)
  have hTaken := hFirst.first
  rw [hStream] at hTaken
  rw [voices, voices, cues, cues, hStream, hRaised]
  exact Voicing.Beside.cues
    (.ahead place.itemsBefore {} rfl hTaken)

end LyricScore
