import LyricScore.Proofs.Stream.Raised
import LyricScore.Proofs.WellFormed

/-
  This file tells how the pitches of a stream are spelled.
  Each pitch that an attack takes becomes one voice with its
  letter.  The accidental of a voice is the one that is
  written, one that was kept, or one that a key gives; so if
  all that are written have a meaning, all that apply have.

  Key definitions include:
    * `KeyMemory.KeepsWritten`
    * `Sounding.IsWritten`, `PitchItem.IsWritten`

  Key theorems include:
    * `KeyMemory.KeepsWritten.resolve`
    * `Voicing.letters_attack`
    * `Voicing.cues_written`
    * `Block.written_of_pitchStream`
    * `Score.pitchStream_written`
-/

namespace LyricScore

------------------------------------------------------------
-- Letters of voices
------------------------------------------------------------

/-
  The letters of what an attack
  received, from the lowest up.
-/
def Delivery.letters
    (d : Delivery) : List Letter :=
  d.element.toList.flatMap fun x => x.pitches.map Pitch.letter

namespace Voicing

/- Spelled tones are the tones themselves. -/
theorem map_tone_spellTones
    (m : KeyMemory)
    (ts : List WrittenTone) :
    (spellTones m ts).1.map Voice.tone =
      ts.map WrittenTone.tone := by
  induction ts generalizing m with
  | nil =>
      rfl
  | cons t ts ih =>
      simp [spellTones, ih]

/-
  The tones of a chord have the letters and the accidentals
  of its pitches.
-/
theorem map_pitch_climb
    (lower : Tone)
    (ps : List Pitch) :
    (Melody.climb lower ps).map (fun t =>
        (t.tone.letter, t.accidental)) =
      ps.map fun p => (p.letter, p.accidental) := by
  induction ps generalizing lower with
  | nil =>
      rfl
  | cons p ps ih =>
      have hLetter :
          ((lower.above p.letter).shift p.shift).letter =
            p.letter := by
        unfold Tone.above Tone.shift
        split <;> rfl
      simp [Melody.climb, ih, hLetter]

/-
  Tones keep the letters and the
  accidentals of their pitches.
-/
theorem map_pitch_tones
    (m : Melody)
    (x : Sounding) :
    (tones m x).1.map (fun t => (t.tone.letter, t.accidental)) =
      x.pitches.map fun p => (p.letter, p.accidental) := by
  have hLetter (letter : Letter) (shift : Int) :
      ((m.previous.nearest letter).shift shift).letter =
        letter := by
    unfold Tone.nearest Tone.shift
    simp only
    split
    · rfl
    · split <;> rfl
  cases x with
  | pitch p =>
      simp [tones, Melody.pitch, Sounding.pitches, hLetter]
  | chord c =>
      cases hPitches : c.pitches with
      | nil =>
          simp [tones, Melody.chord, Sounding.pitches, hPitches]
      | cons p ps =>
          simp [tones, Melody.chord, Sounding.pitches,
            hPitches, hLetter, map_pitch_climb]

/-
  An attack has one voice for each pitch that it received,
  with its letter.
-/
theorem letters_attack
    (v : Voicing)
    (d : Delivery) :
    (v.attack d).1.voices.map (fun v => v.tone.letter) =
      d.letters := by
  cases hElement : d.element with
  | none =>
      simp [attack, Delivery.letters, hElement]
  | some x =>
      have hTones (w : Voicing) :
          (w.sound x).1.map (fun v => v.tone.letter) =
            x.pitches.map Pitch.letter := by
        calc
          (w.sound x).1.map (fun v => v.tone.letter) =
            ((w.sound x).1.map Voice.tone).map
              Tone.letter := by
              rw [List.map_map]
              rfl
          _ =
            ((tones w.melody x).1.map fun t =>
              (t.tone.letter, t.accidental)).map
                Prod.fst := by
              rw [sound, map_tone_spellTones, List.map_map,
                List.map_map]
              rfl
          _ = x.pitches.map Pitch.letter := by
              rw [map_pitch_tones, List.map_map]
              rfl
      simp [attack, Delivery.letters, hElement, hTones]

end Voicing

------------------------------------------------------------
-- Accidentals that are kept
------------------------------------------------------------

instance
    (x : Accidental) :
    Decidable x.IsWritten :=
  inferInstanceAs (Decidable (x.sign ∈ _))

namespace KeyMemory

/- Every accidental of the measure has a meaning. -/
def KeepsWritten
    (m : KeyMemory) : Prop :=
  ∀ mark ∈ m.marks, mark.2.IsWritten

/- An explicit accidental is the one that is written. -/
theorem eq_some_of_explicit?
    {written : Option Accidental}
    {a : Accidental}
    (hExplicit : explicit? written = some a) :
    written = some a := by
  unfold explicit? at hExplicit
  split at hExplicit
  · cases hExplicit
  · exact hExplicit

/-
  A key sharpens, flattens or leaves alone,
  whatever its sign is.
-/
theorem isWritten_accidentalOf
    (k : KeySignature)
    (letter : String) :
    (k.accidentalOf letter).IsWritten := by
  unfold KeySignature.accidentalOf
  simp only
  split
  · split <;> decide
  · split <;> decide
  · decide

/-
  Whatever the key is, what applies to a tone has a meaning,
  and so has what is kept behind it.
-/
theorem KeepsWritten.resolve
    {m : KeyMemory}
    (hKept : m.KeepsWritten)
    (letter : String)
    (octave : Int)
    {written : Option Accidental}
    (hWritten : ∀ x ∈ written, x.IsWritten) :
    (m.resolve letter octave written).1.IsWritten ∧
      (m.resolve letter octave written).2.KeepsWritten := by
  unfold KeyMemory.resolve
  cases hExplicit : explicit? written with
  | some a =>
      have hHere : a.IsWritten :=
        hWritten a (eq_some_of_explicit? hExplicit)
      exact ⟨hHere, List.forall_mem_cons.mpr ⟨hHere, hKept⟩⟩
  | none =>
      refine ⟨?_, hKept⟩
      cases hMark : m.marks.lookup (toneName letter octave) with
      | none =>
          simp only [hMark, Option.getD_none]
          exact isWritten_accidentalOf m.signature letter
      | some a =>
          rcases List.lookup_eq_some_iff.mp hMark with
            ⟨before, after, hSplit, -⟩
          simp only [hMark, Option.getD_some]
          exact hKept (toneName letter octave, a)
            (by simp [hSplit])

end KeyMemory

------------------------------------------------------------
-- Accidentals of voices
------------------------------------------------------------

/- Pitches whose accidentals all have a meaning. -/
def Sounding.IsWritten
    (x : Sounding) : Prop :=
  ∀ p ∈ x.pitches, ∀ a ∈ p.accidental, a.IsWritten

/- The same of an item of a pitch stream, if it sounds. -/
def PitchItem.IsWritten : PitchItem → Prop
  | sounding x => x.IsWritten
  | _ => True

namespace Voicing

/- A voicing that has kept accidentals with a meaning only. -/
def KeepsWritten
    (v : Voicing) : Prop :=
  v.memory.KeepsWritten

variable {v : Voicing}

/-
  The accidentals of spelled tones have signs with a
  meaning, if written ones have.
-/
theorem spellTones_written
    {m : KeyMemory}
    {ts : List WrittenTone}
    (hKept : m.KeepsWritten)
    (hTones : ∀ t ∈ ts, ∀ a ∈ t.accidental, a.IsWritten) :
    (∀ v ∈ (spellTones m ts).1, v.accidental.IsWritten) ∧
      (spellTones m ts).2.KeepsWritten := by
  induction ts generalizing m with
  | nil =>
      exact ⟨fun v hMember =>
          absurd hMember List.not_mem_nil, hKept⟩
  | cons t ts ih =>
      rcases List.forall_mem_cons.mp hTones with ⟨hHere, hRest⟩
      rcases hKept.resolve t.tone.letter.name t.tone.octave
          hHere with
        ⟨hApplies, hBehind⟩
      rcases ih hBehind hRest with ⟨hVoices, hLast⟩
      exact ⟨List.forall_mem_cons.mpr ⟨hApplies, hVoices⟩,
        hLast⟩

/-
  What sounds has accidentals with a
  meaning, if written ones have.
-/
theorem KeepsWritten.sound
    (hKept : v.KeepsWritten)
    {x : Sounding}
    (hWritten : x.IsWritten) :
    (∀ w ∈ (v.sound x).1, w.accidental.IsWritten) ∧
      (v.sound x).2.KeepsWritten := by
  have hTones :
      ∀ t ∈ (tones v.melody x).1,
        ∀ a ∈ t.accidental, a.IsWritten := by
    intro t hTone a hAccidental
    have hPitch :
        (t.tone.letter, t.accidental) ∈
          x.pitches.map fun p =>
            (p.letter, p.accidental) := by
      rw [← map_pitch_tones v.melody x]
      exact List.mem_map_of_mem hTone
    rcases List.mem_map.mp hPitch with ⟨p, hMember, hSame⟩
    apply hWritten p hMember a
    rw [(Prod.mk.inj hSame).2]
    exact hAccidental
  exact spellTones_written hKept hTones

/-
  An attack has accidentals with a meaning,
  if written ones have.
-/
theorem KeepsWritten.attack
    (hKept : v.KeepsWritten)
    {d : Delivery}
    (hWritten : ∀ x ∈ d.element, x.IsWritten) :
    (∀ w ∈ (v.attack d).1.voices, w.accidental.IsWritten) ∧
      (v.attack d).2.KeepsWritten := by
  have hFollowed : (d.handed.foldl follow v).KeepsWritten := by
    unfold KeepsWritten KeyMemory.KeepsWritten
    rw [marks_foldl_follow]
    exact hKept
  cases hElement : d.element with
  | none =>
      simp only [Voicing.attack, hElement]
      exact ⟨fun w hMember =>
          absurd hMember List.not_mem_nil, hFollowed⟩
  | some x =>
      simp only [Voicing.attack, hElement]
      exact hFollowed.sound (hWritten x hElement)

theorem KeepsWritten.slots
    (hKept : v.KeepsWritten)
    {received : List (Slot Delivery)}
    (hWritten :
      ∀ slot ∈ received,
        ∀ x ∈ slot.content.element, x.IsWritten) :
    (∀ slot ∈ (v.slots received).1,
        ∀ w ∈ slot.content.voices,
          w.accidental.IsWritten) ∧
      (v.slots received).2.KeepsWritten := by
  induction received generalizing v with
  | nil =>
      exact ⟨fun slot hMember =>
          absurd hMember List.not_mem_nil, hKept⟩
  | cons slot received ih =>
      rcases List.forall_mem_cons.mp hWritten with
        ⟨hHere, hRest⟩
      rcases hKept.attack hHere with ⟨hVoices, hBehind⟩
      rcases ih hBehind hRest with ⟨hMore, hLast⟩
      exact ⟨List.forall_mem_cons.mpr ⟨hVoices, hMore⟩, hLast⟩

/-
  A barline forgets, and forgetting keeps
  nothing without a meaning.
-/
theorem cues_written
    (hKept : v.KeepsWritten)
    {received : List (Cue Delivery)}
    (hWritten :
      ∀ cue ∈ received,
        ∀ slot ∈ cue.slots,
          ∀ x ∈ slot.content.element, x.IsWritten) :
    ∀ cue ∈ v.cues received,
      ∀ slot ∈ cue.slots,
        ∀ w ∈ slot.content.voices,
          w.accidental.IsWritten := by
  induction received generalizing v with
  | nil =>
      exact fun cue hMember => absurd hMember List.not_mem_nil
  | cons cue received ih =>
      rcases List.forall_mem_cons.mp hWritten with
        ⟨hHere, hRest⟩
      cases cue with
      | directive d =>
          rw [Voicing.cues, List.forall_mem_cons]
          exact ⟨fun slot hMember =>
              absurd hMember List.not_mem_nil,
            ih hKept hRest⟩
      | barline measure =>
          have hForgotten :
              ({ v with memory := v.memory.endMeasure } :
                Voicing).KeepsWritten :=
            fun mark hMember =>
              absurd hMember List.not_mem_nil
          rw [Voicing.cues, List.forall_mem_cons]
          exact ⟨fun slot hMember =>
              absurd hMember List.not_mem_nil,
            ih hForgotten hRest⟩
      | beat b slots =>
          rcases hKept.slots hHere with ⟨hVoices, hBehind⟩
          rw [Voicing.cues, List.forall_mem_cons]
          exact ⟨hVoices, ih hBehind hRest⟩

end Voicing

------------------------------------------------------------
-- Blocks and texts
------------------------------------------------------------

/-
  What an attack among the cues of a block received stands
  in its pitch stream.
-/
theorem Block.mem_pitchStream_of_cues
    {b : Block}
    {cue : Cue Delivery}
    (hCue : cue ∈ b.cues)
    {slot : Slot Delivery}
    (hSlot : slot ∈ cue.slots)
    {x : Sounding}
    (hElement : x ∈ slot.content.element) :
    .sounding x ∈ b.pitchStream := by
  have hAttack : slot.subdivision.IsAttack := by
    refine Decidable.byContradiction fun hHolds => ?_
    rw [(PitchStream.slots_of_mem_cues _ _ hCue).2 slot
      hSlot hHolds] at hElement
    cases hElement
  have hTaken :
      x ∈
        (PitchStream.taken b.pitchStream b.lyricStream).map
          Prod.fst := by
    rw [PitchStream.map_taken]
    refine List.mem_filterMap.mpr ⟨slot.content, ?_, hElement⟩
    refine List.mem_filterMap.mpr
      ⟨slot, List.mem_flatMap.mpr ⟨cue, hCue, hSlot⟩, ?_⟩
    rw [if_pos hAttack]
  rcases List.mem_map.mp hTaken with ⟨⟨y, left⟩, hMember, rfl⟩
  exact (PitchStream.taken_suffix hMember).subset
    List.mem_cons_self

/-
  If what is written in a block has a
  meaning, so has what applies.
-/
theorem Block.written_of_pitchStream
    {b : Block}
    (hWritten : ∀ item ∈ b.pitchStream, item.IsWritten) :
    ∀ cue ∈ b.voices,
      ∀ slot ∈ cue.slots,
        ∀ v ∈ slot.content.voices,
          v.accidental.IsWritten := by
  have hNothing : ({} : Voicing).KeepsWritten :=
    fun mark hMember => absurd hMember List.not_mem_nil
  apply Voicing.cues_written hNothing
  intro cue hCue slot hSlot x hElement
  exact hWritten _
    (Block.mem_pitchStream_of_cues hCue hSlot hElement)

/-
  The items of a pitch line are written if
  its nodes keep the rules.
-/
theorem PitchLine.items_written
    {l : PitchLine}
    (hNodes : ∀ node ∈ l.nodes, node.IsWellFormed) :
    ∀ item ∈ l.items, item.IsWritten := by
  rcases PitchLine.forall_mem_nodes.mp hNodes with
    ⟨-, hMeasures⟩
  have hDirectives :
      ∀ item ∈ l.directives.map PitchItem.directive,
        item.IsWritten :=
    List.forall_mem_map.mpr fun d _ => trivial
  have hElements :
      ∀ m ∈ l.measures,
        ∀ e ∈ m.elements, e.item.IsWritten := by
    intro m hMeasure e hElement
    have hHere := (hMeasures m hMeasure).1 e hElement
    cases e with
    | directive d =>
        trivial
    | pitch p =>
        rw [PitchElement.item, PitchItem.IsWritten,
          Sounding.IsWritten, Sounding.pitches,
          List.forall_mem_singleton]
        exact (hHere (.pitch p)
          (List.mem_singleton_self _)).accidental
    | chord c =>
        intro p hPitch
        exact (hHere (.pitch p)
          (List.mem_cons_of_mem _
            (List.mem_map_of_mem hPitch))).accidental
  rw [PitchLine.items, List.forall_mem_append,
    List.forall_mem_flatMap]
  refine ⟨hDirectives, fun m hMeasure => ?_⟩
  rw [PitchMeasure.items, List.forall_mem_append,
    List.forall_mem_map]
  refine ⟨hElements m hMeasure, fun item hBarline => ?_⟩
  split at hBarline
  · rw [List.mem_singleton.mp hBarline]
    trivial
  · exact absurd hBarline List.not_mem_nil

/- Every accidental of a text has a meaning. -/
theorem Score.pitchStream_written
    {text : String}
    {score : Score}
    (hParse : parse text = .ok score) :
    ∀ b ∈ score.blocks,
      ∀ item ∈ b.pitchStream, item.IsWritten := by
  rcases blocks_are_read hParse with
    ⟨body, fin, hTokens, hOpen, hBlocks⟩
  have hStands :=
    (tokenize_written text).stands fun row _ =>
      isCut_zero row
  rw [hTokens, List.forall_mem_append] at hStands
  intro b hMember
  rcases (hBlocks b hMember).pitches with
    ⟨line, hLine, hRead, -⟩
  rw [Block.pitchStream, hLine, List.flatMap_cons,
    List.flatMap_nil, List.append_nil]
  exact PitchLine.items_written
    (hRead.wellFormed hStands.1 hOpen)

end LyricScore
