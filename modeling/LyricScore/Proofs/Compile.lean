import LyricScore.Compile
import LyricScore.Proofs.Performance.Success

/-
  This file tells which of the texts that can be read can be
  compiled.  Reading does not limit what a score asks for, and
  three of its numbers may grow beyond what can be read,
  written or placed: the digits at the head of a beat, the
  number that a counter has come to, and the octaves between a
  tone and the center line.

  Key theorems include:
    * `Midi.exists_file`
    * `Score.named_of_drawable`
    * `compile_succeeds_iff`
-/

namespace LyricScore

------------------------------------------------------------
-- Files of events
------------------------------------------------------------

/- A track of built events that fits its chunk is written. -/
theorem Midi.exists_file
    {events : List MidiEvent}
    {ticksPerQuarter : Int}
    (hResolution :
      0 ≤ ticksPerQuarter ∧ ticksPerQuarter ≤ 65535)
    (hBuilt : ∀ e ∈ events, e.Built)
    (hFits : FitsChunk events) :
    ∃ bytes,
      Midi.file [events] ticksPerQuarter = .ok bytes := by
  rcases MidiReader.chunk_track
      (fun e hEvent => (hBuilt e hEvent).isReadable)
      hFits with
    ⟨chunk, hTrack, -⟩
  have hCount :
      Midi.fixed 2 (([events].length : Nat) : Int) =
        .ok (bigEndian 1 2) :=
    Midi.fixed_two (by simp)
  refine ⟨tag "MThd" ++ bigEndian 6 4 ++
      bigEndian (format 1) 2 ++ bigEndian 1 2 ++
      bigEndian ticksPerQuarter.toNat 2 ++ [chunk].flatten,
    ?_⟩
  simp only [Midi.file, header, hCount,
    Midi.fixed_two hResolution, List.mapM_cons,
    List.mapM_nil, hTrack, Outcome.ok_bind, Outcome.pure_eq]
  rfl

------------------------------------------------------------
-- Letters and voices
------------------------------------------------------------

/-
  Where everything drawn can be drawn,
  each voice has a name.
-/
theorem named_of_drawable_blocks
    {index : Nat}
    {bs : List Block}
    (hDrawable :
      ∀ f ∈ blockFigures index bs, f.IsDrawable Float) :
    ∀ b ∈ bs, ∀ v ∈ b.resolvedVoices, v.IsNamed := by
  induction bs generalizing index with
  | nil =>
      simp
  | cons b bs ih =>
      rw [blockFigures, List.forall_mem_append] at hDrawable
      rw [List.forall_mem_cons]
      refine ⟨?_, ih hDrawable.2⟩
      intro v hVoice
      rw [← b.letters_figures index] at hVoice
      rcases List.mem_map.mp hVoice with
        ⟨⟨voice, reference⟩, hShown, rfl⟩
      rcases List.mem_filterMap.mp hShown with
        ⟨f, hFigure, hLetter⟩
      have hHere := hDrawable.1 f hFigure
      cases f with
      | letter voice reference =>
          cases hLetter
          exact hHere.1
      | _ =>
          cases hLetter

/- Where every letter is drawable, every voice has a name. -/
theorem Score.named_of_drawable
    {s : Score}
    (hDrawable : ∀ f ∈ s.figures, f.IsDrawable Float) :
    ∀ b ∈ s.blocks, ∀ v ∈ b.resolvedVoices, v.IsNamed :=
  named_of_drawable_blocks hDrawable

------------------------------------------------------------
-- Compiling
------------------------------------------------------------

/-
  The settings that are assumed if there
  are none are in range.
-/
theorem AudioSettings.inRange_default :
    ({} : AudioSettings).InRange := by
  constructor <;> decide

/-
  Which of the texts that can be read can be compiled, if the
  track of a score is not too long for its chunk: those whose
  rendered beats are measurable and whose figures are
  drawable.  Each step fails by itself just where it has to:
  events need measurable beats and voices with names, a file
  of events nothing more, a beat map measurable beats, and a
  drawing both measurable beats and drawable figures.
-/
theorem compile_succeeds_iff
    {text : String}
    {score : Score}
    (hParse : Score.parse text = .ok score)
    (hFits :
      ∀ events,
        score.events {} = .ok events →
          Midi.FitsChunk events) :
    ((∃ events, score.events {} = .ok events) ↔
          score.IsMeasurable ∧
            ∀ b ∈ score.blocks,
              ∀ v ∈ b.resolvedVoices, v.IsNamed) ∧
      (∀ events,
        score.events {} = .ok events →
          ∃ bytes,
            Midi.file [events]
                ({} : AudioSettings).ticksPerQuarter =
              .ok bytes) ∧
      ((∃ map, score.timing {} = .ok map) ↔
        score.IsMeasurable) ∧
      ((∃ drawing,
          score.layout (.default : LayoutSettings Float) =
            .ok drawing) ↔
        (∀ f ∈ score.figures, f.IsDrawable Float) ∧
          score.IsMeasurable) ∧
      ((∃ c, compile {} text = .ok c) ↔
        (∀ f ∈ score.figures, f.IsDrawable Float) ∧
          score.IsMeasurable) := by
  have hEvents :
      (∃ events, score.events {} = .ok events) ↔
        score.IsMeasurable ∧
          ∀ b ∈ score.blocks,
            ∀ v ∈ b.resolvedVoices, v.IsNamed :=
    Iff.trans
      (score.exists_events_iff
        AudioSettings.inRange_default) score.playable_iff
  have hFile :
      ∀ events,
        score.events {} = .ok events →
          ∃ bytes,
            Midi.file [events]
                ({} : AudioSettings).ticksPerQuarter =
              .ok bytes := by
    intro events hPlayed
    apply Midi.exists_file (by decide) _ (hFits events hPlayed)
    intro e hEvent
    exact Score.built_of_mem_events hPlayed hEvent
  have hLayout :
      (∃ drawing,
          score.layout (.default : LayoutSettings Float) =
            .ok drawing) ↔
        (∀ f ∈ score.figures, f.IsDrawable Float) ∧
          score.IsMeasurable :=
    Score.exists_layout_iff
  have hTiming := score.exists_timing_iff {}
  refine ⟨hEvents, hFile, hTiming, hLayout, ?_⟩
  have hCompile :
      (∃ c, compile {} text = .ok c) ↔
        True ∧
          (score.IsMeasurable ∧
            ∀ b ∈ score.blocks,
              ∀ v ∈ b.resolvedVoices, v.IsNamed) ∧
          True ∧
          ((∀ f ∈ score.figures, f.IsDrawable Float) ∧
            score.IsMeasurable) ∧
          score.IsMeasurable := by
    rw [compile]
    have hReads :
        ∃ s,
          (Score.parse text).mapError Failure.score =
            .ok s := by
      rw [hParse]
      exact ⟨score, rfl⟩
    apply Outcome.exists_bind_iff (iff_true_intro hReads)
    intro read hRead
    rw [hParse] at hRead
    cases hRead
    apply Outcome.exists_bind_iff hEvents
    intro events hPlayed
    apply Outcome.exists_bind_iff
    · rw [Outcome.exists_mapError_eq_ok]
      exact iff_true_intro (hFile events hPlayed)
    · intro midi _
      apply Outcome.exists_bind_iff hLayout
      intro layout _
      exact Iff.trans
        (Outcome.exists_bind_of_total fun _ => ⟨_, rfl⟩)
        hTiming
  rw [hCompile]
  constructor
  · rintro ⟨-, -, -, hDrawn, -⟩
    exact hDrawn
  · intro hDrawn
    exact ⟨trivial,
      ⟨hDrawn.2, Score.named_of_drawable hDrawn.1⟩, trivial,
      hDrawn, hDrawn.2⟩

/-
  A beat of two units with the center line nine octaves
  above the tone, and a tempo.
-/
def faraway : String :=
  "Far away\n\n[T90]2la|\n[O13]c|\n"

/-
  What plays it: a tempo and a program, then the tempo that
  it asks for, and a note.
-/
def farawayEvents : List MidiEvent :=
  [⟨0, .metaEvent, 0, none, none, some tempoType,
      [0x07, 0xA1, 0x20]⟩,
    ⟨0, .programChange, 0, some 0, none, none, []⟩,
    ⟨0, .metaEvent, 0, none, none, some tempoType,
      [0x0A, 0x2C, 0x2B]⟩,
    ⟨0, .noteOn, 0, some 60, some 88, none, []⟩,
    ⟨480, .noteOn, 0, some 60, some 0, none, []⟩]

/- It compiles, however far away the tone is. -/
theorem faraway_compiles :
    ∃ score,
      Score.parse faraway = .ok score ∧
        (∀ events,
          score.events {} = .ok events →
            Midi.FitsChunk events) ∧
        ∃ c, compile {} faraway = .ok c := by
  have hRead : (Score.parse faraway).isOk = true := by
    decide +kernel
  rcases Outcome.exists_eq_ok hRead with ⟨score, hParse⟩
  have hLimits :
      (Score.parse faraway).map
          (fun score =>
            decide
              ((∀ f ∈ score.figures, f.IsDrawable Float) ∧
                score.IsMeasurable)) =
        .ok true := by
    decide +kernel
  have hEvents :
      (Score.parse faraway).map (fun score => score.events {}) =
        .ok (.ok farawayEvents) := by
    decide +kernel
  have hLength :
      (Midi.events none farawayEvents).toOption.map
          List.length =
        some 25 := by
    decide +kernel
  rw [hParse, Outcome.map_ok,
    Except.ok.injEq] at hEvents hLimits
  have hFits :
      ∀ events,
        score.events {} = .ok events →
          Midi.FitsChunk events := by
    intro events hPlayed body hBody
    rw [hEvents, Except.ok.injEq] at hPlayed
    rw [← hPlayed] at hBody
    rw [hBody, Except.toOption, Option.map_some,
      Option.some.injEq] at hLength
    rw [List.length_append, hLength]
    decide
  refine ⟨score, hParse, hFits, ?_⟩
  rw [(compile_succeeds_iff hParse hFits).2.2.2.2]
  exact of_decide_eq_true hLimits

end LyricScore
