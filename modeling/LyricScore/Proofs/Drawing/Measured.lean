import LyricScore.Proofs.Drawing.Height
import LyricScore.Proofs.Resolution
import LyricScore.Proofs.Stream.Spelling

/-
  This file draws a block and writes down each voice whose
  height is asked for, also where the drawing fails in the
  end.  What is drawn does not change by that.  Every height
  that is asked for is that of a voice of the block, and in a
  block of a text each of these has an offset of its own, so
  nothing is ever drawn on the center line for want of one.

  Key definitions include:
    * `Measured`
    * `Measured.Asks`
    * `Pen.measuredVoice`, `Pen.measuredCues`
    * `Block.measuredLayout`
    * `Voice.offsetRemark?`

  Key theorems include:
    * `Measured.Asks.bind`
    * `Pen.outcome_measuredCues`, `Pen.asks_measuredCues`
    * `Block.outcome_measuredLayout`, `Block.asks_measuredLayout`
    * `Score.heights_have_offsets`
-/

namespace LyricScore

------------------------------------------------------------
-- Outcomes with what was measured
------------------------------------------------------------

/-
  An outcome, and the voices whose heights were asked for on
  the way to it.  What was asked for before a failure stays.
-/
structure Measured (α : Type) where
  voices : List Voice
  outcome : Except Failure α

namespace Measured

variable {α β : Type}

/- A step that asks for no height. -/
def silent
    (x : Except Failure α) : Measured α :=
  ⟨[], x⟩

/- A step that asks for the height of a voice. -/
def height
    (v : Voice)
    (x : Except Failure α) : Measured α :=
  ⟨[v], x⟩

/- Steps in turn, until one of them fails. -/
protected def bind
    (x : Measured α)
    (f : α → Measured β) : Measured β :=
  match x.outcome with
  | .error e => ⟨x.voices, .error e⟩
  | .ok a => ⟨x.voices ++ (f a).voices, (f a).outcome⟩

instance : Monad Measured where
  pure a := silent (.ok a)
  bind := Measured.bind

@[simp] theorem outcome_silent
    (x : Except Failure α) :
    (silent x).outcome = x := rfl

@[simp] theorem outcome_height
    (v : Voice)
    (x : Except Failure α) :
    (height v x).outcome = x := rfl

@[simp] theorem outcome_pure
    (a : α) :
    (pure a : Measured α).outcome = .ok a := rfl

@[simp] theorem outcome_bind
    (x : Measured α)
    (f : α → Measured β) :
    (x >>= f).outcome =
      x.outcome >>= fun a => (f a).outcome := by
  show (x.bind f).outcome = _
  unfold Measured.bind
  cases x.outcome <;> rfl

/-
  Steps that ask for the heights of these voices in
  turn: of all of them if they succeed, and of the
  first of them if they fail.
-/
structure Asks
    (x : Measured α)
    (vs : List Voice) : Prop where
  upTo : x.voices <+: vs
  all : ∀ a, x.outcome = .ok a → x.voices = vs

theorem asks_silent
    (x : Except Failure α) :
    (silent x).Asks [] :=
  ⟨List.prefix_rfl, fun _ _ => rfl⟩

/- A looked up height is that of one voice. -/
theorem asks_height
    (v : Voice)
    (x : Except Failure α) :
    (height v x).Asks [v] :=
  ⟨List.prefix_rfl, fun _ _ => rfl⟩

theorem asks_pure
    (a : α) :
    (pure a : Measured α).Asks [] :=
  asks_silent (.ok a)

/-
  One step asks for its heights, and then
  the next for its own.
-/
theorem Asks.bind
    {x : Measured α}
    {f : α → Measured β}
    {vs ws : List Voice}
    (hFirst : x.Asks vs)
    (hThen : ∀ a, x.outcome = .ok a → (f a).Asks ws) :
    (x >>= f).Asks (vs ++ ws) := by
  cases hOutcome : x.outcome with
  | error e =>
      have hBoth : (x >>= f) = ⟨x.voices, .error e⟩ := by
        show x.bind f = _
        rw [Measured.bind, hOutcome]
      rw [hBoth]
      exact ⟨hFirst.upTo.trans (List.prefix_append vs ws),
        fun b hOk => nomatch hOk⟩
  | ok a =>
      have hBoth :
          (x >>= f) =
            ⟨x.voices ++ (f a).voices, (f a).outcome⟩ := by
        show x.bind f = _
        rw [Measured.bind, hOutcome]
      rcases hThen a hOutcome with ⟨hUpTo, hAll⟩
      rw [hBoth, hFirst.all a hOutcome]
      refine ⟨(List.prefix_append_right_inj vs).mpr hUpTo,
        fun b hOk => ?_⟩
      exact congrArg (vs ++ ·) (hAll b hOk)

/-
  A step that asks for nothing changes nothing
  about what is asked for.
-/
theorem asks_silent_bind
    {x : Except Failure α}
    {f : α → Measured β}
    {vs : List Voice}
    (hThen : ∀ a, x = .ok a → (f a).Asks vs) :
    (silent x >>= f).Asks vs :=
  (asks_silent x).bind hThen

/- The same of steps that only put together what was made. -/
theorem Asks.bind_pure
    {x : Measured α}
    {f : α → β}
    {vs : List Voice}
    (hFirst : x.Asks vs) :
    (x >>= fun a => pure (f a)).Asks vs := by
  have hBoth := hFirst.bind fun a _ => asks_pure (f a)
  rwa [List.append_nil] at hBoth

end Measured

------------------------------------------------------------
-- Drawing
------------------------------------------------------------

variable {K : Type} [Coordinate K]

namespace Pen

open Measured

section Steps

variable (s : LayoutSettings K)

/- The letter of a voice, which asks for its height. -/
def measuredVoice
    (reference : Int)
    (x : K)
    (v : Voice) : Measured (DrawCommand K) :=
  if Numeral.Writable v.tone.octave then do
    let y ←
      height v
        (pitchHeight s.centerLine v.tone.octave
          v.tone.letter.name v.accidental reference
          s.staffLineSpacing)
    return letterCommand s x y v
  else silent (.error (.numeral .tooLongToWrite))

/- The letters of a chord. -/
def measuredChord
    (reference : Int)
    (x : K)
    (right : Bool) :
      List Voice → Measured (List (DrawCommand K))
  | [] => pure []
  | v :: vs => do
    let shift :=
      if right then s.chordStagger else -s.chordStagger
    let first ← measuredVoice s reference (x + shift) v
    let more ← measuredChord reference x (!right) vs
    return first :: more

/- The letters of what is no chord. -/
def measuredSingles
    (reference : Int)
    (x : K) : List Voice → Measured (List (DrawCommand K))
  | [] => pure []
  | v :: vs => do
    let first ← measuredVoice s reference x v
    let more ← measuredSingles reference x vs
    return first :: more

/- The letters of an attack. -/
def measuredVoices
    (x : K)
    (a : Attack) : Measured (List (DrawCommand K)) :=
  match a.delivery.element with
  | some (.chord _) =>
      measuredChord s a.referenceOctave x true a.voices
  | _ => measuredSingles s a.referenceOctave x a.voices

/- A subdivision. -/
def measuredSlot
    (x : K)
    (part : Slot Attack) : Measured (List (DrawCommand K)) := do
  let octaves ←
    silent (octaveCommands s x part.content.delivery.handed)
  let voices ← measuredVoices s x part.content
  return lyricCommand s x part.subdivision.displayText ::
      octaves ++ voices

/- Subdivisions side by side. -/
def measuredSlots
    (x : K) :
      List (Slot Attack) →
        Measured (List (DrawCommand K) × K)
  | [] => pure ([], x)
  | part :: rest => do
    let first ← measuredSlot s x part
    let (more, x) ←
      measuredSlots
        (x + s.textWidth part.subdivision.displayText) rest
    return (first ++ more, x)

/- A beat. -/
def measuredBeat
    (block : Int)
    (p : Pen K)
    (b : Beat)
    (parts : List (Slot Attack)) :
      Measured (List (DrawCommand K) × Pen K) := do
  let (directed, p) ← silent (lyricDirectives s p b.directives)
  if parts = [] then pure (directed, p)
  else do
    let (drawn, x) ← measuredSlots s p.x parts
    let counter ← silent (counterCommands s p block)
    let scale ← silent (b.scale.mapError .numeral)
    return (directed ++ drawn ++ counter,
      ⟨x + s.beatGap, p.counter + scale, p.beat + 1⟩)

/- The commands of cues in turn. -/
def measuredCues
    (block : Int)
    (p : Pen K) :
      List (Cue Attack) →
        Measured (List (DrawCommand K) × Pen K)
  | [] => pure ([], p)
  | .directive d :: rest => do
    let (first, p) ← silent (lyricDirective s p d)
    let (more, p) ← measuredCues block p rest
    return (first ++ more, p)
  | .barline _ :: rest => do
    let (more, last) ← measuredCues block (p.passBarline s) rest
    return (barlineCommand s p :: more, last)
  | .beat b parts :: rest => do
    let (first, p) ← measuredBeat s block p b parts
    let (more, p) ← measuredCues block p rest
    return (first ++ more, p)

end Steps

------------------------------------------------------------
-- The same is drawn
------------------------------------------------------------

section Outcomes

variable (s : LayoutSettings K)

/-
  To keep the trace changes nothing of how a voice is drawn.
-/
theorem outcome_measuredVoice
    (reference : Int)
    (x : K)
    (v : Voice) :
    (measuredVoice s reference x v).outcome =
      voiceCommand s reference x v := by
  unfold measuredVoice voiceCommand
  split <;> simp

theorem outcome_measuredChord
    (reference : Int)
    (x : K)
    (right : Bool)
    (vs : List Voice) :
    (measuredChord s reference x right vs).outcome =
      chordCommands s reference x right vs := by
  induction vs generalizing right with
  | nil =>
      rw [measuredChord, chordCommands, outcome_pure]
  | cons v vs ih =>
      simp [measuredChord, chordCommands,
        outcome_measuredVoice, ih]

theorem outcome_measuredSingles
    (reference : Int)
    (x : K)
    (vs : List Voice) :
    (measuredSingles s reference x vs).outcome =
      vs.mapM (voiceCommand s reference x) := by
  induction vs with
  | nil =>
      rw [measuredSingles, List.mapM_nil, outcome_pure]
      rfl
  | cons v vs ih =>
      simp [measuredSingles, outcome_measuredVoice, ih]

theorem outcome_measuredSlot
    (x : K)
    (part : Slot Attack) :
    (measuredSlot s x part).outcome = slot s x part := by
  have hVoices :
      (measuredVoices s x part.content).outcome =
        voiceCommands s x part.content := by
    unfold measuredVoices voiceCommands
    cases part.content.delivery.element with
    | none =>
        exact outcome_measuredSingles s _ x _
    | some sounding =>
        cases sounding with
        | pitch p =>
            exact outcome_measuredSingles s _ x _
        | chord c =>
            exact outcome_measuredChord s _ x true _
  simp [measuredSlot, slot, hVoices]

theorem outcome_measuredSlots
    (x : K)
    (parts : List (Slot Attack)) :
    (measuredSlots s x parts).outcome = slots s x parts := by
  induction parts generalizing x with
  | nil =>
      rfl
  | cons part parts ih =>
      simp [measuredSlots, slots, outcome_measuredSlot, ih]

theorem outcome_measuredBeat
    (block : Int)
    (p : Pen K)
    (b : Beat)
    (parts : List (Slot Attack)) :
    (measuredBeat s block p b parts).outcome =
      drawBeat s block p b parts := by
  unfold measuredBeat drawBeat
  rw [outcome_bind, outcome_silent]
  congr 1
  funext directed
  by_cases hEmpty : parts = []
  · simp [hEmpty]
  · simp [hEmpty, outcome_measuredSlots]

/- To keep the trace changes nothing of how cues are drawn. -/
theorem outcome_measuredCues
    (block : Int)
    (p : Pen K)
    (cs : List (Cue Attack)) :
    (measuredCues s block p cs).outcome =
      cues s block p cs := by
  induction cs generalizing p with
  | nil =>
      rfl
  | cons cue cs ih =>
      cases cue with
      | directive d =>
          simp [measuredCues, cues, ih]
      | barline measure =>
          simp [measuredCues, cues, ih]
      | beat b parts =>
          simp [measuredCues, cues, outcome_measuredBeat, ih]

end Outcomes

------------------------------------------------------------
-- The heights that are asked for
------------------------------------------------------------

section Heights

variable (s : LayoutSettings K)

/- A voice asks for its own height. -/
theorem asks_measuredVoice
    {reference : Int}
    {x : K}
    {v : Voice} :
    (measuredVoice s reference x v).Asks [v] := by
  unfold measuredVoice
  split
  · exact (asks_height v _).bind_pure
  · exact ⟨List.nil_prefix, fun c hOk => nomatch hOk⟩

theorem asks_measuredChord
    (reference : Int)
    (x : K)
    (right : Bool)
    (vs : List Voice) :
    (measuredChord s reference x right vs).Asks vs := by
  induction vs generalizing right with
  | nil =>
      rw [measuredChord]
      exact asks_pure []
  | cons v vs ih =>
      rw [measuredChord]
      exact (asks_measuredVoice s).bind fun first _ =>
        (ih (!right)).bind_pure

theorem asks_measuredSingles
    (reference : Int)
    (x : K)
    (vs : List Voice) :
    (measuredSingles s reference x vs).Asks vs := by
  induction vs with
  | nil =>
      rw [measuredSingles]
      exact asks_pure []
  | cons v vs ih =>
      rw [measuredSingles]
      exact (asks_measuredVoice s).bind fun first _ =>
        ih.bind_pure

/- A subdivision asks for the heights of its voices. -/
theorem asks_measuredSlot
    (x : K)
    (part : Slot Attack) :
    (measuredSlot s x part).Asks part.content.voices := by
  have hVoices :
      (measuredVoices s x part.content).Asks
        part.content.voices := by
    unfold measuredVoices
    split
    · exact asks_measuredChord s _ x true _
    · exact asks_measuredSingles s _ x _
  exact asks_silent_bind fun octaves _ => hVoices.bind_pure

/- Slots ask for the heights of their voices, in order. -/
theorem asks_measuredSlots
    (x : K)
    (parts : List (Slot Attack)) :
    (measuredSlots s x parts).Asks
      (parts.flatMap fun part => part.content.voices) := by
  induction parts generalizing x with
  | nil =>
      exact asks_pure _
  | cons part parts ih =>
      exact (asks_measuredSlot s x part).bind fun first _ =>
        (ih _).bind_pure

/-
  A beat asks for the heights of its voices.  The counter
  and the scale behind the slots ask for none.
-/
theorem asks_measuredBeat
    (block : Int)
    (p : Pen K)
    (b : Beat)
    (parts : List (Slot Attack)) :
    (measuredBeat s block p b parts).Asks
      (parts.flatMap fun part => part.content.voices) := by
  unfold measuredBeat
  apply asks_silent_bind
  rintro ⟨directed, p⟩ _
  show Asks (if parts = [] then _ else _) _
  by_cases hEmpty : parts = []
  · rw [if_pos hEmpty, hEmpty]
    exact asks_pure _
  · rw [if_neg hEmpty, ← List.append_nil (parts.flatMap _)]
    refine (asks_measuredSlots s p.x parts).bind ?_
    rintro ⟨drawn, x⟩ _
    exact asks_silent_bind fun counter _ =>
      asks_silent_bind fun scale _ => asks_pure _

/- Cues ask for the heights of their voices, in order. -/
theorem asks_measuredCues
    (block : Int)
    (p : Pen K)
    (cs : List (Cue Attack)) :
    (measuredCues s block p cs).Asks
      (cs.flatMap fun cue =>
        cue.slots.flatMap fun slot =>
          slot.content.voices) := by
  induction cs generalizing p with
  | nil =>
      exact asks_pure _
  | cons cue cs ih =>
      cases cue with
      | directive d =>
          exact asks_silent_bind fun first _ => (ih _).bind_pure
      | barline measure =>
          exact (ih _).bind_pure
      | beat b parts =>
          exact (asks_measuredBeat s block p b parts).bind
            fun first _ => (ih _).bind_pure

end Heights

end Pen

------------------------------------------------------------
-- Blocks
------------------------------------------------------------

namespace Block

variable (s : LayoutSettings K)
variable (index : Int)
variable (b : Block)

/-
  The drawing of a block, with the voices
  whose heights are asked for.
-/
def measuredLayout : Measured (BlockLayout K) := do
  let (drawn, p) ←
    Pen.measuredCues s index { x := s.baseMargin } b.voices
  return .finish s p.x drawn

/-
  To keep the trace changes nothing of how a block is drawn.
-/
theorem outcome_measuredLayout :
    (b.measuredLayout s index).outcome = b.layout s index := by
  simp [measuredLayout, layout, Pen.outcome_measuredCues]

/- A block asks for the heights of its voices, in order. -/
theorem asks_measuredLayout :
    (b.measuredLayout s index).Asks b.resolvedVoices :=
  (Pen.asks_measuredCues s index _ b.voices).bind_pure

end Block

------------------------------------------------------------
-- Offsets
------------------------------------------------------------

/-
  What is remarked when the height of a voice is asked for.
-/
def Voice.offsetRemark?
    (v : Voice) : Option String :=
  match offset? v.tone.letter.name v.accidental with
  | none => some (missingOffset v.tone.letter.name v.accidental)
  | some _ => none

/- What is remarked on the way to an outcome. -/
def Measured.remarks
    {α : Type}
    (x : Measured α) : List String :=
  x.voices.filterMap Voice.offsetRemark?

/- Every letter of a voice stands in the table of offsets. -/
theorem Voice.offsetKey_mem
    (v : Voice) :
    offsetKey v.tone.letter.name v.accidental ∈
      offsets.map Prod.fst := by
  rcases List.lookup_eq_some_iff.mp
    (offset?_eq v.tone.letter v.accidental) with
    ⟨before, after, hSplit, -⟩
  simp [hSplit]

/-
  Every letter and every accidental has an offset, so
  nothing is remarked.
-/
theorem Voice.offsetRemark?_eq_none
    (v : Voice) :
    v.offsetRemark? = none := by
  rw [offsetRemark?, offset?_eq]

/-
  Whatever keys and accidentals are written in a text, each
  height that is asked for while one of its blocks is drawn is
  that of a letter with an accidental that has a meaning, such
  a letter stands in the table of offsets, and nothing is
  remarked about it.  All voices of the block are asked for if
  the drawing succeeds, and else the first of them.
-/
theorem Score.heights_have_offsets
    {text : String}
    {score : Score}
    (hParse : Score.parse text = .ok score)
    {b : Block}
    (hBlock : b ∈ score.blocks)
    (s : LayoutSettings K)
    (index : Int) :
    (b.measuredLayout s index).outcome = b.layout s index ∧
      (b.measuredLayout s index).voices <+:
        b.resolvedVoices ∧
      (∀ layout,
        b.layout s index = .ok layout →
          (b.measuredLayout s index).voices =
            b.resolvedVoices) ∧
      (∀ v ∈ (b.measuredLayout s index).voices,
        v.accidental.IsWritten ∧
          offsetKey v.tone.letter.name v.accidental ∈
            offsets.map Prod.fst ∧
          offset? v.tone.letter.name v.accidental ≠ none) ∧
      (b.measuredLayout s index).remarks = [] := by
  rcases b.asks_measuredLayout s index with ⟨hUpTo, hAll⟩
  have hWritten :
      ∀ v ∈ b.resolvedVoices, v.accidental.IsWritten := by
    intro v hVoice
    rcases List.mem_flatMap.mp hVoice with
      ⟨cue, hCue, hCueVoice⟩
    rcases List.mem_flatMap.mp hCueVoice with
      ⟨slot, hSlot, hSlotVoice⟩
    exact b.written_of_pitchStream
      (pitchStream_written hParse b hBlock) cue hCue slot
      hSlot v hSlotVoice
  refine ⟨b.outcome_measuredLayout s index, hUpTo, ?_, ?_, ?_⟩
  · intro layout hLayout
    rw [← b.outcome_measuredLayout s index] at hLayout
    exact hAll layout hLayout
  · intro v hVoice
    refine ⟨hWritten v (hUpTo.subset hVoice),
      v.offsetKey_mem, ?_⟩
    rw [offset?_eq]
    exact Option.some_ne_none _
  · exact List.filterMap_eq_nil_iff.mpr fun v _ =>
      v.offsetRemark?_eq_none

/-
  A key of flats, double flats that are remembered, a
  chord of a natural and a double sharp, and a key
  whose sign alters nothing.
-/
def altered : String :=
  "T\n\nla la la la |la|\n[K&3] &&cac (%b##e) |[K##2] e\n"

/-
  Its voices have every sort of accidental, and nothing is
  remarked about them.
-/
theorem altered_heights_have_offsets :
    ∃ score b,
      Score.parse altered = .ok score ∧
        b ∈ score.blocks ∧
        b.resolvedVoices.map (fun v =>
            offsetKey v.tone.letter.name v.accidental) =
          ["𝄫c", "♭a", "𝄫c", "♮b", "𝄪e", "♮e"] ∧
        (b.measuredLayout
            (LayoutSettings.default : LayoutSettings Rat)
            0).remarks =
          [] := by
  have hRead :
      (Score.parse altered).map (fun score =>
          score.blocks.map fun b =>
            b.resolvedVoices.map fun v =>
              offsetKey v.tone.letter.name v.accidental) =
        .ok [["𝄫c", "♭a", "𝄫c", "♮b", "𝄪e", "♮e"]] := by
    decide +kernel
  rcases Outcome.map_eq_ok.mp hRead with
    ⟨score, hParse, hBlocks⟩
  rcases List.map_eq_singleton_iff.mp hBlocks with
    ⟨b, hSingle, hVoices⟩
  have hBlock : b ∈ score.blocks := by
    rw [hSingle]
    exact List.mem_singleton_self b
  rcases Score.heights_have_offsets hParse hBlock
      (LayoutSettings.default : LayoutSettings Rat) 0 with
    ⟨-, -, -, -, hRemarks⟩
  exact ⟨score, b, hParse, hBlock, hVoices, hRemarks⟩

end LyricScore
