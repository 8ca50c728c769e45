import LyricScore.Proofs.Drawing.Extent
import LyricScore.Proofs.Resolution

/-
  This file tells which bounds a drawing keeps when it is made
  with exact fractions.  All commands of a block lie below its
  top and inside its width and height, and they are moved down
  together.  What may lie left of the block is a tone of a
  chord, if the chord stands closer to the edge than its tones
  lie off their place.

  Key definitions include:
    * `DrawCommand.StartsInside`
    * `Cue.places`, `Block.places`
    * `Attack.HasLeftTone`, `leftPlaces`
    * `KeepsLeft`

  Key theorems include:
    * `KeepsLeft.startsInside_iff`
    * `Pen.keepsLeft_slot`
    * `Pen.keepsLeft_cues`
    * `Score.layout_keeps_bounds`
-/

namespace LyricScore

------------------------------------------------------------
-- Places
------------------------------------------------------------

section Places

variable {K : Type} [Coordinate K]

/- Subdivisions side by side, each with its place. -/
def Slot.places
    (s : LayoutSettings K)
    (x : K) : List (Slot Attack) → List (Slot Attack × K)
  | [] => []
  | slot :: rest =>
    (slot, x) ::
      places s
        (x + s.textWidth slot.subdivision.displayText) rest

/- The place behind subdivisions. -/
def Slot.placeBehind
    (s : LayoutSettings K)
    (x : K) : List (Slot Attack) → K
  | [] => x
  | slot :: rest =>
      placeBehind s
        (x + s.textWidth slot.subdivision.displayText) rest

/-
  The place of the next beat; one without
  subdivisions takes none.
-/
def Slot.nextBeat
    (s : LayoutSettings K)
    (x : K)
    (slots : List (Slot Attack)) : K :=
  if slots = [] then x
  else placeBehind s x slots + s.beatGap

/- The place behind a barline. -/
def LayoutSettings.behindBarline
    (s : LayoutSettings K)
    (x : K) : K :=
  x + (s.fontWidth + s.barlinePadding)

/- The subdivisions of cues, each with its place. -/
def Cue.places
    (s : LayoutSettings K)
    (x : K) : List (Cue Attack) → List (Slot Attack × K)
  | [] => []
  | .directive _ :: rest => places s x rest
  | .barline _ :: rest => places s (s.behindBarline x) rest
  | .beat _ slots :: rest =>
      Slot.places s x slots ++
        places s (Slot.nextBeat s x slots) rest

/- The subdivisions of a block, each with its place. -/
def Block.places
    (s : LayoutSettings K)
    (b : Block) : List (Slot Attack × K) :=
  Cue.places s s.baseMargin b.voices

/-
  Every second tone of a chord lies to
  the left of its place.
-/
def Attack.HasLeftTone
    (a : Attack) : Prop :=
  match a.delivery.element with
  | some (.chord _) => 2 ≤ a.voices.length
  | _ => False

instance
    (a : Attack) :
    Decidable a.HasLeftTone := by
  unfold Attack.HasLeftTone
  split <;> infer_instance

/- The places left of which there are tones. -/
def leftPlaces
    (placed : List (Slot Attack × K)) : List K :=
  placed.filterMap fun (slot, x) =>
    if slot.content.HasLeftTone then some x else none

/-
  Tones lie to the left of the places of just the slots that
  have such tones.
-/
omit [Coordinate K] in
theorem mem_leftPlaces
    {placed : List (Slot Attack × K)}
    {x : K} :
    x ∈ leftPlaces placed ↔
      ∃ slot,
        (slot, x) ∈ placed ∧ slot.content.HasLeftTone := by
  simp [leftPlaces]

omit [Coordinate K] in
theorem leftPlaces_cons
    (slot : Slot Attack)
    (x : K)
    (rest : List (Slot Attack × K)) :
    leftPlaces ((slot, x) :: rest) =
      (if slot.content.HasLeftTone then [x] else []) ++
        leftPlaces rest := by
  unfold leftPlaces
  split <;> simp [*]

omit [Coordinate K] in
theorem leftPlaces_append
    (placed more : List (Slot Attack × K)) :
    leftPlaces (placed ++ more) =
      leftPlaces placed ++ leftPlaces more :=
  List.filterMap_append

end Places

section Order

variable {s : LayoutSettings Rat}

/- No text ends left of where it starts. -/
theorem le_add_textWidth
    (hWidth : 0 < s.fontWidth)
    (x : Rat)
    (text : String) :
    x ≤ x + s.textWidth text := by
  rw [s.textWidth_eq]
  exact le_add_of_nonneg_right
    (mul_nonneg hWidth.le (Nat.cast_nonneg _))

/- Slots do not end left of where they start. -/
theorem Slot.le_placeBehind
    (hWidth : 0 < s.fontWidth)
    (x : Rat)
    (slots : List (Slot Attack)) :
    x ≤ Slot.placeBehind s x slots := by
  induction slots generalizing x with
  | nil =>
      exact le_refl x
  | cons slot slots ih =>
      exact (le_add_textWidth hWidth x
        slot.subdivision.displayText).trans (ih _)

/- No slot is placed left of where the slots start. -/
theorem Slot.le_places
    (hWidth : 0 < s.fontWidth)
    (x : Rat)
    (slots : List (Slot Attack)) :
    ∀ placed ∈ Slot.places s x slots, x ≤ placed.2 := by
  induction slots generalizing x with
  | nil =>
      simp [Slot.places]
  | cons slot slots ih =>
      rw [Slot.places, List.forall_mem_cons]
      refine ⟨le_refl x, fun placed hMember => ?_⟩
      exact (le_add_textWidth hWidth x _).trans
        (ih _ placed hMember)

/- The next beat is not left of the beat before it. -/
theorem Slot.le_nextBeat
    (hRange : s.InRange)
    (x : Rat)
    (slots : List (Slot Attack)) :
    x ≤ Slot.nextBeat s x slots := by
  have hWidth := LayoutSettings.positive_iff.mp hRange.fontWidth
  have hGap := LayoutSettings.notNegative_iff.mp hRange.beatGap
  unfold Slot.nextBeat
  split
  · exact le_refl x
  · exact (Slot.le_placeBehind hWidth x slots).trans
      (le_add_of_nonneg_right hGap)

/- What follows a barline is not left of it. -/
theorem LayoutSettings.InRange.le_behindBarline
    (hRange : s.InRange)
    (x : Rat) :
    x ≤ s.behindBarline x := by
  have hWidth := LayoutSettings.positive_iff.mp hRange.fontWidth
  have hPadding :=
    LayoutSettings.notNegative_iff.mp hRange.barlinePadding
  exact le_add_of_nonneg_right (add_nonneg hWidth.le hPadding)

/- The places of cues go on to the right. -/
theorem Cue.le_places
    (hRange : s.InRange)
    (x : Rat)
    (cs : List (Cue Attack)) :
    ∀ placed ∈ Cue.places s x cs, x ≤ placed.2 := by
  have hWidth := LayoutSettings.positive_iff.mp hRange.fontWidth
  induction cs generalizing x with
  | nil =>
      simp [Cue.places]
  | cons cue cs ih =>
      cases cue with
      | directive d =>
          exact ih x
      | barline measure =>
          exact fun placed hMember =>
            (hRange.le_behindBarline x).trans
              (ih _ placed hMember)
      | beat b slots =>
          rw [Cue.places, List.forall_mem_append]
          exact
            ⟨Slot.le_places hWidth x slots,
              fun placed hMember =>
                (Slot.le_nextBeat hRange x slots).trans
                  (ih _ placed hMember)⟩

end Order

------------------------------------------------------------
-- Left ends
------------------------------------------------------------

/-
  A command that starts in its block, and ends
  there if it is a line.
-/
def DrawCommand.StartsInside
    (c : DrawCommand Rat) : Prop :=
  0 ≤ c.x ∧ ∀ x2 ∈ c.x2, 0 ≤ x2

/-
  What is drawn starts inside, but for tones of chords left of
  the places that are listed; and there are such tones.
-/
structure KeepsLeft
    (s : LayoutSettings Rat)
    (places : List Rat)
    (drawn : List (DrawCommand Rat)) : Prop where
  starts :
    ∀ c ∈ drawn,
      c.StartsInside ∨
        ∃ x ∈ places, c.x = x - s.chordStagger ∧ c.x2 = none
  reached : ∀ x ∈ places, ∃ c ∈ drawn, c.x = x - s.chordStagger

namespace KeepsLeft

variable {s : LayoutSettings Rat}
variable {places others : List Rat}
variable {drawn more : List (DrawCommand Rat)}

/-
  What starts inside needs no places left of
  which there are tones.
-/
theorem of_startsInside
    (hStarts : ∀ c ∈ drawn, c.StartsInside) :
    KeepsLeft s [] drawn :=
  ⟨fun c hMember => Or.inl (hStarts c hMember), by simp⟩

theorem append
    (hFirst : KeepsLeft s places drawn)
    (hMore : KeepsLeft s others more) :
    KeepsLeft s (places ++ others) (drawn ++ more) := by
  constructor
  · intro c hMember
    rcases List.mem_append.mp hMember with hMember | hMember
    · apply (hFirst.starts c hMember).imp_right
      rintro ⟨x, hPlace, hEnds⟩
      exact ⟨x, List.mem_append_left others hPlace, hEnds⟩
    · apply (hMore.starts c hMember).imp_right
      rintro ⟨x, hPlace, hEnds⟩
      exact ⟨x, List.mem_append_right places hPlace, hEnds⟩
  · intro x hPlace
    rcases List.mem_append.mp hPlace with hPlace | hPlace
    · rcases hFirst.reached x hPlace with ⟨c, hMember, hEnd⟩
      exact ⟨c, List.mem_append_left more hMember, hEnd⟩
    · rcases hMore.reached x hPlace with ⟨c, hMember, hEnd⟩
      exact ⟨c, List.mem_append_right drawn hMember, hEnd⟩

/-
  All starts inside if no chord stands too close to the
  edge, and only then.
-/
theorem startsInside_iff
    (hKeeps : KeepsLeft s places drawn) :
    (∀ c ∈ drawn, c.StartsInside) ↔
      ∀ x ∈ places, s.chordStagger ≤ x := by
  constructor
  · intro hStarts x hPlace
    rcases hKeeps.reached x hPlace with ⟨c, hMember, hEnd⟩
    have hStart := (hStarts c hMember).1
    linarith
  · intro hPlaces c hMember
    rcases hKeeps.starts c hMember with
      hStart | ⟨x, hPlace, hEnd, hSingle⟩
    · exact hStart
    · have hFar := hPlaces x hPlace
      exact ⟨by linarith, by simp [hSingle]⟩

theorem moved
    (hKeeps : KeepsLeft s places drawn)
    (dy : Rat) :
    KeepsLeft s places (drawn.map (·.moved 0 dy)) := by
  constructor
  · rw [List.forall_mem_map]
    intro c hMember
    rw [DrawCommand.StartsInside, c.x_moved, c.x2_moved]
    exact hKeeps.starts c hMember
  · intro x hPlace
    rcases hKeeps.reached x hPlace with ⟨c, hMember, hEnd⟩
    exact ⟨c.moved 0 dy, List.mem_map_of_mem hMember,
      (c.x_moved dy).trans hEnd⟩

end KeepsLeft

namespace Pen

section Left

variable {s : LayoutSettings Rat}

/- The middle of a glyph is not left of the edge. -/
theorem middle_nonneg
    {x : Rat}
    (hStart : 0 ≤ x)
    (hWidth : 0 < s.fontWidth) :
    0 ≤ x + s.fontWidth / Coordinate.nat 2 := by
  rw [Coordinate.nat_eq_cast]
  exact add_nonneg hStart
    (div_nonneg hWidth.le (Nat.cast_nonneg 2))

/-
  A lyric directive is drawn at the pen,
  which stays where it is.
-/
theorem keepsLeft_lyricDirective
    {p q : Pen Rat}
    {d : Directive}
    {drawn : List (DrawCommand Rat)}
    (hStart : 0 ≤ p.x)
    (hDraw : lyricDirective s p d = .ok (drawn, q)) :
    KeepsLeft s [] drawn ∧ q.x = p.x := by
  cases hOrder : d.order with
  | tempo bpm =>
      simp only [lyricDirective, hOrder, Outcome.bind_eq_ok,
        Outcome.pure_eq, Except.ok.injEq,
        Prod.mk.injEq] at hDraw
      rcases hDraw with ⟨text, -, rfl, rfl⟩
      refine ⟨.of_startsInside ?_, rfl⟩
      rw [List.forall_mem_singleton]
      exact ⟨hStart, by simp [tempoCommand]⟩
  | _ =>
      simp only [lyricDirective, hOrder, Except.ok.injEq,
        Prod.mk.injEq] at hDraw
      rcases hDraw with ⟨rfl, rfl⟩
      exact ⟨.of_startsInside (by simp), rfl⟩

/-
  Lyric directives are drawn at the pen,
  which stays where it is.
-/
theorem keepsLeft_lyricDirectives
    {p q : Pen Rat}
    {ds : List Directive}
    {drawn : List (DrawCommand Rat)}
    (hStart : 0 ≤ p.x)
    (hDraw : lyricDirectives s p ds = .ok (drawn, q)) :
    KeepsLeft s [] drawn ∧ q.x = p.x := by
  induction ds generalizing p drawn with
  | nil =>
      simp only [lyricDirectives, Except.ok.injEq,
        Prod.mk.injEq] at hDraw
      rcases hDraw with ⟨rfl, rfl⟩
      exact ⟨.of_startsInside (by simp), rfl⟩
  | cons d ds ih =>
      simp only [lyricDirectives, Outcome.bind_eq_ok,
        Outcome.pure_eq, Except.ok.injEq,
        Prod.mk.injEq] at hDraw
      rcases hDraw with
        ⟨⟨first, r⟩, hFirst, ⟨more, q⟩, hMore, rfl, rfl⟩
      rcases keepsLeft_lyricDirective hStart hFirst with
        ⟨hHere, hPlace⟩
      rcases ih (by rwa [hPlace]) hMore with ⟨hRest, hLast⟩
      exact ⟨hHere.append hRest, hLast.trans hPlace⟩

/- An octave does not lie left of the edge. -/
theorem startsInside_octaveCommands
    {x : Rat}
    {ds : List Directive}
    {drawn : List (DrawCommand Rat)}
    (hDraw : octaveCommands s x ds = .ok drawn) :
    ∀ c ∈ drawn, c.StartsInside := by
  induction ds generalizing drawn with
  | nil =>
      simp only [octaveCommands, Except.ok.injEq] at hDraw
      subst hDraw
      simp
  | cons d ds ih =>
      cases hOrder : d.order with
      | referenceOctave octave =>
          simp only [octaveCommands, hOrder,
            Outcome.bind_eq_ok, Outcome.pure_eq,
            Except.ok.injEq] at hDraw
          rcases hDraw with ⟨text, -, more, hMore, rfl⟩
          rw [List.forall_mem_cons]
          refine ⟨⟨?_, by simp [octaveCommand]⟩, ih hMore⟩
          rw [octaveCommand, Coordinate.greater_eq_max,
            Coordinate.nat_eq_cast]
          exact le_max_left _ _
      | _ =>
          simp only [octaveCommands, hOrder] at hDraw
          exact ih hDraw

/- A letter is drawn at the place of its slot. -/
theorem x_voiceCommand
    {reference : Int}
    {x : Rat}
    {v : Voice}
    {c : DrawCommand Rat}
    (hDraw : voiceCommand s reference x v = .ok c) :
    c.x = x ∧ c.x2 = none := by
  unfold voiceCommand at hDraw
  split at hDraw
  · simp only [Outcome.bind_eq_ok, Outcome.pure_eq,
      Except.ok.injEq] at hDraw
    rcases hDraw with ⟨y, -, rfl⟩
    exact ⟨rfl, rfl⟩
  · cases hDraw

/-
  The tones of a chord are drawn on either side of the place
  of their slot.
-/
theorem x_chordCommands
    {reference : Int}
    {x : Rat}
    {right : Bool}
    {vs : List Voice}
    {drawn : List (DrawCommand Rat)}
    (hDraw : chordCommands s reference x right vs = .ok drawn) :
    ∀ c ∈ drawn,
      (c.x = x + s.chordStagger ∨
          c.x = x - s.chordStagger) ∧
        c.x2 = none := by
  induction vs generalizing right drawn with
  | nil =>
      simp only [chordCommands, Except.ok.injEq] at hDraw
      subst hDraw
      simp
  | cons v vs ih =>
      simp only [chordCommands, Outcome.bind_eq_ok,
        Outcome.pure_eq, Except.ok.injEq] at hDraw
      rcases hDraw with ⟨first, hFirst, more, hMore, rfl⟩
      rcases x_voiceCommand hFirst with ⟨hPlace, hSingle⟩
      rw [List.forall_mem_cons]
      refine ⟨⟨?_, hSingle⟩, ih hMore⟩
      cases right with
      | true =>
          exact Or.inl hPlace
      | false =>
          exact Or.inr
            (hPlace.trans
              (sub_eq_add_neg x s.chordStagger).symm)

/- The second tone of a chord lies left of its place. -/
theorem keepsLeft_chordCommands
    {reference : Int}
    {x : Rat}
    {vs : List Voice}
    {drawn : List (DrawCommand Rat)}
    (hStart : 0 ≤ x)
    (hStagger : 0 ≤ s.chordStagger)
    (hDraw : chordCommands s reference x true vs = .ok drawn) :
    KeepsLeft s (if 2 ≤ vs.length then [x] else []) drawn := by
  have hPlaces := x_chordCommands hDraw
  cases vs with
  | nil =>
      simp only [chordCommands, Except.ok.injEq] at hDraw
      subst hDraw
      exact .of_startsInside (by simp)
  | cons v vs =>
      simp only [chordCommands, Outcome.bind_eq_ok,
        Outcome.pure_eq, Except.ok.injEq] at hDraw
      rcases hDraw with ⟨first, hFirst, more, hMore, rfl⟩
      have hRight : first.StartsInside := by
        rcases x_voiceCommand hFirst with ⟨hPlace, hSingle⟩
        refine ⟨?_, by simp [hSingle]⟩
        rw [hPlace]
        exact add_nonneg hStart hStagger
      cases vs with
      | nil =>
          simp only [chordCommands, Except.ok.injEq] at hMore
          subst hMore
          exact .of_startsInside (by simpa using hRight)
      | cons w vs =>
          simp only [chordCommands, Outcome.bind_eq_ok,
            Outcome.pure_eq, Except.ok.injEq] at hMore
          rcases hMore with ⟨second, hSecond, rest, -, rfl⟩
          have hLeft : second.x = x - s.chordStagger :=
            (x_voiceCommand hSecond).1.trans
              (sub_eq_add_neg x s.chordStagger).symm
          have hTwo : 2 ≤ (v :: w :: vs).length := by simp
          rw [if_pos hTwo]
          constructor
          · intro c hMember
            rcases hPlaces c hMember with
              ⟨hPlace | hPlace, hSingle⟩
            · refine Or.inl ⟨?_, by simp [hSingle]⟩
              rw [hPlace]
              exact add_nonneg hStart hStagger
            · exact Or.inr
                ⟨x, List.mem_singleton_self x, hPlace,
                  hSingle⟩
          · rw [List.forall_mem_singleton]
            exact ⟨second, by simp, hLeft⟩

/- Letters that are no chord start inside. -/
theorem startsInside_mapM_voiceCommand
    {reference : Int}
    {x : Rat}
    {vs : List Voice}
    {drawn : List (DrawCommand Rat)}
    (hStart : 0 ≤ x)
    (hDraw : vs.mapM (voiceCommand s reference x) = .ok drawn) :
    ∀ c ∈ drawn, c.StartsInside := by
  induction vs generalizing drawn with
  | nil =>
      simp only [List.mapM_nil, Outcome.pure_eq,
        Except.ok.injEq] at hDraw
      subst hDraw
      simp
  | cons v vs ih =>
      simp only [List.mapM_cons, Outcome.bind_eq_ok,
        Outcome.pure_eq, Except.ok.injEq] at hDraw
      rcases hDraw with ⟨first, hFirst, more, hMore, rfl⟩
      rcases x_voiceCommand hFirst with ⟨hPlace, hSingle⟩
      rw [List.forall_mem_cons]
      exact ⟨⟨hStart.trans_eq hPlace.symm,
          by simp [hSingle]⟩, ih hMore⟩

/- Only the tones of a chord can start left of their slot. -/
theorem keepsLeft_slot
    {x : Rat}
    {part : Slot Attack}
    {drawn : List (DrawCommand Rat)}
    (hStart : 0 ≤ x)
    (hStagger : 0 ≤ s.chordStagger)
    (hDraw : slot s x part = .ok drawn) :
    KeepsLeft s
      (if part.content.HasLeftTone then [x] else [])
      drawn := by
  simp only [slot, Outcome.bind_eq_ok, Outcome.pure_eq,
    Except.ok.injEq] at hDraw
  rcases hDraw with ⟨octaves, hOctaves, letters, hLetters, rfl⟩
  have hLyric :
      ∀ c ∈ lyricCommand s x part.subdivision.displayText ::
        octaves,
        c.StartsInside := by
    rw [List.forall_mem_cons]
    exact ⟨⟨hStart, by simp [lyricCommand]⟩,
      startsInside_octaveCommands hOctaves⟩
  have hTones :
      KeepsLeft s
        (if part.content.HasLeftTone then [x] else [])
        letters := by
    unfold voiceCommands at hLetters
    cases hElement : part.content.delivery.element with
    | none =>
        rw [hElement] at hLetters
        rw [if_neg (by simp [Attack.HasLeftTone, hElement])]
        exact .of_startsInside
          (startsInside_mapM_voiceCommand hStart hLetters)
    | some sounding =>
        rw [hElement] at hLetters
        cases sounding with
        | pitch p =>
            rw [if_neg (by simp [Attack.HasLeftTone, hElement])]
            exact .of_startsInside
              (startsInside_mapM_voiceCommand hStart
                hLetters)
        | chord c =>
            have hLeft :
                part.content.HasLeftTone ↔
                  2 ≤ part.content.voices.length := by
              simp [Attack.HasLeftTone, hElement]
            simp only [hLeft]
            exact keepsLeft_chordCommands hStart hStagger
              hLetters
  exact (KeepsLeft.of_startsInside hLyric).append hTones

/-
  The slots of a beat keep their bounds on the left, and the
  pen ends behind them.
-/
theorem keepsLeft_slots
    {x endX : Rat}
    {parts : List (Slot Attack)}
    {drawn : List (DrawCommand Rat)}
    (hStart : 0 ≤ x)
    (hWidth : 0 < s.fontWidth)
    (hStagger : 0 ≤ s.chordStagger)
    (hDraw : slots s x parts = .ok (drawn, endX)) :
    KeepsLeft s (leftPlaces (Slot.places s x parts)) drawn ∧
      endX = Slot.placeBehind s x parts := by
  induction parts generalizing x drawn with
  | nil =>
      simp only [slots, Except.ok.injEq, Prod.mk.injEq] at hDraw
      rcases hDraw with ⟨rfl, rfl⟩
      exact ⟨.of_startsInside (by simp), rfl⟩
  | cons part parts ih =>
      simp only [slots, Outcome.bind_eq_ok, Outcome.pure_eq,
        Except.ok.injEq, Prod.mk.injEq] at hDraw
      rcases hDraw with
        ⟨first, hFirst, ⟨more, last⟩, hMore, rfl, rfl⟩
      have hNext :=
        hStart.trans
          (le_add_textWidth hWidth x
            part.subdivision.displayText)
      rcases ih hNext hMore with ⟨hRest, hEnd⟩
      rw [Slot.places, leftPlaces_cons]
      exact ⟨(keepsLeft_slot hStart hStagger hFirst).append
          hRest, hEnd⟩

/- A counter and its circle start inside. -/
theorem startsInside_counterCommands
    {p : Pen Rat}
    {block : Int}
    {drawn : List (DrawCommand Rat)}
    (hStart : 0 ≤ p.x)
    (hWidth : 0 < s.fontWidth)
    (hDraw : counterCommands s p block = .ok drawn) :
    ∀ c ∈ drawn, c.StartsInside := by
  simp only [counterCommands, Outcome.bind_eq_ok,
    Outcome.pure_eq, Except.ok.injEq] at hDraw
  rcases hDraw with ⟨text, -, rfl⟩
  have hMiddle := middle_nonneg hStart hWidth
  rw [List.forall_mem_cons, List.forall_mem_singleton]
  exact ⟨⟨hMiddle, by simp [circleCommand]⟩,
    ⟨hMiddle, by simp [counterCommand]⟩⟩

/- A beat goes on to the right. -/
theorem keepsLeft_drawBeat
    {block : Int}
    {p q : Pen Rat}
    {b : Beat}
    {parts : List (Slot Attack)}
    {drawn : List (DrawCommand Rat)}
    (hRange : s.InRange)
    (hStart : 0 ≤ p.x)
    (hDraw : drawBeat s block p b parts = .ok (drawn, q)) :
    KeepsLeft s (leftPlaces (Slot.places s p.x parts)) drawn ∧
      q.x = Slot.nextBeat s p.x parts := by
  have hWidth := LayoutSettings.positive_iff.mp hRange.fontWidth
  have hStagger :=
    LayoutSettings.notNegative_iff.mp hRange.chordStagger
  simp only [drawBeat, Outcome.bind_eq_ok] at hDraw
  rcases hDraw with ⟨⟨directed, r⟩, hDirected, hDraw⟩
  rcases keepsLeft_lyricDirectives hStart hDirected with
    ⟨hDirectives, hPlace⟩
  by_cases hEmpty : parts = []
  · subst hEmpty
    simp only [if_true, Except.ok.injEq, Prod.mk.injEq] at hDraw
    rcases hDraw with ⟨rfl, rfl⟩
    exact ⟨hDirectives, hPlace⟩
  · simp only [hEmpty, if_false, Outcome.bind_eq_ok,
      Outcome.pure_eq, Except.ok.injEq,
      Prod.mk.injEq] at hDraw
    rcases hDraw with
      ⟨⟨shown, endX⟩, hShown, counter, hCounter, scale, -,
        rfl, rfl⟩
    have hHere : 0 ≤ r.x := by
      rw [hPlace]
      exact hStart
    rcases keepsLeft_slots hHere hWidth hStagger hShown with
      ⟨hSlots, rfl⟩
    have hCounters :=
      KeepsLeft.of_startsInside (s := s)
        (startsInside_counterCommands hHere hWidth hCounter)
    rw [hPlace] at hSlots
    have hAll := (hDirectives.append hSlots).append hCounters
    rw [List.nil_append, List.append_nil] at hAll
    rw [Slot.nextBeat, if_neg hEmpty, hPlace]
    exact ⟨hAll, rfl⟩

/-
  Cues go on to the right, and keep what they draw inside
  but for tones of chords.
-/
theorem keepsLeft_cues
    {block : Int}
    {p q : Pen Rat}
    {cs : List (Cue Attack)}
    {drawn : List (DrawCommand Rat)}
    (hRange : s.InRange)
    (hStart : 0 ≤ p.x)
    (hDraw : cues s block p cs = .ok (drawn, q)) :
    KeepsLeft s (leftPlaces (Cue.places s p.x cs)) drawn ∧
      p.x ≤ q.x := by
  have hWidth := LayoutSettings.positive_iff.mp hRange.fontWidth
  induction cs generalizing p drawn with
  | nil =>
      simp only [cues, Except.ok.injEq, Prod.mk.injEq] at hDraw
      rcases hDraw with ⟨rfl, rfl⟩
      exact ⟨.of_startsInside (by simp), le_refl p.x⟩
  | cons cue cs ih =>
      cases cue with
      | directive d =>
          simp only [cues, Outcome.bind_eq_ok,
            Outcome.pure_eq, Except.ok.injEq,
            Prod.mk.injEq] at hDraw
          rcases hDraw with
            ⟨⟨first, r⟩, hFirst, ⟨more, last⟩, hMore, rfl,
              rfl⟩
          rcases keepsLeft_lyricDirective hStart hFirst with
            ⟨hHere, hPlace⟩
          have hRest := ih (hStart.trans_eq hPlace.symm) hMore
          rw [hPlace] at hRest
          exact ⟨hHere.append hRest.1, hRest.2⟩
      | barline measure =>
          simp only [cues, Outcome.bind_eq_ok,
            Outcome.pure_eq, Except.ok.injEq,
            Prod.mk.injEq] at hDraw
          rcases hDraw with ⟨⟨more, last⟩, hMore, rfl, rfl⟩
          have hNext : p.x ≤ (p.passBarline s).x :=
            hRange.le_behindBarline p.x
          rcases ih (hStart.trans hNext) hMore with
            ⟨hRest, hEnd⟩
          have hLine : (barlineCommand s p).StartsInside := by
            have hMiddle := middle_nonneg hStart hWidth
            refine ⟨hMiddle, ?_⟩
            rintro x2 ⟨⟩
            exact hMiddle
          have hHere : KeepsLeft s [] [barlineCommand s p] :=
            .of_startsInside (by simpa using hLine)
          exact ⟨hHere.append hRest, hNext.trans hEnd⟩
      | beat b parts =>
          simp only [cues, Outcome.bind_eq_ok,
            Outcome.pure_eq, Except.ok.injEq,
            Prod.mk.injEq] at hDraw
          rcases hDraw with
            ⟨⟨first, r⟩, hFirst, ⟨more, last⟩, hMore, rfl,
              rfl⟩
          rcases keepsLeft_drawBeat hRange hStart
              hFirst with
            ⟨hHere, hPlace⟩
          have hNext : p.x ≤ r.x := by
            rw [hPlace]
            exact Slot.le_nextBeat hRange p.x parts
          rcases ih (hStart.trans hNext) hMore with
            ⟨hRest, hEnd⟩
          rw [Cue.places, leftPlaces_append, ← hPlace]
          exact ⟨hHere.append hRest, hNext.trans hEnd⟩

end Left

end Pen

------------------------------------------------------------
-- Bounds
------------------------------------------------------------

/-
  Guide lines start inside, so a finished drawing starts
  where what is drawn does.
-/
theorem BlockLayout.keepsLeft_finish
    {s : LayoutSettings Rat}
    {endX : Rat}
    {places : List Rat}
    {drawn : List (DrawCommand Rat)}
    (hRange : s.InRange)
    (hEnd : s.baseMargin ≤ endX)
    (hKeeps : KeepsLeft s places drawn) :
    KeepsLeft s places (finish s endX drawn).commands := by
  have hMargin :=
    LayoutSettings.notNegative_iff.mp hRange.baseMargin
  have hGuide (octaves : Rat) :
      (guide s endX octaves).StartsInside := by
    refine ⟨hMargin, ?_⟩
    rintro x2 ⟨⟩
    exact hMargin.trans hEnd
  have hGuides :
      ∀ c ∈ lowestGuide s endX :: upperGuides s endX,
        c.StartsInside := by
    simp only [lowestGuide, upperGuides, List.forall_mem_cons]
    exact ⟨hGuide _, hGuide _, hGuide _, by simp⟩
  rcases moved_finish s endX drawn with ⟨dy, -, hMoved, -⟩
  rw [hMoved]
  exact ((KeepsLeft.of_startsInside hGuides).append
    hKeeps).moved dy

/-
  The bounds of a drawing.  Every command of a block lies below
  its top and inside its width and height, also where a text or
  a circle ends, and all are moved down together.  Commands
  start inside but for tones of chords that lie left of their
  places; so all do if and only if no such place is closer to
  the edge than these tones lie off it.  The places begin at
  the margin.
-/
theorem Score.layout_keeps_bounds
    {settings : LayoutSettings Rat}
    {score : Score}
    {drawing : ScoreLayout Rat}
    (hRange : settings.InRange)
    (hDrawing : score.layout settings = .ok drawing) :
    drawing.blocks.length = score.blocks.length ∧
      ∀ (i : Nat) (b : Block) (layout : BlockLayout Rat),
        score.blocks[i]? = some b →
          drawing.blocks[i]? = some layout →
            let places := leftPlaces (b.places settings)
            (∀ c ∈ layout.commands,
                c.LiesInside settings layout.width
                  layout.height) ∧
              KeepsLeft settings places layout.commands ∧
              ((∀ c ∈ layout.commands, c.StartsInside) ↔
                ∀ x ∈ places, settings.chordStagger ≤ x) ∧
              (∀ x ∈ places, settings.baseMargin ≤ x) ∧
              ∃ drawn p dy,
                Pen.cues settings i
                      { x := settings.baseMargin }
                      b.voices =
                    .ok (drawn, p) ∧
                  0 ≤ dy ∧
                  layout.commands =
                    (BlockLayout.unmoved settings p.x
                      drawn).map (·.moved 0 dy) := by
  simp only [Score.layout, Outcome.bind_eq_ok,
    Outcome.pure_eq, Except.ok.injEq] at hDrawing
  rcases hDrawing with ⟨layouts, hLayouts, rfl⟩
  rcases layoutBlocks_eq_ok hLayouts with ⟨hLength, hEach⟩
  refine ⟨hLength, ?_⟩
  intro i b layout hBlock hLayout places
  have hDrawn := hEach i b layout hBlock hLayout
  simp only [Block.layout, Nat.zero_add, Outcome.bind_eq_ok,
    Outcome.pure_eq, Except.ok.injEq] at hDrawn
  rcases hDrawn with ⟨⟨drawn, p⟩, hCues, rfl⟩
  have hRadius :=
    LayoutSettings.positive_iff.mp hRange.counterRadius
  have hMargin :=
    LayoutSettings.notNegative_iff.mp hRange.baseMargin
  have hShaped :=
    isShaped_of_draws hRadius (Pen.draws_cues hCues)
  rcases Pen.keepsLeft_cues hRange hMargin hCues with
    ⟨hKeeps, hEnd⟩
  have hStarts :
      KeepsLeft settings places
        (BlockLayout.finish settings p.x drawn).commands :=
    BlockLayout.keepsLeft_finish hRange hEnd hKeeps
  have hPlaces : ∀ x ∈ places, settings.baseMargin ≤ x := by
    intro x hPlace
    rcases mem_leftPlaces.mp hPlace with ⟨slot, hMember, -⟩
    exact Cue.le_places hRange settings.baseMargin b.voices
      (slot, x) hMember
  rcases BlockLayout.moved_finish settings p.x drawn with
    ⟨dy, hDown, hMoved, -⟩
  exact ⟨BlockLayout.liesInside_finish hRange hShaped,
    hStarts, hStarts.startsInside_iff, hPlaces, drawn, p,
    dy, hCues, hDown, hMoved⟩

/- A chord at the margin, three octaves above the staff. -/
def Score.towering : Score where
  blocks := [
    { lyricLines := [
        { measures := [
            { beats := [
                { elements := [
                    .subdivision ⟨.syllable, "la", {}⟩] }]
              barline := true }] }]
      pitchLines := [
        { measures := [
            { elements := [
                .chord {
                  pitches := [
                    { letter := .c, shift := 3 },
                    { letter := .e }] }]
              barline := true }] }] }]

/-
  Settings with a margin that is less wide than tones lie
  off their place.
-/
def LayoutSettings.cramped : LayoutSettings Rat :=
  { LayoutSettings.default with baseMargin := Coordinate.nat 1 }

/-
  Its commands keep their bounds on the right and below, but
  not all of them start inside.
-/
theorem Score.towering_keeps_bounds :
    LayoutSettings.cramped.InRange ∧
      ∃ drawing layout,
        towering.layout .cramped = .ok drawing ∧
          drawing.blocks[0]? = some layout ∧
          (∀ c ∈ layout.commands,
            c.LiesInside .cramped layout.width
              layout.height) ∧
          ¬ ∀ c ∈ layout.commands, c.StartsInside := by
  have hRange : LayoutSettings.cramped.InRange := by
    constructor <;> decide +kernel
  have hOk : (towering.layout .cramped).isOk = true := by
    decide +kernel
  rcases Outcome.exists_eq_ok hOk with ⟨drawing, hDrawing⟩
  rcases Score.layout_keeps_bounds hRange hDrawing with
    ⟨hLength, hEach⟩
  have hOne : 0 < drawing.blocks.length := by
    rw [hLength]
    decide
  have hLayout := List.getElem?_eq_getElem hOne
  rcases hEach 0 _ _ rfl hLayout with ⟨hInside, -, hStarts, -⟩
  refine ⟨hRange, drawing, _, hDrawing, hLayout, hInside, ?_⟩
  rw [hStarts]
  decide +kernel

end LyricScore
