import LyricScore.Proofs.Stream.Segment

/-
  This file tells where in a block the pitches and chords stand
  that its attacks take, and what taking does to a stream in
  which one of them is replaced.

  Key definitions include:
    * `Sounding.pitches`
    * `PitchStream.taken`
    * `SoundingPlace`
    * `Block.FirstResolved`

  Key theorems include:
    * `PitchStream.attack_hole`
    * `PitchStream.passBarline_hole`
    * `PitchStream.taken_suffix`
    * `PitchStream.map_taken`
    * `exists_place_of_split`
    * `Block.exists_firstResolved`
-/

namespace LyricScore

------------------------------------------------------------
-- Lists in a row
------------------------------------------------------------

/- What stands in lists in a row stands in one of them. -/
theorem exists_of_flatMap_eq_append_cons
    {α β : Type}
    {f : α → List β}
    {xs : List α}
    {before after : List β}
    {y : β}
    (hSplit : xs.flatMap f = before ++ y :: after) :
    ∃ earlier x later inner rest,
      xs = earlier ++ x :: later ∧
        f x = inner ++ y :: rest ∧
        before = earlier.flatMap f ++ inner ∧
        after = rest ++ later.flatMap f := by
  induction xs generalizing before with
  | nil =>
      simp at hSplit
  | cons x xs ih =>
      rw [List.flatMap_cons,
        List.append_eq_append_iff] at hSplit
      rcases hSplit with
        ⟨past, rfl, hRest⟩ | ⟨part, hHere, hRest⟩
      · rcases ih hRest with
          ⟨earlier, z, later, inner, rest, rfl, hInner, rfl,
            rfl⟩
        exact ⟨x :: earlier, z, later, inner, rest, rfl,
          hInner, by simp, rfl⟩
      · cases part with
        | nil =>
            have hHead : xs.flatMap f = [] ++ y :: after :=
              hRest.symm
            rcases ih hHead with
              ⟨earlier, z, later, inner, rest, rfl, hInner,
                hNil, rfl⟩
            refine ⟨x :: earlier, z, later, inner, rest,
              rfl, hInner, ?_, rfl⟩
            rw [List.flatMap_cons, List.append_assoc,
              ← hNil, hHere, List.append_nil,
              List.append_nil]
        | cons z part =>
            rcases List.cons.inj hRest with ⟨rfl, rfl⟩
            exact ⟨[], x, xs, before, part, rfl, hHere, rfl,
              rfl⟩

------------------------------------------------------------
-- Pitches and chords
------------------------------------------------------------

namespace Sounding

/- The pitches that sound, from the lowest up. -/
def pitches : Sounding → List Pitch
  | pitch p => [p]
  | chord c => c.pitches

/- A pitch or a chord as an element of a measure. -/
def element : Sounding → PitchElement
  | pitch p => .pitch p
  | chord c => .chord c

@[simp] theorem item_element
    (x : Sounding) :
    x.element.item = .sounding x := by
  cases x <;> rfl

end Sounding

theorem PitchElement.eq_element_of_item
    {e : PitchElement}
    {x : Sounding}
    (hItem : e.item = .sounding x) :
    e = x.element := by
  cases e with
  | directive d =>
      cases hItem
  | _ =>
      rcases PitchItem.sounding.inj hItem with rfl
      rfl

------------------------------------------------------------
-- What attacks take
------------------------------------------------------------

namespace PitchStream

/-
  What an attack takes, if it takes
  anything, and what it leaves.
-/
def take?
    (s : PitchStream) : List (Sounding × PitchStream) :=
  s.attack.1.element.toList.map fun x => (x, s.attack.2)

/-
  What subdivisions take in turn, each with
  what is left behind it.
-/
def takenBy
    (s : PitchStream) :
      List Subdivision → List (Sounding × PitchStream)
  | [] => []
  | sub :: subs =>
    if sub.IsAttack then s.take? ++ takenBy s.attack.2 subs
    else takenBy s subs

/-
  What a lyric stream takes in turn, each with
  what is left behind it.
-/
def taken
    (s : PitchStream) :
      List LyricItem → List (Sounding × PitchStream)
  | [] => []
  | .directive _ :: items => taken s items
  | .barline _ :: items => taken s.passBarline.2 items
  | .beat b :: items =>
      s.takenBy b.subdivisions ++
        taken (s.fill b.subdivisions).2 items

/-
  What an attack leaves is an end of the stream, and its
  element stands before that.
-/
theorem attack_suffix
    (s : PitchStream) :
    s.attack.2 <:+ s ∧
      ∀ x ∈ s.attack.1.element,
        (.sounding x :: s.attack.2) <:+ s := by
  induction s with
  | nil =>
      simp [attack]
  | cons item s ih =>
      cases item with
      | directive d =>
          refine ⟨ih.1.trans (List.suffix_cons _ _), ?_⟩
          intro x hElement
          exact (ih.2 x hElement).trans (List.suffix_cons _ _)
      | sounding x =>
          simp [attack]
      | barline =>
          simp [attack]

/- What is taken stands before what is left. -/
theorem take?_suffix
    {s : PitchStream}
    {x : Sounding}
    {left : PitchStream}
    (hTaken : (x, left) ∈ s.take?) :
    (.sounding x :: left) <:+ s := by
  simp only [take?, List.mem_map, Option.mem_toList,
    Prod.mk.injEq] at hTaken
  rcases hTaken with ⟨y, hElement, rfl, rfl⟩
  exact (attack_suffix s).2 y hElement

/- What is left behind a barline is an end of the stream. -/
theorem passBarline_suffix
    (s : PitchStream) :
    s.passBarline.2 <:+ s := by
  induction s with
  | nil =>
      simp [passBarline]
  | cons item s ih =>
      cases item with
      | barline =>
          exact List.suffix_cons _ _
      | _ =>
          exact ih.trans (List.suffix_cons _ _)

/- What subdivisions leave is an end of the stream. -/
theorem fill_suffix
    (s : PitchStream)
    (subs : List Subdivision) :
    (s.fill subs).2 <:+ s := by
  induction subs generalizing s with
  | nil =>
      exact List.suffix_rfl
  | cons sub subs ih =>
      by_cases hAttack : sub.IsAttack
      · simp only [fill, if_pos hAttack]
        exact (ih s.attack.2).trans (attack_suffix s).1
      · simp only [fill, if_neg hAttack]
        exact ih s

/- What subdivisions take stands before what is left then. -/
theorem takenBy_suffix
    {s : PitchStream}
    {subs : List Subdivision}
    {x : Sounding}
    {left : PitchStream}
    (hTaken : (x, left) ∈ s.takenBy subs) :
    (.sounding x :: left) <:+ s := by
  induction subs generalizing s with
  | nil =>
      cases hTaken
  | cons sub subs ih =>
      rw [takenBy] at hTaken
      split at hTaken
      · rcases List.mem_append.mp hTaken with hFirst | hRest
        · exact take?_suffix hFirst
        · exact (ih hRest).trans (attack_suffix s).1
      · exact ih hTaken

/-
  What is taken stands in the stream before
  what is left behind it.
-/
theorem taken_suffix
    {s : PitchStream}
    {items : List LyricItem}
    {x : Sounding}
    {left : PitchStream}
    (hTaken : (x, left) ∈ s.taken items) :
    (.sounding x :: left) <:+ s := by
  induction items generalizing s with
  | nil =>
      cases hTaken
  | cons item items ih =>
      cases item with
      | directive d =>
          exact ih hTaken
      | barline measure =>
          exact (ih hTaken).trans (passBarline_suffix s)
      | beat b =>
          rcases List.mem_append.mp hTaken with hHere | hRest
          · exact takenBy_suffix hHere
          · exact (ih hRest).trans
              (fill_suffix s b.subdivisions)

/- What subdivisions take is what they receive. -/
theorem map_takenBy
    (s : PitchStream)
    (subs : List Subdivision) :
    (s.takenBy subs).map Prod.fst =
      (receivedBy (s.fill subs).1).filterMap
        Delivery.element := by
  induction subs generalizing s with
  | nil =>
      rfl
  | cons sub subs ih =>
      by_cases hAttack : sub.IsAttack
      · have hTaken :
            s.take?.map Prod.fst =
              s.attack.1.element.toList := by
          simp [take?, Function.comp_def]
        have hReceived :
            receivedBy (s.fill (sub :: subs)).1 =
              s.attack.1 ::
                receivedBy (s.attack.2.fill subs).1 := by
          simp [fill, receivedBy, hAttack]
        rw [takenBy, if_pos hAttack, List.map_append,
          hTaken, ih, hReceived]
        cases hElement : s.attack.1.element <;> simp [hElement]
      · have hReceived :
            receivedBy (s.fill (sub :: subs)).1 =
              receivedBy (s.fill subs).1 := by
          simp [fill, receivedBy, hAttack]
        rw [takenBy, if_neg hAttack, ih, hReceived]

/- What is taken is what the attacks receive, in order. -/
theorem map_taken
    (s : PitchStream)
    (items : List LyricItem) :
    (s.taken items).map Prod.fst =
      (Cue.received (s.cues items)).filterMap
        Delivery.element := by
  induction items generalizing s with
  | nil =>
      rfl
  | cons item items ih =>
      cases item with
      | directive d =>
          exact ih s
      | barline measure =>
          exact ih s.passBarline.2
      | beat b =>
          rw [taken, List.map_append, map_takenBy, ih, cues,
            Cue.received, Cue.received, List.flatMap_cons,
            receivedBy_append, List.filterMap_append]
          rfl

------------------------------------------------------------
-- Streams with a hole
------------------------------------------------------------

/-
  An attack takes the element in a hole, whatever it is, or
  takes nothing from the hole on.
-/
theorem attack_hole
    (before after : PitchStream) :
    (∃ handed, ∀ x,
        attack (before ++ .sounding x :: after) =
          (⟨handed, some x⟩, after)) ∨
      ∃ delivery left,
        ∀ x,
          attack (before ++ .sounding x :: after) =
            (delivery, left ++ .sounding x :: after) := by
  induction before with
  | nil =>
      exact Or.inl ⟨[], fun x => rfl⟩
  | cons item before ih =>
      cases item with
      | directive d =>
          rcases ih with
            ⟨handed, hTakes⟩ | ⟨delivery, left, hLeaves⟩
          · exact Or.inl
              ⟨d :: handed,
                fun x => by simp [attack, hTakes x]⟩
          · exact Or.inr
              ⟨{ delivery with
                  handed := d :: delivery.handed }, left,
                fun x => by simp [attack, hLeaves x]⟩
      | sounding y =>
          exact Or.inr ⟨⟨[], some y⟩, before, fun x => rfl⟩
      | barline =>
          exact Or.inr ⟨{}, .barline :: before, fun x => rfl⟩

/-
  A barline is passed before the element in a hole, or the
  element is dropped, whatever it is.
-/
theorem passBarline_hole
    (before after : PitchStream) :
    (∃ left, ∀ x,
        (passBarline (before ++ .sounding x :: after)).2 =
          left ++ .sounding x :: after) ∨
      ∀ x,
        (passBarline (before ++ .sounding x :: after)).2 =
          after.passBarline.2 := by
  induction before with
  | nil =>
      exact Or.inr fun x => rfl
  | cons item before ih =>
      cases item with
      | barline =>
          exact Or.inl ⟨before, fun x => rfl⟩
      | _ =>
          exact ih

end PitchStream

------------------------------------------------------------
-- Places in a block
------------------------------------------------------------

/-
  The place of a pitch or a chord in the pitch lines of a
  block: everything around it.
-/
structure SoundingPlace where
  linesBefore : List PitchLine := []
  directives : List Directive := []
  measuresBefore : List PitchMeasure := []
  elementsBefore : List PitchElement := []
  elementsAfter : List PitchElement := []
  barline : Bool := false
  measureLocation : Location := {}
  measuresAfter : List PitchMeasure := []
  lineLocation : Location := {}
  linesAfter : List PitchLine := []
deriving DecidableEq, Repr

namespace SoundingPlace

/- The pitch lines with a pitch or a chord in the place. -/
def plug
    (place : SoundingPlace)
    (x : Sounding) : List PitchLine :=
  let measure : PitchMeasure :=
    { elements :=
        place.elementsBefore ++
          x.element :: place.elementsAfter
      barline := place.barline
      location := place.measureLocation }
  let line : PitchLine :=
    { directives := place.directives
      measures :=
        place.measuresBefore ++
          measure :: place.measuresAfter
      location := place.lineLocation }
  place.linesBefore ++ line :: place.linesAfter

/- The stream before the place. -/
def itemsBefore
    (place : SoundingPlace) : PitchStream :=
  place.linesBefore.flatMap PitchLine.items ++
    (place.directives.map .directive ++
      (place.measuresBefore.flatMap PitchMeasure.items ++
        place.elementsBefore.map PitchElement.item))

/- The stream behind the place. -/
def itemsAfter
    (place : SoundingPlace) : PitchStream :=
  place.elementsAfter.map PitchElement.item ++
    ((if place.barline then [.barline] else []) ++
      (place.measuresAfter.flatMap PitchMeasure.items ++
        place.linesAfter.flatMap PitchLine.items))

/-
  The items around a place are those before it, its own, and
  those after it.
-/
theorem items_plug
    (place : SoundingPlace)
    (x : Sounding) :
    (place.plug x).flatMap PitchLine.items =
      place.itemsBefore ++ .sounding x :: place.itemsAfter := by
  simp [plug, itemsBefore, itemsAfter, PitchLine.items,
    PitchMeasure.items]

end SoundingPlace

/- An item that sounds is an element of its measure. -/
theorem PitchMeasure.exists_element_of_split
    {m : PitchMeasure}
    {before after : PitchStream}
    {x : Sounding}
    (hSplit : m.items = before ++ .sounding x :: after) :
    ∃ earlier later,
      m.elements = earlier ++ x.element :: later ∧
        after =
          later.map PitchElement.item ++
            if m.barline then [.barline] else [] := by
  rw [items, List.append_eq_append_iff] at hSplit
  rcases hSplit with
    ⟨past, rfl, hBarline⟩ | ⟨part, hElements, hRest⟩
  · have hMember :
        .sounding x ∈
          (if m.barline then
              [PitchItem.barline]
            else []) := by
      rw [hBarline]
      simp
    split at hMember <;> simp at hMember
  · cases part with
    | nil =>
        have hMember :
            .sounding x ∈
              (if m.barline then
                  [PitchItem.barline]
                else []) := by
          rw [← List.nil_append
              (if m.barline then _ else _), ← hRest]
          simp
        split at hMember <;> simp at hMember
    | cons item part =>
        rcases List.cons.inj hRest with ⟨rfl, rfl⟩
        rcases List.map_eq_append_iff.mp hElements with
          ⟨earlier, rest, hAll, -, hItems⟩
        rcases List.map_eq_cons_iff.mp hItems with
          ⟨e, later, rfl, hItem, rfl⟩
        rw [PitchElement.eq_element_of_item hItem] at hAll
        exact ⟨earlier, later, hAll, rfl⟩

/- An item that sounds is in a measure of its line. -/
theorem PitchLine.exists_measures_of_split
    {l : PitchLine}
    {before after : PitchStream}
    {x : Sounding}
    (hSplit : l.items = before ++ .sounding x :: after) :
    ∃ inner,
      l.measures.flatMap PitchMeasure.items =
        inner ++ .sounding x :: after := by
  rw [items, List.append_eq_append_iff] at hSplit
  rcases hSplit with
    ⟨inner, -, hMeasures⟩ | ⟨part, hDirectives, hRest⟩
  · exact ⟨inner, hMeasures⟩
  · cases part with
    | nil =>
        exact ⟨[], hRest.symm⟩
    | cons item part =>
        have hMember :
            item ∈
              l.directives.map PitchItem.directive := by
          rw [hDirectives]
          simp
        rcases List.mem_map.mp hMember with ⟨d, -, rfl⟩
        cases hRest

/-
  Every pitch or chord of a stream has
  its place in the lines.
-/
theorem exists_place_of_split
    {lines : List PitchLine}
    {before after : PitchStream}
    {x : Sounding}
    (hSplit :
      lines.flatMap PitchLine.items =
        before ++ .sounding x :: after) :
    ∃ place : SoundingPlace,
      lines = place.plug x ∧ place.itemsAfter = after := by
  rcases exists_of_flatMap_eq_append_cons hSplit with
    ⟨linesBefore, line, linesAfter, _, behindLine, rfl,
      hLine, -, rfl⟩
  rcases PitchLine.exists_measures_of_split hLine with
    ⟨inner, hMeasures⟩
  rcases exists_of_flatMap_eq_append_cons hMeasures with
    ⟨measuresBefore, measure, measuresAfter, _,
      behindMeasure, hLineMeasures, hMeasure, -, rfl⟩
  rcases PitchMeasure.exists_element_of_split hMeasure with
    ⟨elementsBefore, elementsAfter, hElements, rfl⟩
  refine
    ⟨{ linesBefore := linesBefore
       directives := line.directives
       measuresBefore := measuresBefore
       elementsBefore := elementsBefore
       elementsAfter := elementsAfter
       barline := measure.barline
       measureLocation := measure.location
       measuresAfter := measuresAfter
       lineLocation := line.location
       linesAfter := linesAfter }, ?_, ?_⟩
  · simp only [SoundingPlace.plug, ← hElements, ← hLineMeasures]
  · simp [SoundingPlace.itemsAfter]

------------------------------------------------------------
-- What is resolved first
------------------------------------------------------------

/-
  A place in a block, and the pitch or chord in it: of all
  that attacks take, it is the first that has a pitch.
-/
structure Block.FirstResolved
    (b : Block)
    (place : SoundingPlace)
    (x : Sounding) : Prop where
  lines : b.pitchLines = place.plug x
  first :
    (PitchStream.taken b.pitchStream b.lyricStream).find?
        (fun t => t.1.pitches ≠ []) =
      some (x, place.itemsAfter)

namespace Voicing

theorem length_spellTones
    (m : KeyMemory)
    (ts : List WrittenTone) :
    (spellTones m ts).1.length = ts.length := by
  induction ts generalizing m with
  | nil =>
      rfl
  | cons t ts ih =>
      simp [spellTones, ih]

theorem length_climb
    (lower : Tone)
    (ps : List Pitch) :
    (Melody.climb lower ps).length = ps.length := by
  induction ps generalizing lower with
  | nil =>
      rfl
  | cons p ps ih =>
      simp [Melody.climb, ih]

/- Each pitch becomes one voice. -/
theorem length_sound
    (v : Voicing)
    (x : Sounding) :
    (v.sound x).1.length = x.pitches.length := by
  rw [sound, length_spellTones]
  cases x with
  | pitch p =>
      rfl
  | chord c =>
      cases hPitches : c.pitches <;>
        simp [tones, Sounding.pitches, Melody.chord,
          hPitches, length_climb]

end Voicing

namespace Block

/- A block that sounds at all takes something with a pitch. -/
theorem exists_taken_of_voices
    {b : Block}
    (hSounds :
      ∃ cue ∈ b.voices,
        ∃ slot ∈ cue.slots, slot.content.voices ≠ []) :
    ∃ t ∈ PitchStream.taken b.pitchStream b.lyricStream,
      t.1.pitches ≠ [] := by
  rcases hSounds with ⟨cue, hCue, slot, hSlot, hVoices⟩
  have hAttack : slot.subdivision.IsAttack :=
    Decidable.byContradiction fun hNone =>
      hVoices (voices_of_not_isAttack hCue hSlot hNone)
  rcases Voicing.exists_of_mem_cues hCue hSlot with
    ⟨other, hOther, r, hReceived, w, rfl⟩
  have hElement : ∃ x ∈ r.content.element, x.pitches ≠ [] := by
    simp only [Voicing.attack] at hVoices
    cases hElement : r.content.element with
    | none =>
        rw [hElement] at hVoices
        exact absurd rfl hVoices
    | some x =>
        rw [hElement] at hVoices
        refine ⟨x, rfl, ?_⟩
        rw [← List.length_pos_iff, ← Voicing.length_sound]
        exact List.length_pos_iff.mpr hVoices
  rcases hElement with ⟨x, hElement, hPitches⟩
  have hTaken :
      x ∈
        (PitchStream.taken b.pitchStream b.lyricStream).map
          Prod.fst := by
    rw [PitchStream.map_taken]
    refine List.mem_filterMap.mpr ⟨r.content, ?_, hElement⟩
    refine List.mem_filterMap.mpr
      ⟨r, List.mem_flatMap.mpr ⟨other, hOther, hReceived⟩,
        ?_⟩
    rw [if_pos hAttack]
  rcases List.mem_map.mp hTaken with ⟨t, hMember, rfl⟩
  exact ⟨t, hMember, hPitches⟩

/-
  If a block sounds at all, some pitch or chord in it is
  resolved first.
-/
theorem exists_firstResolved
    {b : Block}
    (hSounds :
      ∃ cue ∈ b.voices,
        ∃ slot ∈ cue.slots, slot.content.voices ≠ []) :
    ∃ place x, b.FirstResolved place x := by
  rcases exists_taken_of_voices hSounds with
    ⟨t, hMember, hPitches⟩
  have hSome :
      ((PitchStream.taken b.pitchStream b.lyricStream).find?
        (fun t => t.1.pitches ≠ [])).isSome := by
    rw [List.find?_isSome]
    exact ⟨t, hMember, by simpa using hPitches⟩
  rcases Option.isSome_iff_exists.mp hSome with
    ⟨⟨x, left⟩, hFirst⟩
  rcases PitchStream.taken_suffix
      (List.mem_of_find?_eq_some hFirst) with
    ⟨before, hStream⟩
  rcases exists_place_of_split hStream.symm with
    ⟨place, hLines, rfl⟩
  exact ⟨place, x, hLines, hFirst⟩

end Block

end LyricScore
