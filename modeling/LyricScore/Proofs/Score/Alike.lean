import LyricScore.Proofs.Manuscript.Alike.Manuscript

/-
  This file shows that manuscripts that say the same are the
  same score, up to the locations in it.

  Key definitions include:
    * `LyricDraft.mapLocations`
    * `PitchDraft.mapLocations`

  Key theorems include:
    * `LyricLine.ofUnits_alike`
    * `PitchLine.ofUnits_alike`
    * `Score.ofManuscript_alike`
    * `Score.ofTokens_alike`
-/

namespace LyricScore

------------------------------------------------------------
-- Drafts with other locations
------------------------------------------------------------

section Drafts

variable (f : Location → Location)

/-
  Other locations for all that a lyric
  line in the making holds.
-/
def LyricDraft.mapLocations
    (d : LyricDraft) : LyricDraft :=
  ⟨d.directives.map (Directive.mapLocation f),
    d.measures.map (LyricMeasure.mapLocations f),
    d.beats.map (Beat.mapLocations f),
    d.elements.map (BeatElement.mapLocation f)⟩

/-
  Other locations for all that a pitch
  line in the making holds.
-/
def PitchDraft.mapLocations
    (d : PitchDraft) : PitchDraft :=
  ⟨d.directives.map (Directive.mapLocation f),
    d.measures.map (PitchMeasure.mapLocations f),
    d.elements.map (PitchElement.mapLocations f)⟩

namespace LyricDraft

variable (d : LyricDraft)

@[simp] theorem hasContent_mapLocations :
    (d.mapLocations f).HasContent ↔ d.HasContent := by
  simp [HasContent, mapLocations]

/-
  To close a beat of a moved draft is to
  move the closed one.
-/
theorem closeBeat_mapLocations :
    (d.mapLocations f).closeBeat =
      d.closeBeat.mapLocations f := by
  rcases d with ⟨directives, measures, beats, elements⟩
  cases elements with
  | nil =>
      rfl
  | cons e es =>
      have hStart :
          (e.mapLocation f).location = f e.location := by
        cases e <;> rfl
      simp only [closeBeat, mapLocations, List.map_cons,
        List.map_nil, List.map_append, Beat.mapLocations,
        hStart]

/-
  To close a measure of a moved draft is
  to move the closed one.
-/
theorem closeMeasure_mapLocations
    (barline : Bool)
    (location : Location) :
    (d.mapLocations f).closeMeasure barline (f location) =
      (d.closeMeasure barline location).mapLocations f := by
  simp only [closeMeasure, closeBeat_mapLocations]
  generalize d.closeBeat = d
  by_cases hClose : d.beats ≠ [] ∨ barline
  · have hClose' : (d.mapLocations f).beats ≠ [] ∨ barline := by
      simpa [mapLocations] using hClose
    rw [if_pos hClose, if_pos hClose']
    simp [mapLocations, LyricMeasure.mapLocations]
  · have hClose' :
        ¬ ((d.mapLocations f).beats ≠ [] ∨ barline) := by
      simpa [mapLocations] using hClose
    rw [if_neg hClose, if_neg hClose']

end LyricDraft

namespace PitchDraft

variable (d : PitchDraft)

@[simp] theorem hasContent_mapLocations :
    (d.mapLocations f).HasContent ↔ d.HasContent := by
  simp [HasContent, mapLocations]

theorem closeMeasure_mapLocations
    (barline : Bool)
    (location : Location) :
    (d.mapLocations f).closeMeasure barline (f location) =
      (d.closeMeasure barline location).mapLocations f := by
  unfold closeMeasure
  by_cases hClose : d.elements ≠ [] ∨ barline
  · have hClose' :
        (d.mapLocations f).elements ≠ [] ∨ barline := by
      simpa [mapLocations] using hClose
    rw [if_pos hClose, if_pos hClose']
    simp [mapLocations, PitchMeasure.mapLocations]
  · have hClose' :
        ¬ ((d.mapLocations f).elements ≠ [] ∨ barline) := by
      simpa [mapLocations] using hClose
    rw [if_neg hClose, if_neg hClose']

end PitchDraft

end Drafts

variable {f g : Location → Location}

/-
  Lists that start at locations made the same start on lines
  made the same.
-/
theorem Location.Concur.lineStart_head
    (hConcur : Location.Concur f g)
    {as bs : List Location}
    (hLocations : as.map f = bs.map g) :
    f ⟨(as.head?.map Location.line).getD 0, 0⟩ =
      g ⟨(bs.head?.map Location.line).getD 0, 0⟩ := by
  cases as with
  | nil =>
      have hNil : bs = [] := by
        simpa using hLocations.symm
      rw [hNil]
      exact hConcur.unknown
  | cons a as =>
      cases bs with
      | nil =>
          simp at hLocations
      | cons b bs =>
          exact hConcur.lineStart a b
            (List.cons.inj hLocations).1

------------------------------------------------------------
-- Lyric lines
------------------------------------------------------------

/- Tokens that are alike add the same to their beats. -/
theorem Token.Like.beatElements_eq
    {t u : Token}
    (hTokens : t.Like f g u) :
    t.beatElements.map (BeatElement.mapLocation f) =
      u.beatElements.map (BeatElement.mapLocation g) := by
  unfold beatElements
  rw [hTokens.kind, hTokens.text]
  split <;>
    simp only [List.map_cons, List.map_nil,
      BeatElement.mapLocation, Subdivision.mapLocation,
      hTokens.location]

namespace LyricDraft

variable {d e : LyricDraft}

/- Alike drafts have content together. -/
theorem hasContent_alike
    (hDrafts : d.mapLocations f = e.mapLocations g) :
    d.HasContent ↔ e.HasContent := by
  rw [← hasContent_mapLocations f, hDrafts,
    hasContent_mapLocations]

theorem closeBeat_alike
    (hDrafts : d.mapLocations f = e.mapLocations g) :
    d.closeBeat.mapLocations f =
      e.closeBeat.mapLocations g := by
  rw [← closeBeat_mapLocations, hDrafts, closeBeat_mapLocations]

/- Alike drafts are alike behind the end of a measure. -/
theorem closeMeasure_alike
    {a b : Location}
    (barline : Bool)
    (hLocations : f a = g b)
    (hDrafts : d.mapLocations f = e.mapLocations g) :
    (d.closeMeasure barline a).mapLocations f =
      (e.closeMeasure barline b).mapLocations g := by
  rw [← closeMeasure_mapLocations, hDrafts, hLocations,
    closeMeasure_mapLocations]

theorem addElements_alike
    {as bs : List BeatElement}
    (hElements :
      as.map (BeatElement.mapLocation f) =
        bs.map (BeatElement.mapLocation g))
    (hDrafts : d.mapLocations f = e.mapLocations g) :
    ({ d with elements := d.elements ++ as } :
        LyricDraft).mapLocations f =
      ({ e with elements := e.elements ++ bs } :
        LyricDraft).mapLocations g := by
  simp only [mapLocations, List.map_append,
    mk.injEq] at hDrafts ⊢
  rw [hElements, hDrafts.2.2.2]
  exact ⟨hDrafts.1, hDrafts.2.1, hDrafts.2.2.1, rfl⟩

/- Alike drafts are alike with alike directives added. -/
theorem addDirectives_alike
    {as bs : List Directive}
    (hDirectives :
      as.map (Directive.mapLocation f) =
        bs.map (Directive.mapLocation g))
    (hDrafts : d.mapLocations f = e.mapLocations g) :
    ({ d with directives := d.directives ++ as } :
        LyricDraft).mapLocations f =
      ({ e with directives := e.directives ++ bs } :
        LyricDraft).mapLocations g := by
  simp only [mapLocations, List.map_append,
    mk.injEq] at hDrafts ⊢
  rw [hDirectives, hDrafts.1]
  exact ⟨rfl, hDrafts.2⟩

/- Alike drafts are alike with an alike unit added. -/
theorem addUnit_alike
    {v w : LyricUnit}
    (hUnits : v.Like f g w)
    (hDrafts : d.mapLocations f = e.mapLocations g) :
    (d.addUnit v).mapLocations f =
      (e.addUnit w).mapLocations g := by
  cases hUnits with
  | mark hToken _ =>
      simp only [addUnit, hToken.kind]
      split
      · exact closeMeasure_alike true hToken.location hDrafts
      · exact addElements_alike hToken.beatElements_eq hDrafts
  | @group a b hGroups =>
      have hElements :
          (a.directives.map BeatElement.directive).map
              (BeatElement.mapLocation f) =
            (b.directives.map BeatElement.directive).map
              (BeatElement.mapLocation g) := by
        have hBoth :=
          congrArg (List.map BeatElement.directive)
            hGroups.directives
        rw [List.map_map, List.map_map] at hBoth ⊢
        exact hBoth
      simp only [addUnit, hasContent_alike hDrafts]
      split
      · exact addElements_alike hElements hDrafts
      · exact addDirectives_alike hGroups.directives hDrafts

theorem addUnits_alike
    {a b : Option LyricUnit}
    {vs ws : List LyricUnit}
    (hUnits : UnitsAlike f g a b vs ws)
    (hDrafts : d.mapLocations f = e.mapLocations g) :
    (d.addUnits a vs).mapLocations f =
      (e.addUnits b ws).mapLocations g := by
  induction hUnits generalizing d e with
  | nil =>
      exact hDrafts
  | cons hUnit hGap _ ih =>
      simp only [addUnits, hGap]
      apply ih
      apply addUnit_alike hUnit
      split
      · exact closeBeat_alike hDrafts
      · exact hDrafts

theorem addLine_alike
    (hConcur : Location.Concur f g)
    {vs ws : List LyricUnit}
    (hUnits : UnitsAlike f g none none vs ws)
    (hDrafts : d.mapLocations f = e.mapLocations g) :
    (d.addLine vs).mapLocations f =
      (e.addLine ws).mapLocations g := by
  apply closeMeasure_alike false hConcur.unknown
  exact addUnits_alike hUnits hDrafts

/- Alike drafts become alike lines. -/
theorem toLine_alike
    (hConcur : Location.Concur f g)
    (hDrafts : d.mapLocations f = e.mapLocations g) :
    d.toLine.mapLocations f = e.toLine.mapLocations g := by
  simp only [mapLocations, mk.injEq] at hDrafts
  have hLocations :
      (d.measures.map LyricMeasure.location).map f =
        (e.measures.map LyricMeasure.location).map g := by
    have hBoth :=
      congrArg (List.map LyricMeasure.location) hDrafts.2.1
    rw [List.map_map, List.map_map] at hBoth ⊢
    exact hBoth
  have hStart := hConcur.lineStart_head hLocations
  simp only [List.head?_map, Option.map_map] at hStart
  simp only [toLine, LyricLine.mapLocations, LyricLine.mk.injEq]
  exact ⟨hDrafts.1, hDrafts.2.1, hStart⟩

end LyricDraft

/-
  Written lines that say the same make the same lyric line.
-/
theorem LyricLine.ofUnits_alike
    (hConcur : Location.Concur f g)
    {as bs : List (List LyricUnit)}
    (hLines : List.Forall₂ (UnitsAlike f g none none) as bs) :
    (ofUnits as).mapLocations f =
      (ofUnits bs).mapLocations g := by
  have hFold :
      ∀ d e : LyricDraft, d.mapLocations f = e.mapLocations g →
        (as.foldl LyricDraft.addLine d).mapLocations f =
          (bs.foldl LyricDraft.addLine e).mapLocations g := by
    induction hLines with
    | nil =>
        intro d e hDrafts
        exact hDrafts
    | cons hUnits _ ih =>
        intro d e hDrafts
        exact ih _ _
          (LyricDraft.addLine_alike hConcur hUnits hDrafts)
  exact LyricDraft.toLine_alike hConcur (hFold {} {} rfl)

------------------------------------------------------------
-- Pitch lines
------------------------------------------------------------

/- Entries of chords that are alike have the same pitches. -/
theorem ChordEntry.pitches_alike
    {as bs : List ChordEntry}
    (hEntries : List.Forall₂ (ChordEntry.Like f g) as bs) :
    PitchesAlike f g (as.flatMap pitches)
      (bs.flatMap pitches) := by
  induction hEntries with
  | nil =>
      rfl
  | @cons a b as bs hHead _ ih =>
      have hHead : PitchesAlike f g a.pitches b.pitches := hHead
      unfold PitchesAlike at hHead ih ⊢
      rw [List.flatMap_cons, List.flatMap_cons,
        List.map_append, List.map_append, hHead, ih]

/- Units that are alike add the same to their measures. -/
theorem PitchUnit.Like.elements_eq
    {v w : PitchUnit}
    (hUnits : v.Like f g w) :
    v.elements.map (PitchElement.mapLocations f) =
      w.elements.map (PitchElement.mapLocations g) := by
  cases hUnits with
  | barline _ =>
      rfl
  | group hGroups =>
      have hBoth :=
        congrArg (List.map PitchElement.directive)
          hGroups.directives
      rw [List.map_map, List.map_map] at hBoth
      rw [elements, elements, List.map_map, List.map_map]
      exact hBoth
  | chord hLocation hEntries =>
      have hPitches := ChordEntry.pitches_alike hEntries
      unfold PitchesAlike at hPitches
      simp only [elements, List.map_cons, List.map_nil,
        PitchElement.mapLocations, Chord.mapLocations,
        hPitches, hLocation]
  | run hPitches =>
      have hBoth :=
        congrArg (List.map PitchElement.pitch) hPitches
      rw [List.map_map, List.map_map] at hBoth
      rw [elements, elements, List.map_map, List.map_map]
      exact hBoth
  | stray =>
      rfl

namespace PitchDraft

variable {d e : PitchDraft}

theorem hasContent_alike
    (hDrafts : d.mapLocations f = e.mapLocations g) :
    d.HasContent ↔ e.HasContent := by
  rw [← hasContent_mapLocations f, hDrafts,
    hasContent_mapLocations]

theorem closeMeasure_alike
    {a b : Location}
    (barline : Bool)
    (hLocations : f a = g b)
    (hDrafts : d.mapLocations f = e.mapLocations g) :
    (d.closeMeasure barline a).mapLocations f =
      (e.closeMeasure barline b).mapLocations g := by
  rw [← closeMeasure_mapLocations, hDrafts, hLocations,
    closeMeasure_mapLocations]

theorem addElements_alike
    {as bs : List PitchElement}
    (hElements :
      as.map (PitchElement.mapLocations f) =
        bs.map (PitchElement.mapLocations g))
    (hDrafts : d.mapLocations f = e.mapLocations g) :
    ({ d with elements := d.elements ++ as } :
        PitchDraft).mapLocations f =
      ({ e with elements := e.elements ++ bs } :
        PitchDraft).mapLocations g := by
  simp only [mapLocations, List.map_append,
    mk.injEq] at hDrafts ⊢
  rw [hElements, hDrafts.2.2]
  exact ⟨hDrafts.1, hDrafts.2.1, rfl⟩

theorem addDirectives_alike
    {as bs : List Directive}
    (hDirectives :
      as.map (Directive.mapLocation f) =
        bs.map (Directive.mapLocation g))
    (hDrafts : d.mapLocations f = e.mapLocations g) :
    ({ d with directives := d.directives ++ as } :
        PitchDraft).mapLocations f =
      ({ e with directives := e.directives ++ bs } :
        PitchDraft).mapLocations g := by
  simp only [mapLocations, List.map_append,
    mk.injEq] at hDrafts ⊢
  rw [hDirectives, hDrafts.1]
  exact ⟨rfl, hDrafts.2⟩

theorem addUnit_alike
    {v w : PitchUnit}
    (hUnits : v.Like f g w)
    (hDrafts : d.mapLocations f = e.mapLocations g) :
    (d.addUnit v).mapLocations f =
      (e.addUnit w).mapLocations g := by
  have hElements := hUnits.elements_eq
  cases hUnits with
  | barline hLocation =>
      exact closeMeasure_alike true hLocation hDrafts
  | group hGroups =>
      simp only [addUnit, hasContent_alike hDrafts]
      split
      · exact addElements_alike hElements hDrafts
      · exact addDirectives_alike hGroups.directives hDrafts
  | _ =>
      exact addElements_alike hElements hDrafts

theorem addLine_alike
    (hConcur : Location.Concur f g)
    {vs ws : List PitchUnit}
    (hUnits : List.Forall₂ (PitchUnit.Like f g) vs ws)
    (hDrafts : d.mapLocations f = e.mapLocations g) :
    (d.addLine vs).mapLocations f =
      (e.addLine ws).mapLocations g := by
  apply closeMeasure_alike false hConcur.unknown
  induction hUnits generalizing d e with
  | nil =>
      exact hDrafts
  | cons hUnit _ ih =>
      exact ih (addUnit_alike hUnit hDrafts)

theorem toLine_alike
    (hConcur : Location.Concur f g)
    (hDrafts : d.mapLocations f = e.mapLocations g) :
    d.toLine.mapLocations f = e.toLine.mapLocations g := by
  simp only [mapLocations, mk.injEq] at hDrafts
  have hLocations :
      (d.measures.map PitchMeasure.location).map f =
        (e.measures.map PitchMeasure.location).map g := by
    have hBoth :=
      congrArg (List.map PitchMeasure.location) hDrafts.2.1
    rw [List.map_map, List.map_map] at hBoth ⊢
    exact hBoth
  have hStart := hConcur.lineStart_head hLocations
  simp only [List.head?_map, Option.map_map] at hStart
  simp only [toLine, PitchLine.mapLocations, PitchLine.mk.injEq]
  exact ⟨hDrafts.1, hDrafts.2.1, hStart⟩

end PitchDraft

/-
  Written lines that say the same make the same pitch line.
-/
theorem PitchLine.ofUnits_alike
    (hConcur : Location.Concur f g)
    {as bs : List (List PitchUnit)}
    (hLines :
      List.Forall₂ (List.Forall₂ (PitchUnit.Like f g))
        as bs) :
    (ofUnits as).mapLocations f =
      (ofUnits bs).mapLocations g := by
  have hFold :
      ∀ d e : PitchDraft, d.mapLocations f = e.mapLocations g →
        (as.foldl PitchDraft.addLine d).mapLocations f =
          (bs.foldl PitchDraft.addLine e).mapLocations g := by
    induction hLines with
    | nil =>
        intro d e hDrafts
        exact hDrafts
    | cons hUnits _ ih =>
        intro d e hDrafts
        exact ih _ _
          (PitchDraft.addLine_alike hConcur hUnits hDrafts)
  exact PitchDraft.toLine_alike hConcur (hFold {} {} rfl)

------------------------------------------------------------
-- Scores
------------------------------------------------------------

/- Alike stanzas become alike blocks. -/
theorem Block.ofStanza_alike
    (hConcur : Location.Concur f g)
    {a b : Stanza}
    (hStanzas : a.Like f g b) :
    (ofStanza a).mapLocations f =
      (ofStanza b).mapLocations g := by
  have hLyrics :=
    LyricLine.ofUnits_alike hConcur hStanzas.lyrics
  have hPitches :=
    PitchLine.ofUnits_alike hConcur hStanzas.pitches
  simp only [ofStanza, mapLocations, List.map_cons,
    List.map_nil, hLyrics, hPitches]

namespace Score

/- Manuscripts that say the same are the same score. -/
theorem ofManuscript_alike
    (hConcur : Location.Concur f g)
    {a b : Manuscript}
    (hManuscripts : a.Like f g b) :
    (ofManuscript a).mapLocations f =
      (ofManuscript b).mapLocations g := by
  have hBlocks :
      (a.stanzas.map Block.ofStanza).map
          (Block.mapLocations f) =
        (b.stanzas.map Block.ofStanza).map
          (Block.mapLocations g) := by
    have hStanzas := hManuscripts.stanzas
    generalize a.stanzas = stanzas at hStanzas ⊢
    generalize b.stanzas = stanzas' at hStanzas ⊢
    induction hStanzas with
    | nil =>
        rfl
    | cons hStanza _ ih =>
        simp only [List.map_cons, ih,
          Block.ofStanza_alike hConcur hStanza]
  simp only [ofManuscript, mapLocations, hManuscripts.title,
    hBlocks]

/-
  Lists of tokens that are alike are the same score up to
  locations, or fail with errors that differ only in where
  their token stands.
-/
theorem ofTokens_alike
    (hConcur : Location.Concur f g)
    {fin fin' : Token}
    {ts us : List Token}
    (hFin : fin.Like f g fin')
    (hEnd : fin.kind = .endOfText)
    (hOpen : ∀ t ∈ ts, t.kind ≠ .endOfText)
    (hTokens : SpacedAlike f g none none ts us) :
    Outcome.Like (ScoreError.Like f g)
      (fun s s' => s.mapLocations f = s'.mapLocations g)
      (ofTokens (ts ++ [fin])) (ofTokens (us ++ [fin'])) := by
  have hBody :=
    Manuscript.ofBody_alike hConcur.toInStep hFin hTokens
  have hOpen' : ∀ u ∈ us, u.kind ≠ .endOfText :=
    hTokens.forall_kind (· ≠ .endOfText) hOpen
  unfold ofTokens
  rw [Manuscript.read_append hEnd hOpen,
    Manuscript.read_append (hFin.kind.symm.trans hEnd) hOpen']
  generalize Manuscript.ofBody fin ts = x at hBody ⊢
  generalize Manuscript.ofBody fin' us = y at hBody ⊢
  cases hBody with
  | ok hValues =>
      exact .ok (ofManuscript_alike hConcur hValues)
  | error hErrors =>
      exact .error hErrors

end Score

end LyricScore
