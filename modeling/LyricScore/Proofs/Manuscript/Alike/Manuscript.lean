import Mathlib.Data.List.TakeWhile
import LyricScore.Proofs.Manuscript.Alike.Lyric
import LyricScore.Proofs.Manuscript.Alike.Pitch
import LyricScore.Score.Parse

/-
  This file shows that lists of tokens that are alike are
  manuscripts that say the same, or stop with errors that
  differ only in where their token stands.

  Key definitions include:
    * `Stanza.Like`
    * `Manuscript.Like`

  Key theorems include:
    * `titleText_eq`
    * `readTitle_alike`
    * `readStanzas_alike`
    * `Manuscript.ofBody_alike`
-/

namespace LyricScore

variable {f g : Location → Location}
variable {fin fin' : Token}
variable {p q : Option Token}
variable {ts us : List Token}

------------------------------------------------------------
-- Titles
------------------------------------------------------------

/-
  White space stands between tokens of a line if they are
  not adjacent.
-/
theorem Token.spacedFrom_some_iff
    {t previous : Token}
    (hKind : t.kind ≠ .newline)
    (hPrevious : previous.kind ≠ .newline) :
    t.SpacedFrom (some previous) ↔ ¬ t.AdjacentTo previous := by
  simp [SpacedFrom, hKind, hPrevious]

/-
  Lines of a title are texts that only
  depend on their spacing.
-/
theorem titleText_eq
    (hTokens : SpacedAlike f g p q ts us)
    (hLine : ∀ t ∈ ts, t.kind ≠ .newline) :
    titleText ts = titleText us := by
  induction hTokens with
  | nil =>
      rfl
  | @cons p q t u ts us hHead _ hTail ih =>
      have ih :=
        ih fun v hv => hLine v (List.mem_cons_of_mem _ hv)
      cases hTail with
      | nil =>
          exact hHead.text
      | @cons _ _ v w ts us hHead' hSpace' _ =>
          have hKind : t.kind ≠ .newline := hLine t (by simp)
          have hKind' : v.kind ≠ .newline := hLine v (by simp)
          have hAdjacent : v.AdjacentTo t ↔ w.AdjacentTo u := by
            rw [Token.spacedFrom_some_iff hKind' hKind,
              Token.spacedFrom_some_iff
                (hHead'.kind ▸ hKind')
                (hHead.kind ▸ hKind)] at hSpace'
            exact not_iff_not.mp hSpace'
          simp only [titleText, hHead.text, hAdjacent, ih]

/- A title is read alike, with the same text. -/
theorem readTitle_alike
    {p q : Option Token}
    {ts us : List Token}
    (hTokens : SpacedAlike f g p q ts us) :
    (readTitle ts).1.map titleText =
        (readTitle us).1.map titleText ∧
      SpacedAlike f g none none (readTitle ts).2
        (readTitle us).2 := by
  have hKinds :
      ∀ t u : Token,
        t.Like f g u → (!t.isNewline) = !u.isNewline := by
    intro t u hLike
    simp only [Token.isNewline, hLike.kind]
  cases hTokens with
  | nil =>
      rw [readTitle]
      exact ⟨rfl, .nil⟩
  | @cons _ _ t u ts us hHead hSpace hTail =>
      rw [readTitle_cons, readTitle_cons, hHead.kind,
        hTail.atNewline_eq]
      by_cases hNewline : u.kind = .newline
      · rw [if_pos hNewline, if_pos hNewline]
        split
        · exact ⟨rfl, hTail.fresh⟩
        · exact readTitle_alike hTail
      · have hLine :
            titleText
                (t :: ts.takeWhile fun v => !v.isNewline) =
              titleText
                (u ::
                  us.takeWhile fun v => !v.isNewline) := by
          apply titleText_eq
            (.cons hHead hSpace (hTail.takeWhile hKinds))
          intro v hMem
          rcases List.mem_cons.mp hMem with rfl | hMem
          · exact hHead.kind ▸ hNewline
          · have hOpen := List.mem_takeWhile_imp hMem
            intro hKind
            simp [Token.isNewline, hKind] at hOpen
        have hLines := readTitle_alike (hTail.dropWhile hKinds)
        rw [if_neg hNewline, if_neg hNewline]
        exact ⟨congrArg₂ List.cons hLine hLines.1, hLines.2⟩
termination_by ts.length
decreasing_by
  · simp
  · exact Nat.lt_succ_of_le (List.dropWhile_sublist _).length_le

------------------------------------------------------------
-- Stanzas
------------------------------------------------------------

variable (f g) in
/- Stanzas that say the same, wherever their parts stand. -/
structure Stanza.Like
    (a b : Stanza) : Prop where
  lyrics :
    List.Forall₂ (UnitsAlike f g none none) a.lyrics
      b.lyrics
  pitches :
    List.Forall₂ (List.Forall₂ (PitchUnit.Like f g))
      a.pitches b.pitches

variable (f g) in
/-
  Manuscripts that say the same, wherever their parts stand.
-/
structure Manuscript.Like
    (a b : Manuscript) : Prop where
  title : a.title.map titleText = b.title.map titleText
  stanzas : List.Forall₂ (Stanza.Like f g) a.stanzas b.stanzas

/- A stanza is read alike. -/
theorem readStanza_alike
    (hStep : Location.InStep f g)
    (hFin : fin.Like f g fin')
    (hTokens : SpacedAlike f g p q ts us) :
    Outcome.Like (Stop.Like f g)
      (ReadAlike f g (Stanza.Like f g)) (readStanza fin ts)
      (readStanza fin' us) := by
  have hLyrics := readLyricLines_alike hFin hTokens
  unfold readStanza
  generalize readLyricLines fin ts = x at hLyrics ⊢
  generalize readLyricLines fin' us = y at hLyrics ⊢
  cases hLyrics with
  | error hErrors =>
      exact .error hErrors
  | @ok a b hValues =>
      rcases a with ⟨lyrics, rest⟩
      rcases b with ⟨lyrics', rest'⟩
      rcases hValues with ⟨hLines, hRest⟩
      have hPitches := readPitchLines_alike hStep hFin hRest
      simp only
      generalize readPitchLines fin rest = x at hPitches ⊢
      generalize readPitchLines fin' rest' = y at hPitches ⊢
      cases hPitches with
      | error hErrors =>
          exact .error hErrors
      | ok hValues =>
          exact .ok ⟨⟨hLines, hValues.1⟩, hValues.2⟩

theorem readStanzas_alike
    {p q : Option Token}
    {ts us : List Token}
    (hStep : Location.InStep f g)
    (hFin : fin.Like f g fin')
    (hTokens : SpacedAlike f g p q ts us) :
    Outcome.Like (Stop.Like f g)
      (List.Forall₂ (Stanza.Like f g)) (readStanzas fin ts)
      (readStanzas fin' us) := by
  cases hTokens with
  | nil =>
      simp only [readStanzas]
      exact .ok .nil
  | @cons _ _ t u ts us hHead hSpace hTail =>
      have hStanza :=
        readStanza_alike hStep hFin
          (.cons hHead hSpace hTail)
      rw [readStanzas_cons, readStanzas_cons, hHead.kind]
      by_cases hNewline : u.kind = .newline
      · rw [if_pos hNewline, if_pos hNewline]
        exact readStanzas_alike hStep hFin hTail
      · rw [if_neg hNewline, if_neg hNewline]
        generalize hRead : readStanza fin (t :: ts) =
          x at hStanza ⊢
        generalize readStanza fin' (u :: us) = y at hStanza ⊢
        cases hStanza with
        | error hErrors =>
            exact .error hErrors
        | @ok a b hValues =>
            have hShorter :=
              length_readStanza_lt
                (hHead.kind ▸ hNewline) hRead
            have hOthers :=
              readStanzas_alike hStep hFin hValues.2
            simp only
            generalize readStanzas fin a.2 = x at hOthers ⊢
            generalize readStanzas fin' b.2 = y at hOthers ⊢
            cases hOthers with
            | error hErrors =>
                exact .error hErrors
            | ok hLater =>
                exact .ok (.cons hValues.1 hLater)
termination_by ts.length
decreasing_by
  · simp
  · exact hShorter

------------------------------------------------------------
-- Manuscripts
------------------------------------------------------------

/- A manuscript is read alike. -/
theorem Manuscript.ofBody_alike
    (hStep : Location.InStep f g)
    (hFin : fin.Like f g fin')
    (hTokens : SpacedAlike f g p q ts us) :
    Outcome.Like (Stop.Like f g) (Manuscript.Like f g)
      (ofBody fin ts) (ofBody fin' us) := by
  have hKinds :
      ∀ t u : Token,
        t.Like f g u → t.isNewline = u.isNewline := by
    intro t u hLike
    simp only [Token.isNewline, hLike.kind]
  have hBody := hTokens.dropWhile hKinds
  unfold ofBody
  generalize ts.dropWhile Token.isNewline = ts at hBody ⊢
  generalize us.dropWhile Token.isNewline = us at hBody ⊢
  cases hBody with
  | nil =>
      exact .ok ⟨rfl, .nil⟩
  | @cons _ _ t u ts us hHead hSpace hTail =>
      have hTitle := readTitle_alike (.cons hHead hSpace hTail)
      have hStanzas := readStanzas_alike hStep hFin hTitle.2
      simp only
      generalize readStanzas fin (readTitle (t :: ts)).2 =
        x at hStanzas ⊢
      generalize readStanzas fin' (readTitle (u :: us)).2 =
        y at hStanzas ⊢
      cases hStanzas with
      | error hErrors =>
          exact .error hErrors
      | ok hValues =>
          exact .ok ⟨hTitle.1, hValues⟩

end LyricScore
