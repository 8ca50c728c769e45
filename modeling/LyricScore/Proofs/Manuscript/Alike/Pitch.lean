import LyricScore.Proofs.Manuscript.Alike.Bracket

/-
  This file shows that the pitch lines of lists of tokens that
  are alike have the same units.

  Key definitions include:
    * `PitchesAlike`
    * `ChordEntry.Like`
    * `PitchUnit.Like`

  Key theorems include:
    * `readRun_alike`
    * `readChordEntries_alike`
    * `readPitchUnit_alike`
    * `readPitchLines_alike`
-/

namespace LyricScore

variable {f g : Location → Location}
variable {fin fin' : Token}
variable {p q : Option Token}
variable {ts us : List Token}

------------------------------------------------------------
-- Runs of letters and chords
------------------------------------------------------------

/- Alike shifts move a pitch by as much. -/
theorem totalShift_eq
    (hTokens : SpacedAlike f g p q ts us) :
    totalShift ts = totalShift us := by
  induction hTokens with
  | nil =>
      rfl
  | cons hHead _ _ ih =>
      simp only [totalShift, Token.octaves, hHead.kind, ih]

theorem takeShifts_alike
    (hTokens : SpacedAlike f g p q ts us) :
    ReadAlike f g Eq (takeShifts ts) (takeShifts us) := by
  have hKinds :
      ∀ t u : Token,
        t.Like f g u → t.isShift = u.isShift := by
    intro t u hLike
    simp only [Token.isShift, hLike.kind]
  exact ⟨totalShift_eq (hTokens.takeWhile hKinds),
    hTokens.dropWhile hKinds⟩

variable (f g) in
/- The same pitches, wherever they stand. -/
def PitchesAlike
    (ps qs : List Pitch) : Prop :=
  ps.map (Pitch.mapLocation f) = qs.map (Pitch.mapLocation g)

/- Alike pitches are none together. -/
theorem PitchesAlike.eq_nil_iff
    {ps qs : List Pitch}
    (hPitches : PitchesAlike f g ps qs) :
    ps = [] ↔ qs = [] := by
  have hLengths := congrArg List.length hPitches
  rw [List.length_map, List.length_map] at hLengths
  rw [← List.length_eq_zero_iff, hLengths,
    List.length_eq_zero_iff]

/- Letters in one token are read alike. -/
theorem followers_alike
    (hStep : Location.InStep f g)
    {a b : Location}
    (hStart : f a = g b)
    (ls : List Letter) :
    PitchesAlike f g (followers a.line a.column ls)
      (followers b.line b.column ls) := by
  induction ls generalizing a b with
  | nil =>
      rfl
  | cons l ls ih =>
      have hPitch :
          (⟨l, none, 0, f a⟩ : Pitch) = ⟨l, none, 0, g b⟩ := by
        rw [hStart]
      exact congrArg₂ List.cons hPitch
        (ih (hStep.next a b hStart))

/- Where letters are missing, they are missing alike. -/
theorem readRun.missing_alike
    (shift : Int)
    (accidental : Option Accidental)
    (hFin : fin.Like f g fin')
    (hTokens : SpacedAlike f g p q ts us) :
    Outcome.Like (ScoreError.Like f g)
      (ReadAlike f g (PitchesAlike f g))
      (missing fin shift accidental ts)
      (missing fin' shift accidental us) := by
  unfold missing
  split
  · exact .ok ⟨rfl, hTokens.fresh⟩
  · exact .error (.missing (hTokens.headD hFin))

/- A run of letters is read alike. -/
theorem readRun_alike
    (hStep : Location.InStep f g)
    (hFin : fin.Like f g fin')
    (hTokens : SpacedAlike f g p q ts us) :
    Outcome.Like (ScoreError.Like f g)
      (ReadAlike f g (PitchesAlike f g)) (readRun fin ts)
      (readRun fin' us) := by
  have hShifts := takeShifts_alike hTokens
  have hAccidental := takeAccidental_alike hShifts.2
  have hStart := (hTokens.headD hFin).location
  unfold readRun
  simp only [hShifts.1, hAccidental.1]
  rcases hAccidental with ⟨-, hRest⟩
  generalize (takeAccidental (takeShifts ts).2).2 =
    rest at hRest ⊢
  generalize (takeAccidental (takeShifts us).2).2 =
    rest' at hRest ⊢
  cases hRest with
  | nil =>
      have hNil : SpacedAlike f g none none [] [] := .nil
      exact readRun.missing_alike _ _ hFin hNil
  | @cons _ _ t u after after' hHead hSpace hTail =>
      have hLetters : t.letters? = u.letters? := by
        simp only [Token.letters?, hHead.kind, hHead.text]
      simp only [hLetters]
      cases u.letters? with
      | none =>
          exact readRun.missing_alike _ _ hFin
            (.cons hHead hSpace hTail)
      | some letters =>
          cases letters with
          | nil =>
              exact .error .emptyName
          | cons l ls =>
              refine .ok ⟨?_, hTail.fresh⟩
              have hFollowers :=
                followers_alike hStep
                  (hStep.next _ _ hHead.location) ls
              refine congrArg₂ List.cons ?_ hFollowers
              simp only [Pitch.mapLocation, hStart]

variable (f g) in
/-
  Entries of a chord with the same pitches,
  wherever these stand.
-/
def ChordEntry.Like
    (a b : ChordEntry) : Prop :=
  PitchesAlike f g a.pitches b.pitches

theorem readChordEntry_alike
    (hStep : Location.InStep f g)
    (hFin : fin.Like f g fin')
    (hTokens : SpacedAlike f g p q ts us) :
    Outcome.Like (ScoreError.Like f g)
      (ReadAlike f g (ChordEntry.Like f g))
      (readChordEntry fin ts) (readChordEntry fin' us) := by
  apply (readRun_alike hStep hFin hTokens).map
  rintro ⟨ps, rest⟩ ⟨qs, rest'⟩ ⟨hPitches, hRest⟩
  by_cases hNil : ps = []
  · simp only [if_pos hNil,
      if_pos (hPitches.eq_nil_iff.mp hNil)]
    exact ⟨rfl, hRest.tail⟩
  · simp only [if_neg hNil,
      if_neg (hPitches.eq_nil_iff.not.mp hNil)]
    exact ⟨hPitches, hRest⟩

/- The entries of a chord are read alike. -/
theorem readChordEntries_alike
    {p q : Option Token}
    {ts us : List Token}
    (hStep : Location.InStep f g)
    (hFin : fin.Like f g fin')
    (hTokens : SpacedAlike f g p q ts us) :
    Outcome.Like (Stop.Like f g)
      (fun a b => List.Forall₂ (ChordEntry.Like f g) a.1 b.1 ∧
        ReadAlike f g (fun _ _ => True) a.2 b.2)
      (readChordEntries fin ts) (readChordEntries fin' us) := by
  cases hTokens with
  | nil =>
      simp only [readChordEntries]
      exact .error (.missing hFin)
  | @cons _ _ t u ts us hHead hSpace hTail =>
      rw [readChordEntries_cons, readChordEntries_cons,
        hHead.kind]
      by_cases hClose : u.kind = .closeParenthesis
      · rw [if_pos hClose, if_pos hClose]
        exact .ok ⟨.nil, trivial, hTail.fresh⟩
      · rw [if_neg hClose, if_neg hClose]
        have hEntry :=
          readChordEntry_alike hStep hFin
            (.cons hHead hSpace hTail)
        apply Stop.andThen_alike (Stop.ofError_alike hEntry)
        intro a after b after' hRead hEntry
        have hShorter :=
          length_readChordEntry_lt
            (Outcome.mapError_eq_ok.mp hRead)
        apply (readChordEntries_alike hStep hFin hEntry.2).imp
        intro v w hOthers
        exact ⟨.cons hEntry.1 hOthers.1, hOthers.2⟩
termination_by ts.length
decreasing_by
  simp only [List.length_cons]
  omega

------------------------------------------------------------
-- Pitch lines
------------------------------------------------------------

variable (f g) in
/-
  Units of pitch lines that say the same,
  wherever they stand.
-/
inductive PitchUnit.Like : PitchUnit → PitchUnit → Prop where
  | barline {t u : Token}
      (hLocation : f t.location = g u.location) :
      Like (.barline t) (.barline u)
  | group {a b : BracketGroup}
      (hGroups : a.Like f g b) :
      Like (.group a) (.group b)
  | chord {t u : Token} {as bs : List ChordEntry}
      (hLocation : f t.location = g u.location)
      (hEntries : List.Forall₂ (ChordEntry.Like f g) as bs) :
      Like (.chord t as) (.chord u bs)
  | run {ps qs : List Pitch}
      (hPitches : PitchesAlike f g ps qs) :
      Like (.run ps) (.run qs)
  | stray {t u : Token} :
      Like (.stray t) (.stray u)

/- A unit of a pitch line is read alike. -/
theorem readPitchUnit_alike
    {t u : Token}
    (hStep : Location.InStep f g)
    (hFin : fin.Like f g fin')
    (hTokens : SpacedAlike f g p q (t :: ts) (u :: us)) :
    Outcome.Like (Stop.Like f g)
      (ReadAlike f g (PitchUnit.Like f g))
      (readPitchUnit fin t ts)
      (readPitchUnit fin' u us) := by
  have hRun := readRun_alike hStep hFin hTokens
  cases hTokens with
  | cons hHead _ hTail =>
      unfold readPitchUnit
      simp only [hHead.kind]
      split
      · exact .ok ⟨.barline hHead.location, hTail.fresh⟩
      · split
        · have hGroup := readGroup_alike t u hFin hTail
          generalize readGroup fin t ts = x at hGroup ⊢
          generalize readGroup fin' u us = y at hGroup ⊢
          cases hGroup with
          | ok hValues =>
              exact .ok ⟨.group hValues.1, hValues.2.fresh⟩
          | error hErrors =>
              exact .error hErrors
        · split
          · have hEntries :=
              readChordEntries_alike hStep hFin hTail
            generalize readChordEntries fin ts = x at hEntries ⊢
            generalize readChordEntries fin' us =
              y at hEntries ⊢
            cases hEntries with
            | ok hValues =>
                exact .ok
                  ⟨.chord hHead.location hValues.1,
                    hValues.2.2⟩
            | error hErrors =>
                exact .error hErrors
          · generalize readRun fin (t :: ts) = x at hRun ⊢
            generalize readRun fin' (u :: us) = y at hRun ⊢
            cases hRun with
            | error hErrors =>
                exact .error hErrors
            | @ok a b hValues =>
                rcases a with ⟨ps, after⟩
                rcases b with ⟨qs, after'⟩
                rcases hValues with ⟨hPitches, hAfter⟩
                refine .ok ?_
                by_cases hNil : ps = []
                · simp only [if_pos hNil,
                    if_pos (hPitches.eq_nil_iff.mp hNil)]
                  exact ⟨.stray, hAfter.tail⟩
                · simp only [if_neg hNil,
                    if_neg
                      (hPitches.eq_nil_iff.not.mp hNil)]
                  exact ⟨.run hPitches, hAfter⟩

theorem readPitchLine_alike
    {p q : Option Token}
    {ts us : List Token}
    (hStep : Location.InStep f g)
    (hFin : fin.Like f g fin')
    (hTokens : SpacedAlike f g p q ts us) :
    Outcome.Like (Stop.Like f g)
      (ReadAlike f g (List.Forall₂ (PitchUnit.Like f g)))
      (readPitchLine fin ts) (readPitchLine fin' us) := by
  cases hTokens with
  | nil =>
      simp only [readPitchLine]
      exact .ok ⟨.nil, .nil⟩
  | @cons _ _ t u ts us hHead hSpace hTail =>
      rw [readPitchLine_cons, readPitchLine_cons, hHead.kind]
      by_cases hNewline : u.kind = .newline
      · rw [if_pos hNewline, if_pos hNewline]
        exact .ok
          ⟨.nil,
            (SpacedAlike.cons hHead hSpace hTail).fresh⟩
      · rw [if_neg hNewline, if_neg hNewline]
        apply Stop.andThen_alike
          (readPitchUnit_alike hStep hFin
            (.cons hHead hSpace hTail))
        intro a after b after' hRead hUnit
        have hShorter := length_readPitchUnit_le hRead
        apply (readPitchLine_alike hStep hFin hUnit.2).imp
        intro v w hOthers
        exact ⟨.cons hUnit.1 hOthers.1, hOthers.2⟩
termination_by ts.length
decreasing_by
  simp only [List.length_cons]
  omega

/- Pitch lines are read alike. -/
theorem readPitchLines_alike
    {p q : Option Token}
    {ts us : List Token}
    (hStep : Location.InStep f g)
    (hFin : fin.Like f g fin')
    (hTokens : SpacedAlike f g p q ts us) :
    Outcome.Like (Stop.Like f g)
      (ReadAlike f g
        (List.Forall₂ (List.Forall₂ (PitchUnit.Like f g))))
      (readPitchLines fin ts) (readPitchLines fin' us) := by
  cases hTokens with
  | nil =>
      simp only [readPitchLines]
      exact .ok ⟨.nil, .nil⟩
  | @cons _ _ t u ts us hHead hSpace hTail =>
      have hBoth := SpacedAlike.cons hHead hSpace hTail
      rw [readPitchLines_cons, readPitchLines_cons,
        hHead.kind, hTail.atNewline_eq]
      by_cases hNewline : u.kind = .newline
      · rw [if_pos hNewline, if_pos hNewline]
        split
        · exact .ok ⟨.nil, hBoth.fresh⟩
        · exact readPitchLines_alike hStep hFin hTail
      · rw [if_neg hNewline, if_neg hNewline]
        apply Stop.andThen_alike
          (readPitchLine_alike hStep hFin hBoth)
        intro a after b after' hRead hLine
        have hShorter :=
          length_readPitchLine_lt
            (hHead.kind ▸ hNewline) hRead
        apply (readPitchLines_alike hStep hFin hLine.2).imp
        intro v w hOthers
        exact ⟨.cons hLine.1 hOthers.1, hOthers.2⟩
termination_by ts.length
decreasing_by
  · simp
  · exact hShorter

end LyricScore
