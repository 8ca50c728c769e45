import LyricScore.Proofs.Manuscript.Alike.Bracket
import LyricScore.Score.LyricDraft

/-
  This file shows that the lyric lines of lists of tokens that
  are alike have the same units, with white space at the same
  places.

  Key definitions include:
    * `LyricUnit.Like`
    * `LyricUnit.Ends`
    * `UnitsAlike`

  Key theorems include:
    * `UnitsAlike.endsWithBarline_iff`
    * `LyricDraft.gap_iff`
    * `readLyricLine_alike`
    * `readLyricLines_alike`
-/

namespace LyricScore

variable {f g : Location → Location}
variable {fin fin' : Token}
variable {p q : Option Token}
variable {ts us : List Token}

------------------------------------------------------------
-- Lyric lines
------------------------------------------------------------

variable (f g) in
/-
  Units of lyric lines that say the same,
  wherever they stand.
-/
inductive LyricUnit.Like : LyricUnit → LyricUnit → Prop where
  | mark {t u : Token}
      (hToken : t.Like f g u)
      (hKind : t.kind ≠ .newline) :
      Like (.mark t) (.mark u)
  | group {a b : BracketGroup}
      (hGroups : a.Like f g b) :
      Like (.group a) (.group b)

/-
  The token that a unit, if there is one, ends
  with; it is no line end.
-/
def LyricUnit.Ends
    (unit : Option LyricUnit)
    (p : Option Token) : Prop :=
  p = unit.map last ∧ ∀ v ∈ unit, v.last.kind ≠ .newline

namespace LyricUnit.Like

variable {a b : LyricUnit}

theorem isBarline_eq
    (hUnits : a.Like f g b) :
    a.isBarline = b.isBarline := by
  cases hUnits with
  | mark hToken _ =>
      simp only [isBarline, hToken.kind]
  | group _ =>
      rfl

/-
  Units end with their last tokens, which are no line ends.
-/
theorem ends
    (hUnits : a.Like f g b) :
    Ends (some a) (some a.last) ∧
      Ends (some b) (some b.last) := by
  have hKinds :
      a.last.kind ≠ .newline ∧ b.last.kind ≠ .newline := by
    cases hUnits with
    | mark hToken hKind =>
        exact ⟨hKind, hToken.kind ▸ hKind⟩
    | group hGroups =>
        simp only [last, hGroups.closed.1, hGroups.closed.2]
        decide
  constructor
  · refine ⟨rfl, ?_⟩
    rintro v ⟨⟩
    exact hKinds.1
  · refine ⟨rfl, ?_⟩
    rintro w ⟨⟩
    exact hKinds.2

end LyricUnit.Like

variable (f g) in
/-
  Written lines with the same units, which white
  space separates at the same places.  The units `a`
  and `b` stand before them.
-/
inductive UnitsAlike :
    Option LyricUnit →
      Option LyricUnit →
      List LyricUnit →
      List LyricUnit →
      Prop where
  | nil {a b : Option LyricUnit} :
      UnitsAlike a b [] []
  | cons {a b : Option LyricUnit} {v w : LyricUnit}
      {vs ws : List LyricUnit}
      (hUnit : v.Like f g w)
      (hGap : LyricDraft.Gap a v ↔ LyricDraft.Gap b w)
      (hRest : UnitsAlike (some v) (some w) vs ws) :
      UnitsAlike a b (v :: vs) (w :: ws)

/- Alike lines end with a barline together. -/
theorem UnitsAlike.endsWithBarline_iff
    {a b : Option LyricUnit}
    {vs ws : List LyricUnit}
    (hUnits : UnitsAlike f g a b vs ws) :
    EndsWithBarline vs ↔ EndsWithBarline ws := by
  have hBarlines :
      vs.map LyricUnit.isBarline =
        ws.map LyricUnit.isBarline := by
    induction hUnits with
    | nil =>
        rfl
    | cons hUnit _ _ ih =>
        simp only [List.map_cons, hUnit.isBarline_eq, ih]
  have hEnds :
      ∀ units,
        EndsWithBarline units ↔
          (units.map LyricUnit.isBarline).getLast?.any id =
            true := by
    intro units
    simp only [EndsWithBarline, List.getLast?_map,
      Option.any_map, id_eq]
  rw [hEnds, hEnds, hBarlines]

/- A unit of a lyric line is read alike. -/
theorem readLyricUnit_alike
    {t u : Token}
    (hFin : fin.Like f g fin')
    (hKind : t.kind ≠ .newline)
    (hHead : t.Like f g u)
    (hTokens : SpacedAlike f g (some t) (some u) ts us) :
    Outcome.Like (Stop.Like f g)
      (fun a b =>
        a.1.Like f g b.1 ∧
          a.1.first = t ∧
          b.1.first = u ∧
          SpacedAlike f g (some a.1.last) (some b.1.last)
            a.2 b.2) (readLyricUnit fin t ts)
      (readLyricUnit fin' u us) := by
  simp only [readLyricUnit, hHead.kind]
  split
  · have hGroup := readGroup_alike t u hFin hTokens
    have hOpening := @readGroup_opening fin t ts
    have hOpening' := @readGroup_opening fin' u us
    generalize readGroup fin t ts = x at hGroup hOpening ⊢
    generalize readGroup fin' u us = y at hGroup hOpening' ⊢
    cases hGroup with
    | ok hValues =>
        exact .ok
          ⟨.group hValues.1, hOpening rfl, hOpening' rfl,
            hValues.2⟩
    | error hErrors =>
        exact .error hErrors
  · exact .ok ⟨.mark hHead hKind, rfl, rfl, hTokens⟩

/-
  White space stands before a unit if it stands
  before its first token.
-/
theorem LyricDraft.gap_iff
    {previous : Option LyricUnit}
    {unit : LyricUnit}
    (hEnds : LyricUnit.Ends previous p)
    (hFirst : unit.first.kind ≠ .newline) :
    Gap previous unit ↔ unit.first.SpacedFrom p := by
  rcases hEnds with ⟨rfl, hLast⟩
  cases previous with
  | none =>
      simp [Gap, Token.SpacedFrom]
  | some v =>
      have hLast := hLast v rfl
      simp [Gap, Token.SpacedFrom, hFirst, hLast]

theorem readLyricLine_alike
    {a b : Option LyricUnit}
    {p q : Option Token}
    {ts us : List Token}
    (hFin : fin.Like f g fin')
    (hEnds : LyricUnit.Ends a p)
    (hEnds' : LyricUnit.Ends b q)
    (hTokens : SpacedAlike f g p q ts us) :
    Outcome.Like (Stop.Like f g)
      (ReadAlike f g (UnitsAlike f g a b))
      (readLyricLine fin ts) (readLyricLine fin' us) := by
  cases hTokens with
  | nil =>
      simp only [readLyricLine]
      exact .ok ⟨.nil, .nil⟩
  | @cons _ _ t u ts us hHead hSpace hTail =>
      rw [readLyricLine_cons, readLyricLine_cons, hHead.kind]
      by_cases hNewline : u.kind = .newline
      · rw [if_pos hNewline, if_pos hNewline]
        exact .ok
          ⟨.nil,
            (SpacedAlike.cons hHead hSpace hTail).fresh⟩
      · have hNewline' : t.kind ≠ .newline :=
          hHead.kind ▸ hNewline
        rw [if_neg hNewline, if_neg hNewline]
        apply Stop.andThen_alike
          (readLyricUnit_alike hFin hNewline' hHead hTail)
        rintro v after w after' hRead
          ⟨hUnit, hFirst, hFirst', hAfter⟩
        have hShorter := length_readLyricUnit_le hRead
        have hGap :
            LyricDraft.Gap a v ↔ LyricDraft.Gap b w := by
          rw [LyricDraft.gap_iff hEnds (hFirst ▸ hNewline'),
            LyricDraft.gap_iff hEnds' (hFirst' ▸ hNewline),
            hFirst, hFirst']
          exact hSpace
        apply (readLyricLine_alike hFin hUnit.ends.1
          hUnit.ends.2 hAfter).imp
        intro x y hOthers
        exact ⟨.cons hUnit hGap hOthers.1, hOthers.2⟩
termination_by ts.length
decreasing_by
  subst_vars
  simp only [List.length_cons]
  omega

/- Lyric lines are read alike. -/
theorem readLyricLines_alike
    {p q : Option Token}
    {ts us : List Token}
    (hFin : fin.Like f g fin')
    (hTokens : SpacedAlike f g p q ts us) :
    Outcome.Like (Stop.Like f g)
      (ReadAlike f g (List.Forall₂ (UnitsAlike f g none none)))
      (readLyricLines fin ts) (readLyricLines fin' us) := by
  cases hTokens with
  | nil =>
      simp only [readLyricLines]
      exact .ok ⟨.nil, .nil⟩
  | @cons _ _ t u ts us hHead hSpace hTail =>
      have hBoth := (SpacedAlike.cons hHead hSpace hTail).fresh
      rw [readLyricLines_cons, readLyricLines_cons,
        hHead.kind, hTail.atNewline_eq]
      by_cases hNewline : u.kind = .newline
      · rw [if_pos hNewline, if_pos hNewline]
        split
        · exact .ok ⟨.nil, hBoth⟩
        · exact readLyricLines_alike hFin hTail
      · rw [if_neg hNewline, if_neg hNewline]
        have hNothing : LyricUnit.Ends none none := by
          simp [LyricUnit.Ends]
        apply Stop.andThen_alike
          (readLyricLine_alike hFin hNothing hNothing hBoth)
        intro a after b after' hRead hLine
        have hShorter :=
          length_readLyricLine_lt
            (hHead.kind ▸ hNewline) hRead
        simp only [hLine.1.endsWithBarline_iff]
        split
        · exact .ok ⟨.cons hLine.1 .nil, hLine.2⟩
        · apply (readLyricLines_alike hFin hLine.2).imp
          intro v w hOthers
          exact ⟨.cons hLine.1 hOthers.1, hOthers.2⟩
termination_by ts.length
decreasing_by
  · simp
  · exact hShorter

end LyricScore
