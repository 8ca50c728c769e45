import LyricScore.Proofs.Manuscript.Alike.Basic
import LyricScore.Proofs.Score.Locations

/-
  This file shows that bracket groups in lists of tokens that
  are alike hold the same directives.

  Key definitions include:
    * `BracketEntry.Like`
    * `BracketGroup.Like`

  Key theorems include:
    * `takeNumber_alike`
    * `readOrder_alike`
    * `readEntries_alike`
    * `readGroup_alike`
-/

namespace LyricScore

variable {f g : Location → Location}
variable {fin fin' : Token}
variable {p q : Option Token}
variable {ts us : List Token}

------------------------------------------------------------
-- Bracket groups
------------------------------------------------------------

/- The number of an order is read alike. -/
theorem takeNumber_alike
    (name : DirectiveName)
    (hFin : fin.Like f g fin')
    (hTokens : SpacedAlike f g p q ts us) :
    Outcome.Like (ScoreError.Like f g) (ReadAlike f g Eq)
      (takeNumber fin name ts) (takeNumber fin' name us) := by
  cases hTokens with
  | nil =>
      exact .error (.missing hFin)
  | cons hHead _ hTail =>
      simp only [takeNumber, hHead.kind, hHead.text]
      split
      · split
        · exact .ok ⟨rfl, hTail.fresh⟩
        · exact .error (.number _)
      · exact .error (.missing hHead)

theorem takeAccidental_alike
    (hTokens : SpacedAlike f g p q ts us) :
    ReadAlike f g Eq (takeAccidental ts)
      (takeAccidental us) := by
  cases hTokens with
  | nil =>
      exact ⟨rfl, .nil⟩
  | cons hHead hSpace hTail =>
      simp only [takeAccidental, hHead.kind, hHead.text]
      split
      · exact ⟨rfl, hTail.fresh⟩
      · exact ⟨rfl, (SpacedAlike.cons hHead hSpace hTail).fresh⟩

theorem takeDot_alike
    (hTokens : SpacedAlike f g p q ts us) :
    ReadAlike f g Eq (takeDot ts) (takeDot us) := by
  cases hTokens with
  | nil =>
      exact ⟨rfl, .nil⟩
  | cons hHead hSpace hTail =>
      simp only [takeDot, hHead.kind]
      split
      · exact ⟨rfl, hTail.fresh⟩
      · exact ⟨rfl, (SpacedAlike.cons hHead hSpace hTail).fresh⟩

/- An order is read alike. -/
theorem readOrder_alike
    (name : DirectiveName)
    (hFin : fin.Like f g fin')
    (hTokens : SpacedAlike f g p q ts us) :
    Outcome.Like (ScoreError.Like f g) (ReadAlike f g Eq)
      (readOrder fin name ts) (readOrder fin' name us) := by
  have hNumber := takeNumber_alike name hFin hTokens
  cases name with
  | beatUnit =>
      apply hNumber.map
      rintro ⟨n, rest⟩ ⟨m, rest'⟩ ⟨hNumbers, hRest⟩
      have hDot := takeDot_alike hRest
      have hNumbers : n = m := hNumbers
      subst hNumbers
      simp only [hDot.1]
      exact ⟨rfl, hDot.2⟩
  | key =>
      have hAccidental := takeAccidental_alike hTokens
      simp only [readOrder, hAccidental.1]
      apply (takeNumber_alike .key hFin hAccidental.2).map
      rintro ⟨n, rest⟩ ⟨m, rest'⟩ ⟨hNumbers, hRest⟩
      have hNumbers : n = m := hNumbers
      subst hNumbers
      exact ⟨rfl, hRest⟩
  | _ =>
      apply hNumber.map
      rintro ⟨n, rest⟩ ⟨m, rest'⟩ ⟨hNumbers, hRest⟩
      have hNumbers : n = m := hNumbers
      subst hNumbers
      exact ⟨rfl, hRest⟩

variable (f g) in
/-
  Entries with the same directive, if
  any, wherever it stands.
-/
def BracketEntry.Like
    (a b : BracketEntry) : Prop :=
  a.directive?.map (Directive.mapLocation f) =
    b.directive?.map (Directive.mapLocation g)

theorem readEntry_alike
    {t u : Token}
    (hFin : fin.Like f g fin')
    (hHead : t.Like f g u)
    (hTokens : SpacedAlike f g p q ts us) :
    Outcome.Like (ScoreError.Like f g)
      (ReadAlike f g (BracketEntry.Like f g))
      (readEntry fin t ts) (readEntry fin' u us) := by
  simp only [readEntry, hHead.kind, hHead.text]
  by_cases hKind : u.kind = .identifier
  · simp only [if_pos hKind]
    cases DirectiveName.ofText? u.text with
    | none =>
        exact .ok ⟨rfl, hTokens.fresh⟩
    | some name =>
        apply (readOrder_alike name hFin hTokens).map
        rintro ⟨order, rest⟩ ⟨order', rest'⟩ ⟨hOrders, hRest⟩
        have hDirectives :
            (⟨order, f t.location⟩ : Directive) =
              ⟨order', g u.location⟩ := by
          rw [show order = order' from hOrders, hHead.location]
        exact ⟨congrArg some hDirectives, hRest⟩
  · simp only [if_neg hKind]
    exact .ok ⟨rfl, hTokens.fresh⟩

variable (f g) in
/- A closing bracket and the tokens behind it. -/
def ClosedAlike
    (a b : Token × List Token) : Prop :=
  a.1.kind = .closeBracket ∧ b.1.kind = .closeBracket ∧
    SpacedAlike f g (some a.1) (some b.1) a.2 b.2

/-
  The entries of brackets are read alike, up to alike
  closing tokens.
-/
theorem readEntries_alike
    {p q : Option Token}
    {ts us : List Token}
    (hFin : fin.Like f g fin')
    (hTokens : SpacedAlike f g p q ts us) :
    Outcome.Like (Stop.Like f g)
      (fun a b =>
        List.Forall₂ (BracketEntry.Like f g) a.1 b.1 ∧
          ClosedAlike f g a.2 b.2) (readEntries fin ts)
      (readEntries fin' us) := by
  cases hTokens with
  | nil =>
      simp only [readEntries]
      exact .error (.missing hFin)
  | @cons _ _ t u ts us hHead _ hTail =>
      rw [readEntries_cons, readEntries_cons, hHead.kind]
      by_cases hClose : u.kind = .closeBracket
      · rw [if_pos hClose, if_pos hClose]
        exact .ok ⟨.nil, hHead.kind.trans hClose, hClose, hTail⟩
      · rw [if_neg hClose, if_neg hClose]
        apply Stop.andThen_alike
          (Stop.ofError_alike
            (readEntry_alike hFin hHead hTail))
        intro a after b after' hRead hEntry
        have hShorter :=
          length_readEntry_le
            (Outcome.mapError_eq_ok.mp hRead)
        apply (readEntries_alike hFin hEntry.2).imp
        intro v w hOthers
        exact ⟨.cons hEntry.1 hOthers.1, hOthers.2⟩
termination_by ts.length
decreasing_by
  simp only [List.length_cons]
  omega

variable (f g) in
/- Groups with the same directives, wherever these stand. -/
structure BracketGroup.Like
    (a b : BracketGroup) : Prop where
  directives :
    a.directives.map (Directive.mapLocation f) =
      b.directives.map (Directive.mapLocation g)
  closed :
    a.closing.kind = .closeBracket ∧
      b.closing.kind = .closeBracket

theorem BracketEntry.directives_eq
    {as bs : List BracketEntry}
    (hEntries : List.Forall₂ (BracketEntry.Like f g) as bs) :
    (as.filterMap directive?).map
        (Directive.mapLocation f) =
      (bs.filterMap directive?).map
        (Directive.mapLocation g) := by
  induction hEntries with
  | nil =>
      rfl
  | @cons a b as bs hHead _ ih =>
      have hHead : a.directive?.map (Directive.mapLocation f) =
          b.directive?.map (Directive.mapLocation g) := hHead
      rw [List.map_filterMap, List.map_filterMap] at ih ⊢
      simp only [List.filterMap_cons, hHead, ih]

/- A group of brackets is read alike. -/
theorem readGroup_alike
    (t u : Token)
    (hFin : fin.Like f g fin')
    (hTokens : SpacedAlike f g p q ts us) :
    Outcome.Like (Stop.Like f g)
      (fun a b =>
        a.1.Like f g b.1 ∧
          SpacedAlike f g (some a.1.closing)
            (some b.1.closing) a.2 b.2) (readGroup fin t ts)
      (readGroup fin' u us) := by
  have hEntries := readEntries_alike hFin hTokens
  unfold readGroup
  generalize readEntries fin ts = x at hEntries ⊢
  generalize readEntries fin' us = y at hEntries ⊢
  cases hEntries with
  | ok hValues =>
      rcases hValues with ⟨hEntries, hClose, hClose', hAfter⟩
      exact .ok
        ⟨⟨BracketEntry.directives_eq hEntries, hClose,
            hClose'⟩, hAfter⟩
  | error hErrors =>
      exact .error hErrors

end LyricScore
