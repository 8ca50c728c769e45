import LyricScore.Proofs.Manuscript.Step
import LyricScore.Proofs.Outcome

/-
  This file defines when lists of tokens are alike: their
  tokens have the same kinds and texts, stand at locations
  that two functions make the same, and are kept apart by
  white space at the same places of their lines.  All that a
  reader does with the one list, it does with the other.

  Key definitions include:
    * `Location.InStep`, `Location.Concur`
    * `Token.Like`
    * `Token.SpacedFrom`
    * `SpacedAlike`
    * `ScoreError.Like`
    * `ReadAlike`

  Key theorems include:
    * `SpacedAlike.takeWhile`, `SpacedAlike.dropWhile`
    * `Stop.andThen_alike`
-/

namespace LyricScore

------------------------------------------------------------
-- Locations and tokens
------------------------------------------------------------

/-
  Two functions on locations that, where they agree, agree
  on the next column.
-/
structure Location.InStep
    (f g : Location → Location) : Prop where
  next :
    ∀ a b,
      f a = g b →
        f ⟨a.line, a.column + 1⟩ = g ⟨b.line, b.column + 1⟩

/-
  Two such functions that also agree on the unknown location
  and, where they agree, at the start of the line.
-/
structure Location.Concur
    (f g : Location → Location) :
      Prop extends Location.InStep f g where
  unknown : f {} = g {}
  lineStart : ∀ a b, f a = g b → f ⟨a.line, 0⟩ = g ⟨b.line, 0⟩

section Relations

variable (f g : Location → Location)

/- Two tokens that differ only in where they stand. -/
structure Token.Like
    (t u : Token) : Prop where
  kind : t.kind = u.kind
  text : t.text = u.text
  location : f t.location = g u.location

/-
  White space separates a token from one
  before it on its line.
-/
def Token.SpacedFrom
    (t : Token)
    (previous : Option Token) : Prop :=
  t.kind ≠ .newline ∧
    ∃ p ∈ previous, p.kind ≠ .newline ∧ ¬ t.AdjacentTo p

/-
  Two lists of tokens, read behind the tokens `p` and `q`,
  that differ only in where the tokens stand and in how much
  white space separates them.
-/
inductive SpacedAlike :
    Option Token →
      Option Token →
      List Token →
      List Token →
      Prop where
  | nil {p q : Option Token} :
      SpacedAlike p q [] []
  | cons {p q : Option Token} {t u : Token} {ts us : List Token}
      (hHead : t.Like f g u)
      (hSpace : t.SpacedFrom p ↔ u.SpacedFrom q)
      (hTail : SpacedAlike (some t) (some u) ts us) :
      SpacedAlike p q (t :: ts) (u :: us)

/- Errors that differ only in where their token stands. -/
inductive ScoreError.Like : ScoreError → ScoreError → Prop where
  | missing {what : Expected} {t u : Token}
      (hFound : t.Like f g u) :
      Like (.missing what t) (.missing what u)
  | number (error : NumeralError) :
      Like (.number error) (.number error)
  | emptyName :
      Like .emptyName .emptyName
  | unterminated :
      Like .unterminated .unterminated

/- Stops with errors that are alike; remarks do not count. -/
def Stop.Like
    (r s : Stop) : Prop :=
  r.error.Like f g s.error

/-
  Results of readers: what was read, and
  the tokens behind it.
-/
def ReadAlike
    {α β : Type}
    (R : α → β → Prop)
    (a : α × List Token)
    (b : β × List Token) : Prop :=
  R a.1 b.1 ∧ SpacedAlike f g none none a.2 b.2

end Relations

namespace SpacedAlike

variable {f g : Location → Location}
variable {p q : Option Token}
variable {ts us : List Token}

/-
  What stands before two lists does not matter to their
  later tokens.
-/
theorem fresh
    (hTokens : SpacedAlike f g p q ts us) :
    SpacedAlike f g none none ts us := by
  cases hTokens with
  | nil =>
      exact .nil
  | cons hHead _ hTail =>
      exact .cons hHead (by simp [Token.SpacedFrom]) hTail

theorem tail
    (hTokens : SpacedAlike f g p q ts us) :
    SpacedAlike f g none none ts.tail us.tail := by
  cases hTokens with
  | nil =>
      exact .nil
  | cons _ _ hTail =>
      exact hTail.fresh

/-
  The first of alike tokens are alike, and so is
  what stands in for them.
-/
theorem headD
    {fin fin' : Token}
    (hFin : fin.Like f g fin')
    (hTokens : SpacedAlike f g p q ts us) :
    (ts.headD fin).Like f g (us.headD fin') := by
  cases hTokens with
  | nil =>
      exact hFin
  | cons hHead _ _ =>
      exact hHead

/- Alike tokens are at a line end together. -/
theorem atNewline_eq
    (hTokens : SpacedAlike f g p q ts us) :
    atNewline ts = atNewline us := by
  cases hTokens with
  | nil =>
      rfl
  | cons hHead _ _ =>
      simp only [atNewline, hHead.kind]

/-
  What the kinds of the one list satisfy,
  those of the other do.
-/
theorem forall_kind
    (P : TokenKind → Prop)
    (hTokens : SpacedAlike f g p q ts us)
    (hKinds : ∀ t ∈ ts, P t.kind) :
    ∀ u ∈ us, P u.kind := by
  induction hTokens with
  | nil =>
      exact hKinds
  | cons hHead _ _ ih =>
      rw [List.forall_mem_cons] at hKinds ⊢
      exact ⟨hHead.kind ▸ hKinds.1, ih hKinds.2⟩

variable {φ : Token → Bool}

/-
  A test that sees only what is alike splits both lists at
  the same place.
-/
theorem takeWhile
    (hKinds : ∀ t u, t.Like f g u → φ t = φ u)
    (hTokens : SpacedAlike f g p q ts us) :
    SpacedAlike f g p q (ts.takeWhile φ) (us.takeWhile φ) := by
  induction hTokens with
  | nil =>
      exact .nil
  | @cons p q t u ts us hHead hSpace _ ih =>
      simp only [List.takeWhile_cons, hKinds t u hHead]
      split
      · exact .cons hHead hSpace ih
      · exact .nil

theorem dropWhile
    (hKinds : ∀ t u, t.Like f g u → φ t = φ u)
    (hTokens : SpacedAlike f g p q ts us) :
    SpacedAlike f g none none (ts.dropWhile φ)
      (us.dropWhile φ) := by
  induction hTokens with
  | nil =>
      exact .nil
  | @cons p q t u ts us hHead hSpace hTail ih =>
      simp only [List.dropWhile_cons, hKinds t u hHead]
      split
      · exact ih
      · exact (SpacedAlike.cons hHead hSpace hTail).fresh

end SpacedAlike

variable {f g : Location → Location}

/- A unit before others, on both sides. -/
theorem Stop.andThen_alike
    {α β γ δ : Type}
    {P : α × List Token → β × List Token → Prop}
    {D : List α → List β → Prop}
    {R : γ → δ → Prop}
    {r : α → List Remark}
    {s : β → List Remark}
    {x : Except Stop (α × List Token)}
    {y : Except Stop (β × List Token)}
    {others : α → List Token → Except Stop (List α × γ)}
    {others' : β → List Token → Except Stop (List β × δ)}
    (hUnit : Outcome.Like (Stop.Like f g) P x y)
    (hOthers :
      ∀ a after b after',
        x = .ok (a, after) →
          P (a, after) (b, after') →
          Outcome.Like (Stop.Like f g)
            (fun v w => D (a :: v.1) (b :: w.1) ∧ R v.2 w.2)
            (others a after) (others' b after')) :
    Outcome.Like (Stop.Like f g)
      (fun v w => D v.1 w.1 ∧ R v.2 w.2)
      (andThen x r others) (andThen y s others') := by
  cases hUnit with
  | error hErrors =>
      exact .error hErrors
  | @ok a b hValues =>
      have hRest := hOthers a.1 a.2 b.1 b.2 rfl hValues
      simp only [andThen]
      generalize others a.1 a.2 = x at hRest ⊢
      generalize others' b.1 b.2 = y at hRest ⊢
      cases hRest with
      | error hErrors =>
          exact .error hErrors
      | ok hValues =>
          exact .ok hValues

/- Errors without remarks are alike as stops. -/
theorem Stop.ofError_alike
    {α β : Type}
    {R : α → β → Prop}
    {x : Except ScoreError α}
    {y : Except ScoreError β}
    (hLike : Outcome.Like (ScoreError.Like f g) R x y) :
    Outcome.Like (Stop.Like f g) R (x.mapError ofError)
      (y.mapError ofError) := by
  cases hLike with
  | ok hValues =>
      exact .ok hValues
  | error hErrors =>
      exact .error hErrors

end LyricScore
