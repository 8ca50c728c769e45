import LyricScore.Proofs.Manuscript.Alike.Basic
import LyricScore.Proofs.Token.Spacing
import LyricScore.Proofs.Token.Step

/-
  This file shows that a text and its tidy text have tokens
  that are alike.  Two readers go through the texts side by
  side: what the one has yet to read is, made tidy, what the
  other has yet to read.

  Key definitions include:
    * `Location.eraseColumn`
    * `Abreast`

  Key theorems include:
    * `Abreast.spacedFrom_iff`
    * `Abreast.behind_tokenAt`
    * `Abreast.tokens`
    * `tokenize_tidy`
-/

namespace LyricScore

open Spacing

------------------------------------------------------------
-- Locations without columns
------------------------------------------------------------

/- A location of which only the line is known. -/
def Location.eraseColumn
    (l : Location) : Location :=
  ⟨l.line, 0⟩

theorem Location.concur_eraseColumn :
    Concur eraseColumn eraseColumn := by
  refine ⟨⟨?_⟩, rfl, ?_⟩
  · intro a b hLines
    exact hLines
  · intro a b hLines
    exact hLines

------------------------------------------------------------
-- Two readers side by side
------------------------------------------------------------

/-
  Where a reader stands behind a token: at the start of a line
  there is none before it on its line, and in a word the token
  ends where the reader is.
-/
def Spacing.Spot.Behind
    (previous : Option Token)
    (column : Nat) : Spot → Prop
  | lineStart => ∀ t ∈ previous, t.kind = .newline
  | word =>
      ∃ t ∈ previous,
        t.kind ≠ .newline ∧ t.endColumn = column
  | gap => False

/-
  Two readers side by side: one behind the token `p` of a
  text, the other behind the token `q` of its tidy text.
-/
structure Abreast
    (spot : Spot)
    (u v : Unread)
    (p q : Option Token) : Prop where
  line : u.line = v.line
  text : v.text = squeeze spot u.text
  behind : spot.Behind p u.column
  behind' : spot.Behind q v.column

/-
  White space separates a token from the one before it where
  blanks were skipped.
-/
theorem Spacing.Spot.Behind.spacedFrom_iff
    {spot : Spot}
    {previous : Option Token}
    {column : Nat}
    {t : Token}
    (skipped : Nat)
    (hBehind : spot.Behind previous column)
    (hColumn : t.column = (column + skipped : Nat)) :
    t.SpacedFrom previous ↔
      t.kind ≠ .newline ∧ spot = .word ∧ 0 < skipped := by
  unfold Token.SpacedFrom
  apply and_congr_right
  intro _
  cases spot with
  | lineStart =>
      constructor
      · rintro ⟨s, hMem, hKind, -⟩
        exact absurd (hBehind s hMem) hKind
      · rintro ⟨hSpot, -⟩
        cases hSpot
  | word =>
      rcases hBehind with ⟨s, hMem, hKind, hEnd⟩
      have hAdjacent : t.AdjacentTo s ↔ skipped = 0 := by
        unfold Token.AdjacentTo
        rw [hColumn, hEnd]
        omega
      constructor
      · rintro ⟨s', hMem', -, hApart⟩
        cases Option.mem_unique hMem hMem'
        exact ⟨rfl,
          Nat.pos_of_ne_zero fun hZero =>
            hApart (hAdjacent.mpr hZero)⟩
      · rintro ⟨-, hPositive⟩
        exact ⟨s, hMem, hKind,
          fun h => Nat.ne_of_gt hPositive (hAdjacent.mp h)⟩
  | gap =>
      exact hBehind.elim

namespace Abreast

variable {spot : Spot}
variable {u v : Unread}
variable {p q : Option Token}
variable {c : Char}
variable {rest : List Char}

/- Both readers skip blanks, the second at most one. -/
theorem skip
    (hAbreast : Abreast spot u v p q)
    (hText : u.skipBlanks.text = c :: rest) :
    v.skipBlanks.text = c :: squeeze (Spot.after c) rest ∧
      v.skipBlanks.column =
        v.column +
          (if c = '\n' then
              []
            else
              (spotBehind spot u.text).space).length := by
  have hBlank := Unread.blank_of_skipBlanks hText
  have hText :
      u.text.dropWhile Lexeme.isBlank = c :: rest :=
    hText
  have hSqueezed :
      v.text =
        squeeze (spotBehind spot u.text) (c :: rest) := by
    rw [hAbreast.text, squeeze_dropWhile, hText]
  have hParts :=
    squeeze_of_not_blank (spotBehind spot u.text)
      rest hBlank
  simp only [Unread.skipBlanks, hSqueezed, hParts.1, hParts.2]
  exact ⟨trivial, trivial⟩

/- The next tokens differ only in their columns. -/
theorem like_tokenAt
    (hAbreast : Abreast spot u v p q)
    (hBlank : Lexeme.isBlank c = false)
    (column column' : Nat)
    (rest : List Char) :
    (Unread.tokenAt u.line column c rest).Like
      Location.eraseColumn Location.eraseColumn
      (Unread.tokenAt v.line column' c
        (squeeze (Spot.after c) rest)) := by
  have hTake := take_squeeze rest hBlank
  constructor
  · simp only [Unread.tokenAt, hTake]
  · simp only [Unread.tokenAt, hTake]
  · simp only [Unread.tokenAt, Token.location,
      Location.eraseColumn, hAbreast.line]

/-
  White space stands before both of the next
  tokens or before none.
-/
theorem spacedFrom_iff
    (hAbreast : Abreast spot u v p q)
    (hText : u.skipBlanks.text = c :: rest) :
    (Unread.tokenAt u.line u.skipBlanks.column c
        rest).SpacedFrom p ↔
      (Unread.tokenAt v.line v.skipBlanks.column c
        (squeeze (Spot.after c) rest)).SpacedFrom q := by
  have hKind := (Lexeme.take_kind c rest).1
  have hKind' :=
    (Lexeme.take_kind c (squeeze (Spot.after c) rest)).1
  have hFirst :
      (Unread.tokenAt u.line u.skipBlanks.column c
          rest).SpacedFrom p ↔
        ¬ c = '\n' ∧
          spot = .word ∧
          0 < (u.text.takeWhile Lexeme.isBlank).length := by
    rw [hAbreast.behind.spacedFrom_iff
        (u.text.takeWhile Lexeme.isBlank).length rfl,
      Unread.tokenAt, Ne, hKind]
  have hSecond :
      (Unread.tokenAt v.line v.skipBlanks.column c
          (squeeze (Spot.after c) rest)).SpacedFrom q ↔
        ¬ c = '\n' ∧
          spot = .word ∧
          0 <
            (if c = '\n' then
                []
              else
                (spotBehind spot u.text).space).length := by
    rw [hAbreast.behind'.spacedFrom_iff _
        (congrArg Nat.cast (hAbreast.skip hText).2),
      Unread.tokenAt, Ne, hKind']
  rw [hFirst, hSecond]
  apply and_congr_right
  intro hNewline
  apply and_congr_right
  intro hSpot
  rw [if_neg hNewline, spotBehind, hSpot]
  by_cases hSkipped : u.text.takeWhile Lexeme.isBlank = []
  · rw [if_pos hSkipped, hSkipped]
    rfl
  · rw [if_neg hSkipped]
    exact iff_of_true (List.length_pos_iff.mpr hSkipped)
      (by decide)

/-
  Behind the next tokens, the readers
  are side by side again.
-/
theorem behind_tokenAt
    (hAbreast : Abreast spot u v p q)
    (hBlank : Lexeme.isBlank c = false)
    (column column' : Nat) :
    Abreast (Spot.after c)
      (Unread.behind u.line column c rest)
      (Unread.behind v.line column' c
        (squeeze (Spot.after c) rest))
      (some (Unread.tokenAt u.line column c rest))
      (some
        (Unread.tokenAt v.line column' c
          (squeeze (Spot.after c) rest))) := by
  have hTake := take_squeeze rest hBlank
  unfold Unread.behind
  by_cases hNewline : c = '\n'
  · rw [if_pos hNewline, if_pos hNewline]
    constructor
    · simp only [hAbreast.line]
    · simp only [hTake]
    · rw [Spot.after, if_pos hNewline]
      rintro t ⟨⟩
      exact (Lexeme.take_kind c _).1.mpr hNewline
    · rw [Spot.after, if_pos hNewline]
      rintro t ⟨⟩
      exact (Lexeme.take_kind c _).1.mpr hNewline
  · rw [if_neg hNewline, if_neg hNewline]
    constructor
    · exact hAbreast.line
    · simp only [hTake]
    · rw [Spot.after, if_neg hNewline]
      exact ⟨_, rfl,
        mt (Lexeme.take_kind c _).1.mp hNewline, rfl⟩
    · rw [Spot.after, if_neg hNewline]
      exact ⟨_, rfl,
        mt (Lexeme.take_kind c _).1.mp hNewline, rfl⟩

/-
  The tokens of the one text are alike to those of the other.
  The induction is on what is left to read.
-/
theorem tokens
    (hAbreast : Abreast spot u v p q) :
    ∃ ts us fin fin',
      u.tokens = ts ++ [fin] ∧
        v.tokens = us ++ [fin'] ∧
        fin.kind = .endOfText ∧
        fin.Like Location.eraseColumn
          Location.eraseColumn fin' ∧
        (∀ t ∈ ts, t.kind ≠ .endOfText) ∧
        SpacedAlike Location.eraseColumn
          Location.eraseColumn p q ts us := by
  induction u using Unread.tokens.induct generalizing spot v
    p q with
  | case1 u t behind hStep ih =>
      cases hText : u.skipBlanks.text with
      | nil =>
          cases hStep.symm.trans (Unread.step?_eq_none hText)
      | cons c rest =>
          have hBlank := Unread.blank_of_skipBlanks hText
          have hSkip := (hAbreast.skip hText).1
          cases hStep.symm.trans (Unread.step?_eq hText)
          have hHead :=
            hAbreast.like_tokenAt hBlank u.skipBlanks.column
              v.skipBlanks.column rest
          rcases ih
            (hAbreast.behind_tokenAt hBlank _
              v.skipBlanks.column) with
            ⟨ts, us, fin, fin', hTokens, hTokens', hEnd,
              hFin, hOpen, hRest⟩
          refine ⟨_ :: ts, _ :: us, fin, fin', ?_, ?_, hEnd,
            hFin, ?_,
            .cons hHead
              (hAbreast.spacedFrom_iff hText) hRest⟩
          · rw [Unread.tokens_of_step? hStep, hTokens]
            rfl
          · rw [Unread.tokens_of_step?
                (Unread.step?_eq hSkip), hTokens']
            rfl
          · intro t hMem
            rcases List.mem_cons.mp hMem with rfl | hMem
            · exact (Lexeme.take_kind c rest).2
            · exact hOpen t hMem
  | case2 u hStep =>
      cases hText : u.skipBlanks.text with
      | cons c rest =>
          cases hStep.symm.trans (Unread.step?_eq hText)
      | nil =>
          have hEmpty : v.skipBlanks.text = [] := by
            have hText :
                u.text.dropWhile Lexeme.isBlank = [] :=
              hText
            simp only [Unread.skipBlanks, hAbreast.text,
              squeeze_dropWhile spot u.text, hText]
            rfl
          have hFin :
              u.endToken.Like Location.eraseColumn
                Location.eraseColumn v.endToken := by
            constructor
            · rfl
            · rfl
            · simp only [Unread.endToken, Unread.skipBlanks,
                Token.location, Location.eraseColumn,
                hAbreast.line]
          exact ⟨[], [], u.endToken, v.endToken,
            Unread.tokens_of_step?_eq_none hStep,
            Unread.tokens_of_step?_eq_none
              (Unread.step?_eq_none hEmpty), rfl, hFin,
            by simp, .nil⟩

end Abreast

/-
  The tokens of a text are alike to those of its tidy text.
-/
theorem tokenize_tidy
    (text : String) :
    ∃ ts us fin fin',
      tokenize text = ts ++ [fin] ∧
        tokenize (tidy text) = us ++ [fin'] ∧
        fin.kind = .endOfText ∧
        fin.Like Location.eraseColumn
          Location.eraseColumn fin' ∧
        (∀ t ∈ ts, t.kind ≠ .endOfText) ∧
        SpacedAlike Location.eraseColumn
          Location.eraseColumn none none ts us := by
  have hStart :
      Abreast .lineStart (Unread.ofText text)
        (Unread.ofText (tidy text)) none none := by
    constructor
    · rfl
    · simp only [Unread.ofText, joinPairs_tidy]
    · rintro t ⟨⟩
    · rintro t ⟨⟩
  exact hStart.tokens

end LyricScore
