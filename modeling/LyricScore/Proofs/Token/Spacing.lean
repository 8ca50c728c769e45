import LyricScore.Text.Parts
import LyricScore.Token.Scan

/-
  This file defines texts with tidy spacing: line ends are
  single line feeds, one space stands between two words of a
  line, and none stands at the ends of a line.  A tidy text is
  also what one pass over the characters makes, and cutting a
  token from it takes the same characters as before.

  Key definitions include:
    * `Spacing.words`
    * `Spacing.tidyLine`
    * `Spacing.tidy`
    * `Spacing.Spot`
    * `Spacing.squeeze`

  Key theorems include:
    * `Spacing.tidy_eq_squeeze`
    * `Spacing.joinPairs_tidy`
    * `Spacing.take_squeeze`
-/

namespace LyricScore

namespace Spacing

------------------------------------------------------------
-- Tidy texts
------------------------------------------------------------

/- The words of a line: what blanks separate. -/
def words
    (line : List Char) : List (List Char) :=
  (line.splitOnP Lexeme.isBlank).filter fun word =>
    !word.isEmpty

/- A line with one space between two words. -/
def tidyLine
    (line : List Char) : List Char :=
  List.intercalate [' '] (words line)

/-
  A text with the line feed for every line
  end, and with tidy lines.
-/
def tidy
    (text : String) : String :=
  String.ofList
    (List.intercalate ['\n']
      ((partsBetween '\n'
        (LineBreak.joinPairs text.toList)).map tidyLine))

example :
  tidy " do\t re |\r\n  \r\nc  d \n" =
    "do re |\n\nc d\n" := by
  decide +kernel

------------------------------------------------------------
-- One pass
------------------------------------------------------------

/-
  Where a pass over a text is: before the words of a line,
  in a word, or behind one.
-/
inductive Spot where
  | lineStart
  | word
  | gap
deriving DecidableEq, Repr

namespace Spot

/- Where a pass is behind a blank. -/
def afterBlank : Spot → Spot
  | lineStart => lineStart
  | _ => gap

/- The space before a word that starts here. -/
def space : Spot → List Char
  | gap => [' ']
  | _ => []

/- Where a pass is behind a character that is no blank. -/
def after
    (c : Char) : Spot :=
  if c = '\n' then lineStart else word

end Spot

/-
  The tidy text that the rest of a text becomes, one
  character after the other.
-/
def squeeze
    (spot : Spot) : List Char → List Char
  | [] => []
  | c :: cs =>
    if c = '\n' then c :: squeeze .lineStart cs
    else if Lexeme.isBlank c then squeeze spot.afterBlank cs
    else spot.space ++ c :: squeeze .word cs

theorem squeeze_newline
    (spot : Spot)
    (cs : List Char) :
    squeeze spot ('\n' :: cs) =
      '\n' :: squeeze .lineStart cs :=
  rfl

theorem squeeze_blank
    (spot : Spot)
    {c : Char}
    (cs : List Char)
    (hBlank : Lexeme.isBlank c = true) :
    squeeze spot (c :: cs) = squeeze spot.afterBlank cs := by
  have hLine : c ≠ '\n' := by
    rintro rfl
    cases hBlank
  rw [squeeze, if_neg hLine, if_pos hBlank]

/-
  A word has a space before it, if blanks came
  before it on its line.
-/
theorem squeeze_word
    (spot : Spot)
    {c : Char}
    (cs : List Char)
    (hLine : c ≠ '\n')
    (hBlank : Lexeme.isBlank c = false) :
    squeeze spot (c :: cs) =
      spot.space ++ c :: squeeze .word cs := by
  rw [squeeze, if_neg hLine, if_neg (by simp [hBlank])]

theorem squeeze_in_word
    {c : Char}
    (cs : List Char)
    (hLine : c ≠ '\n')
    (hBlank : Lexeme.isBlank c = false) :
    squeeze .word (c :: cs) = c :: squeeze .word cs :=
  squeeze_word .word cs hLine hBlank

/-
  A character ends a line, separates words
  or belongs to a word.
-/
theorem char_cases
    (c : Char) :
    c = '\n' ∨
      Lexeme.isBlank c = true ∨
      (c ≠ '\n' ∧ Lexeme.isBlank c = false) := by
  by_cases hNewline : c = '\n'
  · exact .inl hNewline
  · cases hBlank : Lexeme.isBlank c with
    | true =>
        exact .inr (.inl rfl)
    | false =>
        exact .inr (.inr ⟨hNewline, rfl⟩)

/-
  Joined parts: the first, and the others
  behind the separator.
-/
theorem intercalate_cons_eq
    (separator : Char)
    (part : List Char)
    (parts : List (List Char)) :
    List.intercalate [separator] (part :: parts) =
      part ++ parts.flatMap (separator :: ·) := by
  induction parts generalizing part with
  | nil =>
      simp [List.intercalate]
  | cons next parts ih =>
      rw [List.intercalate_cons_cons, ih]
      simp

/- What a pass makes of a line, from each spot in it. -/
theorem squeeze_line
    {line : List Char}
    (hLine : '\n' ∉ line) :
    squeeze .lineStart line = tidyLine line ∧
      squeeze .gap line = (words line).flatMap (' ' :: ·) ∧
      ∃ part parts,
        line.splitOnP Lexeme.isBlank = part :: parts ∧
          squeeze .word line =
            part ++
              (parts.filter fun word =>
                !word.isEmpty).flatMap (' ' :: ·) := by
  induction line with
  | nil =>
      exact ⟨rfl, rfl, [], [], rfl, rfl⟩
  | cons c line ih =>
      rcases ih fun hMem =>
        hLine (List.mem_cons_of_mem _ hMem) with
        ⟨hStart, hGap, part, parts, hParts, hWord⟩
      rcases char_cases c with rfl | hBlank | ⟨hNewline, hBlank⟩
      · exact absurd (by simp) hLine
      · have hSplit :
            (c :: line).splitOnP Lexeme.isBlank =
              [] :: line.splitOnP Lexeme.isBlank := by
          rw [List.splitOnP_cons_eq_if_modifyHead,
            if_pos hBlank]
        have hWords : words (c :: line) = words line := by
          simp [words, hSplit]
        simp only [squeeze_blank _ _ hBlank, Spot.afterBlank]
        refine ⟨?_, ?_, [], line.splitOnP Lexeme.isBlank,
          hSplit, ?_⟩
        · rw [hStart, tidyLine, tidyLine, hWords]
        · rw [hGap, hWords]
        · rw [hGap, words, List.nil_append]
      · have hSplit :
            (c :: line).splitOnP Lexeme.isBlank =
              (c :: part) :: parts := by
          rw [List.splitOnP_cons_eq_if_modifyHead,
            if_neg (by simp [hBlank]), hParts]
          rfl
        have hWords :
            words (c :: line) =
              (c :: part) ::
                parts.filter fun word => !word.isEmpty := by
          simp [words, hSplit]
        simp only [squeeze_word _ _ hNewline hBlank,
          Spot.space, hWord]
        refine ⟨?_, ?_, c :: part, parts, hSplit, rfl⟩
        · rw [tidyLine, hWords, intercalate_cons_eq]
          rfl
        · rw [hWords]
          rfl

/- What a pass makes of a text, by its lines. -/
theorem squeeze_lines
    (spot : Spot)
    (cs : List Char) :
    ∃ line lines,
      partsBetween '\n' cs = line :: lines ∧
        '\n' ∉ line ∧
        squeeze spot cs =
          squeeze spot line ++
            (lines.map tidyLine).flatMap ('\n' :: ·) := by
  induction cs generalizing spot with
  | nil =>
      exact ⟨[], [], rfl, by simp, rfl⟩
  | cons c cs ih =>
      have hParts :
          ∀ line lines,
            c ≠ '\n' →
              partsBetween '\n' cs = line :: lines →
              partsBetween '\n' (c :: cs) =
                (c :: line) :: lines := by
        intro line lines hNewline hRest
        rw [partsBetween, if_neg hNewline, hRest]
      rcases char_cases c with rfl | hBlank | ⟨hNewline, hBlank⟩
      · rcases ih .lineStart with
          ⟨line, lines, hRest, hLine, hSqueeze⟩
        refine ⟨[], line :: lines,
          by rw [partsBetween, if_pos rfl, hRest], by simp,
          ?_⟩
        rw [squeeze_newline, hSqueeze, (squeeze_line hLine).1]
        simp [squeeze]
      · have hNewline : c ≠ '\n' := by
          rintro rfl
          cases hBlank
        rcases ih spot.afterBlank with
          ⟨line, lines, hRest, hLine, hSqueeze⟩
        refine ⟨c :: line, lines,
          hParts line lines hNewline hRest, ?_, ?_⟩
        · simp [Ne.symm hNewline, hLine]
        · rw [squeeze_blank _ _ hBlank,
            squeeze_blank _ _ hBlank, hSqueeze]
      · rcases ih .word with
          ⟨line, lines, hRest, hLine, hSqueeze⟩
        refine ⟨c :: line, lines,
          hParts line lines hNewline hRest, ?_, ?_⟩
        · simp [Ne.symm hNewline, hLine]
        · rw [squeeze_word _ _ hNewline hBlank,
            squeeze_word _ _ hNewline hBlank, hSqueeze]
          simp

/- A tidy text is what one pass makes. -/
theorem tidy_eq_squeeze
    (text : String) :
    (tidy text).toList =
      squeeze .lineStart
        (LineBreak.joinPairs text.toList) := by
  rcases squeeze_lines .lineStart
    (LineBreak.joinPairs text.toList) with
    ⟨line, lines, hParts, hLine, hSqueeze⟩
  rw [tidy, String.toList_ofList, hParts, hSqueeze,
    (squeeze_line hLine).1, List.map_cons,
    intercalate_cons_eq]

------------------------------------------------------------
-- Line ends of tidy texts
------------------------------------------------------------

/- No carriage return is left. -/
theorem return_not_mem_squeeze
    (spot : Spot)
    (cs : List Char) :
    '\r' ∉ squeeze spot cs := by
  induction cs generalizing spot with
  | nil =>
      simp [squeeze]
  | cons c cs ih =>
      rcases char_cases c with rfl | hBlank | ⟨hNewline, hBlank⟩
      · simp [squeeze_newline, ih]
      · rw [squeeze_blank _ _ hBlank]
        exact ih _
      · have hReturn : c ≠ '\r' := by
          rintro rfl
          cases hBlank
        rw [squeeze_word _ _ hNewline hBlank]
        cases spot <;> simp [Spot.space, Ne.symm hReturn, ih]

/- A text without carriage returns has no pairs to join. -/
theorem joinPairs_of_no_return
    {cs : List Char}
    (hReturn : '\r' ∉ cs) :
    LineBreak.joinPairs cs = cs := by
  induction cs using LineBreak.joinPairs.induct with
  | case1 =>
      rfl
  | case2 c =>
      rfl
  | case3 c d rest hPair =>
      exact absurd (by simp [hPair.1]) hReturn
  | case4 c d rest hPair ih =>
      rw [LineBreak.joinPairs, if_neg hPair, ih]
      intro hMem
      exact hReturn (List.mem_cons_of_mem _ hMem)

/- A tidy text is the text with its blanks squeezed. -/
theorem joinPairs_tidy
    (text : String) :
    LineBreak.joinPairs (tidy text).toList =
      squeeze .lineStart (LineBreak.joinPairs text.toList) := by
  rw [tidy_eq_squeeze]
  exact joinPairs_of_no_return (return_not_mem_squeeze _ _)

------------------------------------------------------------
-- Blanks
------------------------------------------------------------

/-
  Where a pass is behind all the blanks
  at the head of a text.
-/
def spotBehind
    (spot : Spot)
    (cs : List Char) : Spot :=
  if cs.takeWhile Lexeme.isBlank = [] then spot
  else spot.afterBlank

/- Blanks at the head of a text only change the spot. -/
theorem squeeze_dropWhile
    (spot : Spot)
    (cs : List Char) :
    squeeze spot cs =
      squeeze (spotBehind spot cs)
        (cs.dropWhile Lexeme.isBlank) := by
  induction cs generalizing spot with
  | nil =>
      rfl
  | cons c cs ih =>
      by_cases hBlank : Lexeme.isBlank c = true
      · have hSpot :
            spotBehind spot.afterBlank cs =
              spotBehind spot (c :: cs) := by
          unfold spotBehind
          rw [List.takeWhile_cons_of_pos hBlank,
            if_neg (List.cons_ne_nil _ _)]
          split
          · rfl
          · cases spot <;> rfl
        rw [squeeze_blank _ _ hBlank, ih, hSpot,
          List.dropWhile_cons_of_pos hBlank]
      · rw [spotBehind, List.takeWhile_cons_of_neg hBlank,
          if_pos rfl, List.dropWhile_cons_of_neg hBlank]

/-
  A tidy text starts with at most one space,
  which stands for blanks.
-/
theorem squeeze_of_not_blank
    (spot : Spot)
    {c : Char}
    (cs : List Char)
    (hBlank : Lexeme.isBlank c = false) :
    (squeeze spot (c :: cs)).takeWhile Lexeme.isBlank =
        (if c = '\n' then [] else spot.space) ∧
      (squeeze spot (c :: cs)).dropWhile Lexeme.isBlank =
        c :: squeeze (Spot.after c) cs := by
  by_cases hNewline : c = '\n'
  · subst hNewline
    exact ⟨rfl, rfl⟩
  · have hSpace : Lexeme.isBlank ' ' = true := rfl
    rw [squeeze_word _ _ hNewline hBlank, if_neg hNewline,
      Spot.after, if_neg hNewline]
    cases spot <;> simp [Spot.space, hBlank, hSpace]

------------------------------------------------------------
-- Lexemes of tidy texts
------------------------------------------------------------

/- A set of characters that has no white space in it. -/
def Solid
    (φ : Char → Bool) : Prop :=
  φ '\n' = false ∧ ∀ c, Lexeme.isBlank c = true → φ c = false

/-
  Behind a blank, a tidy text does not go on
  with a solid character.
-/
theorem takeWhile_squeeze_gap
    {φ : Char → Bool}
    (hSolid : Solid φ)
    (cs : List Char) :
    (squeeze .gap cs).takeWhile φ = [] ∧
      (squeeze .gap cs).dropWhile φ = squeeze .gap cs := by
  have hSpace : φ ' ' = false := hSolid.2 ' ' rfl
  induction cs with
  | nil =>
      exact ⟨rfl, rfl⟩
  | cons c cs ih =>
      rcases char_cases c with rfl | hBlank | ⟨hNewline, hBlank⟩
      · simp [squeeze_newline, hSolid.1]
      · rw [squeeze_blank _ _ hBlank]
        exact ih
      · rw [squeeze_word _ _ hNewline hBlank]
        simp [Spot.space, hSpace]

/-
  Solid characters are taken from a tidy text
  as from the text itself.
-/
theorem takeWhile_squeeze_word
    {φ : Char → Bool}
    (hSolid : Solid φ)
    (cs : List Char) :
    (squeeze .word cs).takeWhile φ = cs.takeWhile φ ∧
      (squeeze .word cs).dropWhile φ =
        squeeze .word (cs.dropWhile φ) := by
  induction cs with
  | nil =>
      exact ⟨rfl, rfl⟩
  | cons c cs ih =>
      rcases char_cases c with rfl | hBlank | ⟨hNewline, hBlank⟩
      · simp [squeeze_newline, hSolid.1]
      · have hOut : ¬ φ c = true := by
          simp [hSolid.2 c hBlank]
        rw [squeeze_blank _ _ hBlank,
          List.takeWhile_cons_of_neg hOut,
          List.dropWhile_cons_of_neg hOut,
          squeeze_blank _ _ hBlank]
        exact takeWhile_squeeze_gap hSolid cs
      · rw [squeeze_in_word _ hNewline hBlank]
        by_cases hIn : φ c = true
        · rw [List.takeWhile_cons_of_pos hIn,
            List.takeWhile_cons_of_pos hIn,
            List.dropWhile_cons_of_pos hIn,
            List.dropWhile_cons_of_pos hIn, ih.1]
          exact ⟨rfl, ih.2⟩
        · rw [List.takeWhile_cons_of_neg hIn,
            List.takeWhile_cons_of_neg hIn,
            List.dropWhile_cons_of_neg hIn,
            List.dropWhile_cons_of_neg hIn,
            squeeze_in_word _ hNewline hBlank]
          exact ⟨rfl, rfl⟩

/- Neither blanks nor line ends are digits. -/
theorem solid_isAscii :
    Solid DecimalDigit.isAscii := by
  refine ⟨rfl, ?_⟩
  intro c hBlank
  simp only [Lexeme.isBlank, Bool.or_eq_true,
    decide_eq_true_eq] at hBlank
  rcases hBlank with (rfl | rfl) | rfl <;> rfl

theorem solid_isNameChar :
    Solid Lexeme.isNameChar := by
  refine ⟨rfl, ?_⟩
  intro c hBlank
  simp [Lexeme.isNameChar, hBlank]

theorem solid_eq
    {c : Char}
    (hNewline : c ≠ '\n')
    (hBlank : Lexeme.isBlank c = false) :
    Solid (· == c) := by
  refine ⟨by simpa using Ne.symm hNewline, ?_⟩
  intro d hBlank'
  apply beq_eq_false_iff_ne.mpr
  rintro rfl
  simp [hBlank] at hBlank'

/- A token of a tidy text is a token of the text. -/
theorem take_squeeze
    {c : Char}
    (cs : List Char)
    (hBlank : Lexeme.isBlank c = false) :
    Lexeme.take c (squeeze (Spot.after c) cs) =
      ((Lexeme.take c cs).1, (Lexeme.take c cs).2.1,
        squeeze (Spot.after c) (Lexeme.take c cs).2.2) := by
  by_cases hNewline : c = '\n'
  · subst hNewline
    rfl
  · simp only [Spot.after, if_neg hNewline, Lexeme.take]
    by_cases hDoubling : Lexeme.isDoubling c = true
    · have hSame :=
        takeWhile_squeeze_word (solid_eq hNewline hBlank) cs
      simp only [if_pos hDoubling]
      cases cs with
      | nil =>
          rfl
      | cons d cs =>
          by_cases hDouble : d = c
          · subst hDouble
            rw [squeeze_in_word _ hNewline hBlank]
            simp
          · have hOther :
                (squeeze .word (d :: cs)).takeWhile
                    (· == c) =
                  [] := by
              rw [hSame.1,
                List.takeWhile_cons_of_neg
                  (by simpa using hDouble)]
            simp only [if_neg hDouble]
            generalize squeeze .word (d :: cs) =
              rest at hOther ⊢
            cases rest with
            | nil =>
                rfl
            | cons e rest =>
                have hNext : e ≠ c := by
                  rintro rfl
                  simp at hOther
                simp only [if_neg hNext]
    · simp only [if_neg hDoubling]
      cases Lexeme.symbolKind? c with
      | some kind =>
          rfl
      | none =>
          have hDigits :=
            takeWhile_squeeze_word solid_isAscii cs
          have hNames :=
            takeWhile_squeeze_word solid_isNameChar cs
          simp only [hDigits.1, hDigits.2, hNames.1, hNames.2]
          split <;> rfl

end Spacing

end LyricScore
