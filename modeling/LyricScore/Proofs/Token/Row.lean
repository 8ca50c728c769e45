import LyricScore.Proofs.Manuscript.Alike.Manuscript
import LyricScore.Proofs.Token.Alike
import LyricScore.Proofs.Token.Append
import LyricScore.Proofs.Token.Written

/-
  This file cuts a text into rows: its lines, without what
  ends them.  The tokens of a text are those of its rows, each
  on the line of its row, with the line ends in between.  A
  row and its tidy row have the same words with the same gaps,
  and the tidy row is what a title makes of them.

  Key definitions include:
    * `rowTokens`
    * `Rows`
    * `wordsOn`
    * `Token.SameWords`

  Key theorems include:
    * `Unread.tokens_row`
    * `Unread.tokens_rows`
    * `Rows.wordsOn_eq`
    * `titleText_rowTokens`
    * `sameWords_tidyLine`
-/

namespace LyricScore

open Spacing

------------------------------------------------------------
-- Rows
------------------------------------------------------------

/-
  The tokens of a row that is the line `n` of a text,
  without the closing one.
-/
def rowTokens
    (n : Nat)
    (row : List Char) : List Token :=
  (Unread.tokens ⟨n, 1, row⟩).dropLast

/- On a later line, the tokens of a row are the same. -/
theorem rowTokens_add
    (n m : Nat)
    (row : List Char) :
    rowTokens (n + m) row =
      (rowTokens n row).map (Token.lower m) := by
  rw [rowTokens, rowTokens, List.map_dropLast]
  exact congrArg List.dropLast
    (Unread.tokens_lower m ⟨n, 1, row⟩)

/-
  A token of a row: it stands on the line `n`, and ends
  neither line nor text.
-/
def Token.StandsIn
    (n : Nat)
    (t : Token) : Prop :=
  t.line = n ∧ t.kind ≠ .newline ∧ t.kind ≠ .endOfText

instance
    (n : Nat)
    (t : Token) :
    Decidable (t.StandsIn n) := by
  unfold Token.StandsIn
  infer_instance

namespace Unread

/-
  A step within a line takes a word, and
  leaves the rest of the line.
-/
theorem step?_line
    {u v : Unread}
    {t : Token}
    (hLine : '\n' ∉ u.text)
    (hStep : u.step? = some (t, v)) :
    ∃ c rest,
      u.skipBlanks.text = c :: rest ∧
        c ≠ '\n' ∧
        t = tokenAt u.line u.skipBlanks.column c rest ∧
        v = behind u.line u.skipBlanks.column c rest ∧
        v.line = u.line ∧
        v.column = t.endColumn ∧
        v.text = (Lexeme.take c rest).2.2 ∧
        '\n' ∉ v.text := by
  cases hText : u.skipBlanks.text with
  | nil =>
      cases hStep.symm.trans (step?_eq_none hText)
  | cons c rest =>
      cases hStep.symm.trans (step?_eq hText)
      have hDropped :
          u.text.dropWhile Lexeme.isBlank = c :: rest :=
        hText
      have hRow : '\n' ∉ c :: rest := by
        rw [← hDropped]
        exact mt (List.dropWhile_sublist _).mem hLine
      rw [List.mem_cons, not_or] at hRow
      have hNewline : c ≠ '\n' := Ne.symm hRow.1
      have hAfter : '\n' ∉ (Lexeme.take c rest).2.2 := by
        intro hMember
        refine hRow.2 ?_
        rw [← Lexeme.take_append c rest]
        exact List.mem_append_right _ hMember
      refine ⟨c, rest, rfl, hNewline, rfl, rfl, ?_⟩
      rw [behind, if_neg hNewline]
      exact ⟨rfl, rfl, rfl, hAfter⟩

/-
  Where a step takes a word, a longer
  text has the same step.
-/
theorem step?_append_newline
    {u v : Unread}
    {t : Token}
    (hLine : '\n' ∉ u.text)
    (hStep : u.step? = some (t, v))
    (ys : List Char) :
    step? ⟨u.line, u.column, u.text ++ '\n' :: ys⟩ =
      some (t, ⟨v.line, v.column, v.text ++ '\n' :: ys⟩) := by
  rcases step?_line hLine hStep with
    ⟨c, rest, hText, -, rfl, rfl, -⟩
  have hDropped :
      u.text.dropWhile Lexeme.isBlank = c :: rest :=
    hText
  have hColumn :
      u.column + (u.text.takeWhile Lexeme.isBlank).length =
        u.skipBlanks.column :=
    rfl
  have hSkip :=
    skipBlanks_append_newline u.line u.column u.text ys
  rw [hDropped, List.cons_append] at hSkip
  rw [step?_eq (congrArg text hSkip), hSkip, hColumn,
    tokenAt_append_newline, behind_append_newline]

/-
  What is unread of a line: its tokens are closed by one that
  ends the text, or else by one that ends the line, and the
  tokens of what follows stand behind that.
-/
theorem tokens_line
    (u : Unread)
    (hLine : '\n' ∉ u.text) :
    ∃ ts fin ends,
      u.tokens = ts ++ [fin] ∧ fin.kind = .endOfText ∧
        (∀ t ∈ ts, t.StandsIn u.line) ∧
        ends.kind = .newline ∧
        ∀ behind,
          tokens ⟨u.line, u.column, u.text ++ '\n' :: behind⟩ =
            ts ++ ends :: tokens ⟨u.line + 1, 1, behind⟩ := by
  induction u using Unread.tokens.induct with
  | case1 u t v hStep ih =>
      rcases step?_line hLine hStep with
        ⟨c, rest, -, hNewline, hToken, -, hSame, -, -, hRest⟩
      rcases ih hRest with
        ⟨ts, fin, ends, hTokens, hFin, hPlain, hEnds, hMore⟩
      rw [hSame] at hPlain hMore
      refine ⟨t :: ts, fin, ends, ?_, hFin, ?_, hEnds, ?_⟩
      · rw [tokens_of_step? hStep, hTokens]
        rfl
      · rw [List.forall_mem_cons]
        have hKind := Lexeme.take_kind c rest
        rw [hToken]
        exact ⟨⟨rfl, mt hKind.1.mp hNewline, hKind.2⟩, hPlain⟩
      · intro ys
        rw [tokens_of_step?
            (step?_append_newline hLine hStep ys), hSame,
          hMore]
        rfl
  | case2 u hStep =>
      cases hText : u.skipBlanks.text with
      | cons c rest =>
          cases hStep.symm.trans (step?_eq hText)
      | nil =>
          refine ⟨[], u.endToken,
            tokenAt u.line u.skipBlanks.column '\n' [],
            tokens_of_step?_eq_none hStep, rfl,
            List.forall_mem_nil _, rfl, ?_⟩
          intro ys
          have hDropped :
              u.text.dropWhile Lexeme.isBlank = [] :=
            hText
          have hSkip :=
            skipBlanks_append_newline u.line u.column
              u.text ys
          rw [hDropped, List.nil_append] at hSkip
          rw [tokens_of_step?
              (step?_eq (congrArg text hSkip)), hSkip]
          rfl

/-
  The tokens of a row, and of a row with
  more rows behind it.
-/
theorem tokens_row
    (n : Nat)
    {row : List Char}
    (hRow : '\n' ∉ row) :
    (∀ t ∈ rowTokens n row, t.StandsIn n) ∧
      (∃ fin,
        tokens ⟨n, 1, row⟩ = rowTokens n row ++ [fin] ∧
          fin.kind = .endOfText) ∧
      ∃ ends,
        ends.kind = .newline ∧
          ∀ behind,
            tokens ⟨n, 1, row ++ '\n' :: behind⟩ =
              rowTokens n row ++
                ends :: tokens ⟨n + 1, 1, behind⟩ := by
  rcases tokens_line ⟨n, 1, row⟩ hRow with
    ⟨ts, fin, ends, hTokens, hFin, hPlain, hEnds, hMore⟩
  have hWords : rowTokens n row = ts := by
    rw [rowTokens, hTokens, List.dropLast_concat]
  rw [hWords]
  exact ⟨hPlain, ⟨fin, hTokens, hFin⟩, ends, hEnds, hMore⟩

end Unread

/- No token of a row ends the line. -/
theorem plain_rowTokens
    (n : Nat)
    {row : List Char}
    (hRow : '\n' ∉ row) :
    ∀ t ∈ rowTokens n row, t.kind ≠ .newline := by
  intro t ht
  exact ((Unread.tokens_row n hRow).1 t ht).2.1

/-
  Tokens are those of rows from the line `n` on, with line
  ends in between.
-/
inductive Rows :
  Nat → List (List Char) → List Token → Prop where
  | last {n : Nat} {row : List Char} :
      Rows n [row] (rowTokens n row)
  | cons {n : Nat} {row : List Char}
      {rows : List (List Char)} {ends : Token}
      {ts : List Token}
      (hEnds : ends.kind = .newline)
      (hRest : Rows (n + 1) rows ts) :
      Rows n (row :: rows) (rowTokens n row ++ ends :: ts)

/- The tokens of joined rows are those of the rows. -/
theorem Unread.tokens_rows
    {rows : List (List Char)}
    (n : Nat)
    (hRows : rows ≠ [])
    (hPlain : ∀ row ∈ rows, '\n' ∉ row) :
    ∃ ts fin,
      tokens ⟨n, 1, List.intercalate ['\n'] rows⟩ =
          ts ++ [fin] ∧
        fin.kind = .endOfText ∧
        Rows n rows ts := by
  induction rows generalizing n with
  | nil =>
      exact absurd rfl hRows
  | cons row rows ih =>
      rw [List.forall_mem_cons] at hPlain
      rcases tokens_row n hPlain.1 with
        ⟨-, ⟨fin, hTokens, hFin⟩, ends, hEnds, hMore⟩
      cases rows with
      | nil =>
          rw [List.intercalate_singleton]
          exact ⟨_, fin, hTokens, hFin, .last⟩
      | cons next rows =>
          rcases ih (n + 1) (List.cons_ne_nil _ _)
              hPlain.2 with
            ⟨ts, fin, hTokens, hFin, hRest⟩
          refine ⟨_, fin, ?_, hFin, .cons hEnds hRest⟩
          rw [List.intercalate_cons_cons, List.append_assoc,
            List.singleton_append, hMore, hTokens,
            List.append_assoc]
          rfl

/- The tokens of a text are those of its rows. -/
theorem tokenize_rows
    (text : String) :
    ∃ ts fin,
      tokenize text = ts ++ [fin] ∧
        fin.kind = .endOfText ∧
        Rows 1 (rowsOf text) ts := by
  have hText :
      Unread.ofText text =
        ⟨1, 1, List.intercalate ['\n'] (rowsOf text)⟩ := by
    rw [rowsOf, intercalate_partsBetween]
    rfl
  rw [tokenize, hText]
  exact Unread.tokens_rows 1 (partsBetween_ne_nil _ _)
    fun row hRow =>
      not_mem_of_mem_partsBetween hRow

------------------------------------------------------------
-- Words on a line
------------------------------------------------------------

/-
  The tokens that stand on the line `n`, without what ends
  the line or the text.
-/
def wordsOn
    (n : Nat)
    (ts : List Token) : List Token :=
  ts.filter fun t => t.StandsIn n

/- On a line are the tokens of its row. -/
theorem wordsOn_rowTokens
    (n m : Nat)
    {row : List Char}
    (hRow : '\n' ∉ row) :
    wordsOn m (rowTokens n row) =
      if m = n then rowTokens n row else [] := by
  have hStand := (Unread.tokens_row n hRow).1
  by_cases hSame : m = n
  · subst hSame
    rw [if_pos rfl, wordsOn, List.filter_eq_self]
    intro t ht
    exact decide_eq_true (hStand t ht)
  · rw [if_neg hSame, wordsOn, List.filter_eq_nil_iff]
    intro t ht hOn
    have hLine :=
      (of_decide_eq_true hOn).1.symm.trans (hStand t ht).1
    exact hSame (Int.ofNat.inj hLine)

theorem wordsOn_append
    (n : Nat)
    (ts us : List Token) :
    wordsOn n (ts ++ us) = wordsOn n ts ++ wordsOn n us :=
  List.filter_append ..

/- What ends a line or the text is no word. -/
theorem wordsOn_cons_of_end
    {t : Token}
    (n : Nat)
    (ts : List Token)
    (hEnd : t.kind = .newline ∨ t.kind = .endOfText) :
    wordsOn n (t :: ts) = wordsOn n ts := by
  apply List.filter_cons_of_neg
  intro hOn
  have hPlain := (of_decide_eq_true hOn).2
  rcases hEnd with hKind | hKind
  · exact hPlain.1 hKind
  · exact hPlain.2 hKind

/-
  On each line there are the tokens of its row, if there is
  such a row, and on the lines before there is nothing.
-/
theorem Rows.wordsOn_eq
    {n : Nat}
    {rows : List (List Char)}
    {ts : List Token}
    (hRows : Rows n rows ts)
    (hPlain : ∀ row ∈ rows, '\n' ∉ row) :
    (∀ m < n, wordsOn m ts = []) ∧
      ∀ i,
        wordsOn (n + i) ts =
          (rows[i]?.map (rowTokens (n + i))).getD [] := by
  induction hRows with
  | @last n row =>
      have hWords :=
        fun m =>
          wordsOn_rowTokens n m
            (hPlain row (List.mem_singleton_self row))
      constructor
      · intro m hm
        rw [hWords, if_neg (Nat.ne_of_lt hm)]
      · intro i
        rw [hWords]
        cases i with
        | zero =>
            exact if_pos rfl
        | succ i =>
            exact if_neg (by omega)
  | @cons n row rows ends ts hEnds hRest ih =>
      rw [List.forall_mem_cons] at hPlain
      have hWords :
          ∀ m,
            wordsOn m (rowTokens n row ++ ends :: ts) =
              (if m = n then rowTokens n row else []) ++
                wordsOn m ts := by
        intro m
        rw [wordsOn_append, wordsOn_rowTokens n m hPlain.1,
          wordsOn_cons_of_end m ts (.inl hEnds)]
      rcases ih hPlain.2 with ⟨hBefore, hIn⟩
      constructor
      · intro m hm
        rw [hWords, if_neg (Nat.ne_of_lt hm),
          hBefore m (Nat.lt_succ_of_lt hm)]
        rfl
      · intro i
        rw [hWords]
        cases i with
        | zero =>
            rw [Nat.add_zero, if_pos rfl,
              hBefore n (Nat.lt_succ_self n),
              List.append_nil]
            rfl
        | succ i =>
            have hNext : n + (i + 1) = n + 1 + i := by
              omega
            rw [if_neg (by omega), List.nil_append,
              List.getElem?_cons_succ, hNext]
            exact hIn i

/- On each line of a text there are the tokens of its row. -/
theorem wordsOn_tokenize
    (text : String) :
    wordsOn 0 (tokenize text) = [] ∧
      ∀ i,
        wordsOn (1 + i) (tokenize text) =
          ((rowsOf text)[i]?.map (rowTokens (1 + i))).getD
            [] := by
  rcases tokenize_rows text with ⟨ts, fin, hTokens, hFin, hRows⟩
  rcases hRows.wordsOn_eq fun row hRow =>
      not_mem_of_mem_partsBetween hRow with
    ⟨hBefore, hIn⟩
  have hWords :
      ∀ m, wordsOn m (tokenize text) = wordsOn m ts := by
    intro m
    rw [hTokens, wordsOn_append,
      wordsOn_cons_of_end m [] (.inr hFin)]
    exact List.append_nil _
  constructor
  · rw [hWords, hBefore 0 Nat.zero_lt_one]
  · intro i
    rw [hWords, hIn]

------------------------------------------------------------
-- Same words
------------------------------------------------------------

/-
  For each token behind another one, whether no white space
  stands between them.
-/
def adjacency
    (ts : List Token) : List Bool :=
  List.zipWith (fun t u => decide (u.AdjacentTo t)) ts ts.tail

/-
  Tokens of the same kinds and with the same texts, with
  white space at the same places.
-/
structure Token.SameWords
    (ts us : List Token) : Prop where
  kinds : ts.map Token.kind = us.map Token.kind
  texts : ts.map Token.text = us.map Token.text
  adjacency : adjacency ts = adjacency us

namespace Token.SameWords

variable {ts us vs : List Token}

theorem symm
    (hSame : SameWords ts us) :
    SameWords us ts :=
  ⟨hSame.kinds.symm, hSame.texts.symm, hSame.adjacency.symm⟩

theorem trans
    (hFirst : SameWords ts us)
    (hSecond : SameWords us vs) :
    SameWords ts vs :=
  ⟨hFirst.kinds.trans hSecond.kinds,
    hFirst.texts.trans hSecond.texts,
    hFirst.adjacency.trans hSecond.adjacency⟩

theorem eq_nil_iff
    (hSame : SameWords ts us) :
    ts = [] ↔ us = [] := by
  have hKinds := hSame.kinds
  constructor
  · rintro rfl
    exact List.map_eq_nil_iff.mp hKinds.symm
  · rintro rfl
    exact List.map_eq_nil_iff.mp hKinds

end Token.SameWords

/- Tokens of a line that are alike are the same words. -/
theorem SpacedAlike.sameWords
    {f g : Location → Location}
    {p q : Option Token}
    {ts us : List Token}
    (hTokens : SpacedAlike f g p q ts us)
    (hLine : ∀ t ∈ ts, t.kind ≠ .newline) :
    Token.SameWords ts us := by
  induction hTokens with
  | nil =>
      exact ⟨rfl, rfl, rfl⟩
  | @cons p q t u ts us hHead _ hTail ih =>
      rw [List.forall_mem_cons] at hLine
      have hRest := ih hLine.2
      refine ⟨congrArg₂ List.cons hHead.kind hRest.kinds,
        congrArg₂ List.cons hHead.text hRest.texts, ?_⟩
      cases hTail with
      | nil =>
          rfl
      | @cons _ _ v w ts us hHead' hSpace _ =>
          have hKind : v.kind ≠ .newline :=
            hLine.2 v List.mem_cons_self
          rw [Token.spacedFrom_some_iff hKind hLine.1,
            Token.spacedFrom_some_iff (hHead'.kind ▸ hKind)
              (hHead.kind ▸ hLine.1), not_iff_not] at hSpace
          exact congrArg₂ List.cons
            (decide_eq_decide.mpr hSpace) hRest.adjacency

------------------------------------------------------------
-- Tidy rows
------------------------------------------------------------

/-
  What a pass makes of the unread part of a line: a gap, a
  token, and what is behind it.
-/
theorem Spacing.squeeze_of_skipBlanks
    (spot : Spot)
    {u : Unread}
    {c : Char}
    {rest : List Char}
    (hText : u.skipBlanks.text = c :: rest)
    (hNewline : c ≠ '\n') :
    squeeze spot u.text =
      (spotBehind spot u.text).space ++
        (c :: (Lexeme.take c rest).2.1 ++
          squeeze .word (Lexeme.take c rest).2.2) := by
  have hBlank := Unread.blank_of_skipBlanks hText
  have hDropped :
      u.text.dropWhile Lexeme.isBlank = c :: rest :=
    hText
  have hWord : Spot.after c = .word := if_neg hNewline
  have hTake := take_squeeze rest hBlank
  have hParts :=
    Lexeme.take_append c (squeeze (Spot.after c) rest)
  rw [hTake, hWord] at hParts
  rw [squeeze_dropWhile, hDropped,
    squeeze_word _ _ hNewline hBlank, ← hParts]
  rfl

/- Every text has a token that closes it. -/
theorem Unread.tokens_ne_nil
    (u : Unread) :
    u.tokens ≠ [] := by
  rcases u.tokens_eq_append with ⟨body, fin, hTokens, -⟩
  rw [hTokens]
  exact List.concat_ne_nil _ _

/-
  The words of what is unread of a line, as a title shows them
  behind a word `p`, are the tidy text of it.  The induction
  is on what is left to read.
-/
theorem titleText_behind
    {u : Unread}
    {p : Token}
    (hLine : '\n' ∉ u.text)
    (hEnd : p.endColumn = u.column) :
    (titleText (p :: u.tokens.dropLast)).toList =
      p.text.toList ++ squeeze .word u.text := by
  induction u using Unread.tokens.induct generalizing p with
  | case1 u t v hStep ih =>
      rcases Unread.step?_line hLine hStep with
        ⟨c, rest, hText, hNewline, hToken, -, -, hColumn,
          hAfter, hRest⟩
      have hRest := ih hRest hColumn.symm
      have hAdjacent :
          t.AdjacentTo p ↔
            u.text.takeWhile Lexeme.isBlank = [] := by
        rw [← List.length_eq_zero_iff, Token.AdjacentTo,
          hEnd, hToken]
        simp only [Unread.tokenAt, Unread.skipBlanks]
        omega
      have hSpace :
          (if t.AdjacentTo p then "" else " ").toList =
            (spotBehind .word u.text).space := by
        simp only [hAdjacent, spotBehind]
        split <;> rfl
      have hWord :
          t.text.toList =
            c :: (Lexeme.take c rest).2.1 := by
        rw [hToken]
        exact String.toList_ofList
      rw [Unread.tokens_of_step? hStep,
        List.dropLast_cons_of_ne_nil v.tokens_ne_nil,
        titleText, String.toList_append,
        String.toList_append, hRest, hSpace, hWord,
        squeeze_of_skipBlanks .word hText hNewline, hAfter,
        List.append_assoc]
  | case2 u hStep =>
      cases hText : u.skipBlanks.text with
      | cons c rest =>
          cases hStep.symm.trans (Unread.step?_eq hText)
      | nil =>
          have hDropped :
              u.text.dropWhile Lexeme.isBlank = [] :=
            hText
          rw [Unread.tokens_of_step?_eq_none hStep,
            squeeze_dropWhile, hDropped]
          exact (List.append_nil _).symm

/- A pass makes no line ends. -/
theorem newline_not_mem_squeeze
    (spot : Spot)
    {cs : List Char}
    (hPlain : '\n' ∉ cs) :
    '\n' ∉ squeeze spot cs := by
  induction cs generalizing spot with
  | nil =>
      exact List.not_mem_nil
  | cons c cs ih =>
      rw [List.mem_cons, not_or] at hPlain
      rcases char_cases c with rfl | hBlank | ⟨hNewline, hBlank⟩
      · exact absurd rfl hPlain.1
      · rw [squeeze_blank _ _ hBlank]
        exact ih _ hPlain.2
      · rw [squeeze_word _ _ hNewline hBlank]
        cases spot <;>
          simp [Spot.space, hPlain.1, ih _ hPlain.2]

/- Tidy rows have no line ends of any sort. -/
theorem tidyLine_plain
    {row : List Char}
    (hRow : '\n' ∉ row) :
    '\n' ∉ tidyLine row ∧ '\r' ∉ tidyLine row := by
  rw [← (squeeze_line hRow).1]
  exact ⟨newline_not_mem_squeeze _ hRow,
    return_not_mem_squeeze _ _⟩

/-
  What a title shows of the words of a row is the tidy row, as
  blanks at the start of a line leave no space.
-/
theorem titleText_rowTokens
    (n : Nat)
    {row : List Char}
    (hRow : '\n' ∉ row) :
    titleText (rowTokens n row) =
      String.ofList (tidyLine row) := by
  rw [← String.toList_inj, String.toList_ofList,
    ← (squeeze_line hRow).1, rowTokens]
  cases hStep : Unread.step? ⟨n, 1, row⟩ with
  | none =>
      cases hText : (Unread.mk n 1 row).skipBlanks.text with
      | cons c rest =>
          cases hStep.symm.trans (Unread.step?_eq hText)
      | nil =>
          have hDropped :
              row.dropWhile Lexeme.isBlank = [] :=
            hText
          rw [Unread.tokens_of_step?_eq_none hStep,
            squeeze_dropWhile, hDropped]
          rfl
  | some found =>
      rcases found with ⟨t, v⟩
      rcases Unread.step?_line hRow hStep with
        ⟨c, rest, hText, hNewline, hToken, -, -, hColumn,
          hAfter, hRest⟩
      have hWord :
          t.text.toList =
            c :: (Lexeme.take c rest).2.1 := by
        rw [hToken]
        exact String.toList_ofList
      have hSqueezed : squeeze .lineStart row = _ :=
        squeeze_of_skipBlanks .lineStart hText hNewline
      have hSpace : (spotBehind .lineStart row).space = [] := by
        unfold spotBehind
        split <;> rfl
      rw [Unread.tokens_of_step? hStep,
        List.dropLast_cons_of_ne_nil v.tokens_ne_nil,
        titleText_behind hRest hColumn.symm, hWord, hAfter,
        hSqueezed, hSpace, List.nil_append]

/-
  A row and its tidy row have the same words, with white
  space at the same places.
-/
theorem rowTokens_tidyLine_alike
    (n : Nat)
    {row : List Char}
    (hRow : '\n' ∉ row) :
    SpacedAlike Location.eraseColumn Location.eraseColumn
      none none (rowTokens n row)
      (rowTokens n (tidyLine row)) := by
  have hStart :
      Abreast .lineStart ⟨n, 1, row⟩ ⟨n, 1, tidyLine row⟩
        none none := by
    refine ⟨rfl, (squeeze_line hRow).1.symm, ?_, ?_⟩
    · rintro t ⟨⟩
    · rintro t ⟨⟩
  rcases hStart.tokens with
    ⟨ts, us, fin, fin', hTokens, hTokens', -, -, -, hAlike⟩
  rw [rowTokens, rowTokens, hTokens, hTokens',
    List.dropLast_concat, List.dropLast_concat]
  exact hAlike

/- On a later line, the tokens of a row are the same words. -/
theorem sameWords_rowTokens_add
    (n m : Nat)
    {row : List Char}
    (hRow : '\n' ∉ row) :
    Token.SameWords (rowTokens n row)
      (rowTokens (n + m) row) := by
  have hAlike :
      SpacedAlike (Location.down m) id none none
        (rowTokens n row) _ :=
    spacedAlike_lower m none fun t _ => rfl
  rw [rowTokens_add]
  exact hAlike.sameWords (plain_rowTokens n hRow)

/-
  The tidy row on the first line, and the row on its own
  line, have the same words.
-/
theorem sameWords_tidyLine
    (n m : Nat)
    {row : List Char}
    (hRow : '\n' ∉ row) :
    Token.SameWords (rowTokens n (tidyLine row))
      (rowTokens (n + m) row) := by
  have hTidy :=
    (rowTokens_tidyLine_alike n hRow).sameWords
      (plain_rowTokens n hRow)
  exact hTidy.symm.trans (sameWords_rowTokens_add n m hRow)

end LyricScore
