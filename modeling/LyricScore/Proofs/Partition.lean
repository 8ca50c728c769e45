import LyricScore.Proofs.Token.Written
import Mathlib.Data.List.Chain

/-
  This file states that tokens partition the lines of a text:
  they stand on it one behind the other, with the characters
  that they cover, and only blanks are left over.  Runs of
  letters, of digits and of signs are cut in one way only.

  Key definitions include:
    * `Token.Spans`
    * `Token.Before`
    * `Token.signPairs`
    * `between`
    * `Partition`

  Key theorems include:
    * `Written.partition`
    * `tokenize_partition`
-/

namespace LyricScore

------------------------------------------------------------
-- Places
------------------------------------------------------------

namespace Token

/-
  A token stands on the line of index `n`, from index `a` up
  to index `b`.
-/
def Spans
    (t : Token)
    (n a b : Nat) : Prop :=
  t.line = n + 1 ∧ t.column = a + 1 ∧ t.endColumn = b + 1

/- A token ends before another one starts. -/
def Before
    (t u : Token) : Prop :=
  t.line < u.line ∨
    t.line = u.line ∧
      t.column < t.endColumn ∧
      t.endColumn ≤ u.column

/-
  The accidentals of a run of `k` equal signs, paired from
  the left; a sign that is left over stands alone.
-/
def signPairs
    (n : Nat)
    (c : Char) : Nat → Nat → List Token
  | _, 0 => []
  | a, 1 => [.at .accidental n a [c]]
  | a, k + 2 =>
      .at .accidental n a [c, c] :: signPairs n c (a + 2) k

end Token

/-
  The characters of a line behind one
  token and before another.
-/
def between
    (row : List Char)
    (t u : Token) : List Char :=
  (row.drop (t.endColumn - 1).toNat).take
    (u.column - t.endColumn).toNat

/- What it means that tokens partition the lines of a text. -/
structure Partition
    (lines : List (List Char))
    (ts : List Token) : Prop where
  /- The tokens stand one behind the other. -/
  ordered : ts.Pairwise Token.Before
  /-
    A token has the characters of the columns that it spans.
  -/
  words :
    ∀ t ∈ ts,
      t.kind ≠ .newline →
        ∃ n a b row,
          t.Spans n a b ∧
            lines[n]? = some row ∧
            a ≤ b ∧
            b ≤ row.length ∧
            t.text.toList = (row.drop a).take (b - a)
  /-
    A token that ends a line stands behind
    its last character.
  -/
  lineEnds : ∀ t ∈ ts, t.kind = .newline →
    ∃ n row, lines[n]? = some row ∧ n + 1 < lines.length ∧
      t.Spans n row.length (row.length + 1) ∧ t.text = "\n"
  /- Characters that no token covers are blank. -/
  covered :
    ∀ n row i c,
      lines[n]? = some row →
        row[i]? = some c →
        Lexeme.isBlank c = true ∨
          ∃ t ∈ ts, ∃ a b, t.Spans n a b ∧ a ≤ i ∧ i < b
  /- Every line end but the last is a token. -/
  ended :
    ∀ n row,
      lines[n]? = some row →
        n + 1 < lines.length →
        ∃ t ∈ ts,
          t.kind = .newline ∧
            t.Spans n row.length (row.length + 1)
  /- One token closes the text, behind its last character. -/
  closed :
    ∃ body fin row,
      ts = body ++ [fin] ∧
        fin.kind = .endOfText ∧
        (∀ t ∈ body, t.kind ≠ .endOfText) ∧
        lines[lines.length - 1]? = some row ∧
        fin.Spans (lines.length - 1) row.length row.length ∧
        fin.text = ""
  /-
    Identifiers and numbers are all that
    stands there of their class.
  -/
  maximal :
    ∀ t ∈ ts,
      ∀ φ,
        Lexeme.runClass? t.kind = some φ →
          (∀ c ∈ t.text.toList, φ c = true) ∧
            ∀ n a b row,
              t.Spans n a b →
                lines[n]? = some row →
                a < b ∧
                  (∀ c ∈ (row.take a).getLast?,
                    φ c = false) ∧
                  ∀ c ∈ row[b]?, φ c = false
  /- So two of a kind do not touch. -/
  apart :
    ∀ t ∈ ts,
      ∀ u ∈ ts,
        t.kind = u.kind →
          (Lexeme.runClass? t.kind).isSome = true →
          t.line = u.line →
          t.endColumn ≠ u.column
  /- Runs of equal signs are paired from the left. -/
  paired :
    ∀ n row a k c more,
      lines[n]? = some row →
        Lexeme.isDoubling c = true →
        row.drop a = List.replicate k c ++ more →
        c ∉ more.head? →
        c ∉ (row.take a).getLast? →
        Token.signPairs n c a k <:+: ts
  /-
    Neighbours are the tokens of a line that
    no blank keeps apart.
  -/
  neighbours :
    ts.IsChain fun t u =>
      t.line = u.line →
        ∀ (n : Nat) row,
          t.line = (n : Int) + 1 →
            lines[n]? = some row →
            (u.AdjacentTo t ↔
              ∀ c ∈ between row t u,
                Lexeme.isBlank c = false)

------------------------------------------------------------
-- Cuts
------------------------------------------------------------

/- No run of a class goes on over a place of a line. -/
def IsCut
    (row : List Char)
    (a : Nat) : Prop :=
  ∀ kind φ,
    Lexeme.runClass? kind = some φ →
      ∀ c ∈ (row.take a).getLast?,
        φ c = true → ∀ d ∈ (row.drop a).head?, φ d = false

theorem isCut_zero
    (row : List Char) :
    IsCut row 0 := by
  intro kind φ hClass c hLast
  cases hLast

/-
  What stands before a place further on, if
  anything stands in between.
-/
theorem getLast?_take_add
    {row part more : List Char}
    {a : Nat}
    (hText : row.drop a = part ++ more)
    (hPart : part ≠ []) :
    (row.take (a + part.length)).getLast? = part.getLast? := by
  rw [List.take_add, hText, List.take_left,
    List.getLast?_append_of_ne_nil _ hPart]

/- Blanks behind a cut end with a cut. -/
theorem IsCut.skipBlanks
    {row blanks more : List Char}
    {a : Nat}
    (hCut : IsCut row a)
    (hText : row.drop a = blanks ++ more)
    (hBlanks : ∀ c ∈ blanks, Lexeme.isBlank c = true) :
    IsCut row (a + blanks.length) := by
  by_cases hNone : blanks = []
  · subst hNone
    exact hCut
  · intro kind φ hClass c hLast hRun
    rw [getLast?_take_add hText hNone] at hLast
    have hBlank := hBlanks c (List.mem_of_getLast? hLast)
    cases
      (Lexeme.not_of_runClass_of_isBlank hClass
        hBlank).symm.trans hRun

/- Behind a word there is a cut. -/
theorem isCut_behind_word
    {row word more : List Char}
    {kind : TokenKind}
    {a : Nat}
    (hText : row.drop a = word ++ more)
    (hWord : Lexeme.IsWord kind word more.head?) :
    IsCut row (a + word.length) := by
  intro kind' φ hClass c hLast hRun d hNext
  rw [getLast?_take_add hText hWord.ne_nil] at hLast
  rw [← List.drop_drop, hText, List.drop_left] at hNext
  exact hWord.not_inside_run hClass hLast hRun hNext

------------------------------------------------------------
-- Tokens by themselves
------------------------------------------------------------

/- What a token of written lines is, by itself. -/
inductive Token.Stands
    (lines : List (List Char)) : Token → Prop where
  | word {n a : Nat} {row word more : List Char}
      {kind : TokenKind}
      (hLine : lines[n]? = some row)
      (hText : row.drop a = word ++ more)
      (hCut : IsCut row a)
      (hWord : Lexeme.IsWord kind word more.head?) :
      Stands lines (.at kind n a word)
  | newline {n : Nat} {row : List Char}
      (hLine : lines[n]? = some row)
      (hMore : n + 1 < lines.length) :
      Stands lines (.at .newline n row.length ['\n'])
  | fin {n : Nat} {row : List Char}
      (hLine : lines[n]? = some row) :
      Stands lines (.at .endOfText n row.length [])

namespace Token.Stands

variable {lines : List (List Char)}
variable {t u : Token}

/-
  A token that ends no line has the
  characters of its columns.
-/
theorem words
    (hStands : t.Stands lines)
    (hKind : t.kind ≠ .newline) :
    ∃ n a b row,
      t.Spans n a b ∧
        lines[n]? = some row ∧
        a ≤ b ∧
        b ≤ row.length ∧
        t.text.toList = (row.drop a).take (b - a) := by
  cases hStands with
  | @word n a row word more kind hLine hText hCut hWord =>
      have hLength := congrArg List.length hText
      have hPositive := List.length_pos_of_ne_nil hWord.ne_nil
      rw [List.length_drop, List.length_append] at hLength
      refine ⟨n, a, a + word.length, row, ⟨rfl, rfl, ?_⟩,
        hLine, by omega, by omega, ?_⟩
      · rw [at_endColumn]
        omega
      · rw [at_text, String.toList_ofList, hText,
          Nat.add_sub_cancel_left, List.take_left]
  | newline _ _ =>
      exact absurd rfl hKind
  | @fin n row hLine =>
      have hSpans :
          Token.Spans (.at .endOfText n row.length []) n
            row.length row.length :=
        ⟨rfl, rfl, rfl⟩
      refine ⟨n, row.length, row.length, row, hSpans, hLine,
        Nat.le_refl _, Nat.le_refl _, ?_⟩
      rw [Nat.sub_self, List.take_zero]
      rfl

/-
  A token that ends a line stands behind its last character.
-/
theorem lineEnds
    (hStands : t.Stands lines)
    (hKind : t.kind = .newline) :
    ∃ n row,
      lines[n]? = some row ∧
        n + 1 < lines.length ∧
        t.Spans n row.length (row.length + 1) ∧
        t.text = "\n" := by
  cases hStands with
  | word _ _ _ hWord =>
      exact absurd hKind hWord.kind_ne.1
  | @newline n row hLine hMore =>
      exact ⟨n, row, hLine, hMore, ⟨rfl, rfl, rfl⟩, rfl⟩
  | fin _ =>
      cases hKind

/- A token of a class that goes on is a word of its line. -/
theorem exists_word
    {φ : Char → Bool}
    (hStands : t.Stands lines)
    (hClass : Lexeme.runClass? t.kind = some φ) :
    ∃ n a row word more,
      t = .at t.kind n a word ∧
        lines[n]? = some row ∧
        row.drop a = word ++ more ∧
        IsCut row a ∧
        word ≠ [] ∧
        (∀ c ∈ word, φ c = true) ∧
        ∀ c ∈ more.head?, φ c = false := by
  cases hStands with
  | word hLine hText hCut hWord =>
      have hRun := hWord.of_runClass hClass
      exact ⟨_, _, _, _, _, rfl, hLine, hText, hCut,
        hWord.ne_nil, hRun.1, hRun.2⟩
  | newline _ _ =>
      cases hClass
  | fin _ =>
      cases hClass

/-
  A token of a class has all characters of
  it that stand together.
-/
theorem maximal
    {φ : Char → Bool}
    (hStands : t.Stands lines)
    (hClass : Lexeme.runClass? t.kind = some φ) :
    (∀ c ∈ t.text.toList, φ c = true) ∧
      ∀ n a b row,
        t.Spans n a b →
          lines[n]? = some row →
          a < b ∧
            (∀ c ∈ (row.take a).getLast?, φ c = false) ∧
            ∀ c ∈ row[b]?, φ c = false := by
  rcases hStands.exists_word hClass with
    ⟨n, a, row, word, more, hToken, hLine, hText, hCut,
      hNonempty, hWord, hNext⟩
  constructor
  · rw [hToken, at_text, String.toList_ofList]
    exact hWord
  · rintro n' a' b' line' ⟨hRow, hFirst, hEnd⟩ hLine'
    rw [hToken] at hRow hFirst hEnd
    rw [at_line] at hRow
    rw [at_column] at hFirst
    rw [at_endColumn] at hEnd
    obtain rfl : n' = n := by omega
    obtain rfl : a' = a := by omega
    obtain rfl : b' = a' + word.length := by omega
    cases hLine.symm.trans hLine'
    have hLength := List.length_pos_of_ne_nil hNonempty
    refine ⟨by omega, fun c hLast => ?_, fun c hChar => ?_⟩
    · by_contra hRun
      rcases List.exists_cons_of_ne_nil hNonempty with
        ⟨d, word, rfl⟩
      have hStop :=
        hCut t.kind φ hClass c hLast (by simpa using hRun) d
          (hText ▸ rfl)
      cases hStop.symm.trans (hWord d List.mem_cons_self)
    · apply hNext
      rw [← List.head?_drop, ← List.drop_drop, hText,
        List.drop_left] at hChar
      exact hChar

/- Two tokens of one kind that goes on do not touch. -/
theorem apart
    (hStands : t.Stands lines)
    (hOther : u.Stands lines)
    (hKinds : t.kind = u.kind)
    (hClass : (Lexeme.runClass? t.kind).isSome = true)
    (hLine : t.line = u.line) :
    t.endColumn ≠ u.column := by
  rcases Option.isSome_iff_exists.mp hClass with ⟨φ, hClass⟩
  rcases hStands.exists_word hClass with
    ⟨n, a, row, word, more, hToken, hRow, hText, -, -, -, hNext⟩
  rcases hOther.exists_word (hKinds ▸ hClass) with
    ⟨m, b, line', word', more', hToken', hRow', hText', -,
      hNonempty, hWord, -⟩
  intro hTouch
  rw [hToken, hToken', at_line, at_line] at hLine
  rw [hToken, hToken', at_endColumn, at_column] at hTouch
  obtain rfl : n = m := by omega
  obtain rfl : b = a + word.length := by omega
  cases hRow.symm.trans hRow'
  rw [← List.drop_drop, hText, List.drop_left] at hText'
  rcases List.exists_cons_of_ne_nil hNonempty with
    ⟨c, word', rfl⟩
  have hStop := hNext c (hText' ▸ rfl)
  cases hStop.symm.trans (hWord c List.mem_cons_self)

end Token.Stands

namespace Written

variable {lines : List (List Char)}
variable {ts : List Token}
variable {n a : Nat}

/-
  Tokens that are written from a cut on stand in the lines.
-/
theorem stands
    (hWritten : Written lines n a ts)
    (hCut : ∀ row, lines[n]? = some row → IsCut row a) :
    ∀ t ∈ ts, t.Stands lines := by
  induction hWritten with
  | word hLine hText hBlanks hWord _ ih =>
      have hCut := (hCut _ hLine).skipBlanks hText hBlanks
      have hText := (List.drop_drop ..).symm.trans
        ((congrArg (List.drop _) hText).trans List.drop_left)
      rw [List.forall_mem_cons]
      refine ⟨.word hLine hText hCut hWord,
        ih fun row hSame => ?_⟩
      cases hLine.symm.trans hSame
      exact isCut_behind_word hText hWord
  | newline hLine _ _ hMore _ ih =>
      rw [List.forall_mem_cons]
      exact ⟨.newline hLine hMore,
        ih fun row _ => isCut_zero row⟩
  | fin hLine _ _ _ =>
      rw [List.forall_mem_singleton]
      exact .fin hLine

/-
  Tokens stand nowhere before the place from
  which on lines are written.
-/
theorem not_before
    (hWritten : Written lines n a ts) :
    ∀ t ∈ ts,
      (n : Int) + 1 < t.line ∨
        t.line = n + 1 ∧ (a : Int) + 1 ≤ t.column := by
  induction hWritten with
  | word _ _ _ _ _ ih =>
      rw [List.forall_mem_cons]
      refine ⟨.inr ⟨Token.at_line, ?_⟩, fun t hMember => ?_⟩
      · rw [Token.at_column]
        omega
      · have := ih t hMember
        omega
  | newline _ _ _ _ _ ih =>
      rw [List.forall_mem_cons]
      refine ⟨.inr ⟨Token.at_line, ?_⟩, fun t hMember => ?_⟩
      · rw [Token.at_column]
        omega
      · have := ih t hMember
        omega
  | fin =>
      rw [List.forall_mem_singleton]
      refine .inr ⟨Token.at_line, ?_⟩
      rw [Token.at_column]
      omega

/- Tokens are written one before the other. -/
theorem ordered
    (hWritten : Written lines n a ts) :
    ts.Pairwise Token.Before := by
  induction hWritten with
  | word _ _ _ hWord hRest ih =>
      refine List.pairwise_cons.mpr ⟨fun u hMember => ?_, ih⟩
      have hPlace := hRest.not_before u hMember
      have hLength := List.length_pos_of_ne_nil hWord.ne_nil
      rw [Token.Before, Token.at_line, Token.at_column,
        Token.at_endColumn]
      omega
  | newline _ _ _ _ hRest ih =>
      refine List.pairwise_cons.mpr ⟨fun u hMember => ?_, ih⟩
      have hPlace := hRest.not_before u hMember
      rw [Token.Before, Token.at_line]
      omega
  | fin =>
      exact List.pairwise_singleton _ _

theorem getElem?_drop_sub
    {row : List Char}
    {i : Nat}
    {c : Char}
    (hChar : row[i]? = some c)
    (hPlace : a ≤ i) :
    (row.drop a)[i - a]? = some c := by
  rw [List.getElem?_drop, Nat.add_sub_cancel' hPlace, hChar]

/- Characters behind the place are blank or in a token. -/
theorem covered
    (hWritten : Written lines n a ts)
    {m i : Nat}
    {row : List Char}
    {c : Char}
    (hLine : lines[m]? = some row)
    (hChar : row[i]? = some c)
    (hPlace : n < m ∨ n = m ∧ a ≤ i) :
    Lexeme.isBlank c = true ∨
      ∃ t ∈ ts, ∃ x y, t.Spans m x y ∧ x ≤ i ∧ i < y := by
  induction hWritten with
  | @word n a _ blanks word _ _ _ hHere hText hBlanks _ _ ih =>
      by_cases hLater :
          n < m ∨
            n = m ∧ a + blanks.length + word.length ≤ i
      · rcases ih hLater with hBlank | ⟨t, hMember, hSpans⟩
        · exact .inl hBlank
        · exact .inr ⟨t, List.mem_cons_of_mem _ hMember, hSpans⟩
      · have hSame : n = m := by omega
        subst hSame
        cases hLine.symm.trans hHere
        by_cases hInside : a + blanks.length ≤ i
        · refine .inr
            ⟨_, List.mem_cons_self, a + blanks.length,
              a + blanks.length + word.length,
              ⟨rfl, rfl, ?_⟩, hInside, by omega⟩
          rw [Token.at_endColumn]
          omega
        · refine .inl (hBlanks c ?_)
          have hIndex :=
            getElem?_drop_sub hChar (show a ≤ i by omega)
          rw [hText,
            List.getElem?_append_left (by omega)] at hIndex
          exact List.mem_of_getElem? hIndex
  | @newline n a _ _ hHere _ hBlanks _ _ ih =>
      by_cases hLater : n < m
      · have hPlace : n + 1 < m ∨ n + 1 = m ∧ 0 ≤ i := by omega
        rcases ih hPlace with hBlank | ⟨t, hMember, hSpans⟩
        · exact .inl hBlank
        · exact .inr ⟨t, List.mem_cons_of_mem _ hMember, hSpans⟩
      · have hSame : n = m := by omega
        subst hSame
        cases hLine.symm.trans hHere
        have hIndex :=
          getElem?_drop_sub hChar (show a ≤ i by omega)
        exact .inl (hBlanks c (List.mem_of_getElem? hIndex))
  | @fin n a _ hHere _ hBlanks hLast =>
      have hInside := (List.getElem?_eq_some_iff.mp hLine).1
      have hSame : n = m := by omega
      subst hSame
      cases hLine.symm.trans hHere
      have hIndex :=
        getElem?_drop_sub hChar (show a ≤ i by omega)
      exact .inl (hBlanks c (List.mem_of_getElem? hIndex))

/-
  Every line end behind the place is a token, but the last.
-/
theorem ended
    (hWritten : Written lines n a ts)
    {m : Nat}
    {row : List Char}
    (hLine : lines[m]? = some row)
    (hPlace : n ≤ m)
    (hMore : m + 1 < lines.length) :
    ∃ t ∈ ts,
      t.kind = .newline ∧
        t.Spans m row.length (row.length + 1) := by
  induction hWritten with
  | word _ _ _ _ _ ih =>
      rcases ih hPlace with ⟨t, hMember, hEnd⟩
      exact ⟨t, List.mem_cons_of_mem _ hMember, hEnd⟩
  | @newline n _ _ _ hHere _ _ _ _ ih =>
      by_cases hSame : n = m
      · subst hSame
        cases hLine.symm.trans hHere
        exact ⟨_, List.mem_cons_self, rfl, rfl, rfl, rfl⟩
      · rcases ih (by omega) with ⟨t, hMember, hEnd⟩
        exact ⟨t, List.mem_cons_of_mem _ hMember, hEnd⟩
  | fin _ _ _ hLast =>
      omega

/- The token that closes the text is the last one. -/
theorem closed
    (hWritten : Written lines n a ts) :
    ∃ body fin row,
      ts = body ++ [fin] ∧
        fin.kind = .endOfText ∧
        (∀ t ∈ body, t.kind ≠ .endOfText) ∧
        lines[lines.length - 1]? = some row ∧
        fin.Spans (lines.length - 1) row.length row.length ∧
        fin.text = "" := by
  induction hWritten with
  | word _ _ _ hWord _ ih =>
      rcases ih with ⟨body, fin, row, rfl, hFin, hBody, hLine⟩
      refine ⟨_ :: body, fin, row, rfl, hFin, ?_, hLine⟩
      exact List.forall_mem_cons.mpr ⟨hWord.kind_ne.2, hBody⟩
  | newline _ _ _ _ _ ih =>
      rcases ih with ⟨body, fin, row, rfl, hFin, hBody, hLine⟩
      exact ⟨_ :: body, fin, row, rfl, hFin,
        List.forall_mem_cons.mpr ⟨nofun, hBody⟩, hLine⟩
  | @fin n a row hLine _ _ hLast =>
      have hIndex : lines.length - 1 = n := by omega
      rw [hIndex]
      exact ⟨[], _, row, rfl, rfl, nofun, hLine,
        ⟨rfl, rfl, rfl⟩, rfl⟩

------------------------------------------------------------
-- Neighbours
------------------------------------------------------------

/- Nothing but blanks stands before the first token. -/
theorem head_gap
    {u : Token}
    (hWritten : Written lines n a (u :: ts)) :
    ∃ row blanks more,
      lines[n]? = some row ∧
        row.drop a = blanks ++ more ∧
        (∀ c ∈ blanks, Lexeme.isBlank c = true) ∧
        u.line = n + 1 ∧
        u.column = a + blanks.length + 1 := by
  cases hWritten with
  | word hLine hText hBlanks _ _ =>
      exact ⟨_, _, _, hLine, hText, hBlanks, rfl, rfl⟩
  | @newline _ _ row _ hLine hPlace hBlanks _ _ =>
      refine ⟨row, row.drop a, [], hLine,
        (List.append_nil _).symm, hBlanks, rfl, ?_⟩
      rw [Token.at_column, List.length_drop]
      omega
  | @fin _ _ row hLine hPlace hBlanks _ =>
      refine ⟨row, row.drop a, [], hLine,
        (List.append_nil _).symm, hBlanks, rfl, ?_⟩
      rw [Token.at_column, List.length_drop]
      omega

/-
  The first token touches what ends before it if no blank
  stands in between.
-/
theorem head_adjacentTo
    {t u : Token}
    {row : List Char}
    (hWritten : Written lines n a (u :: ts))
    (hLine : lines[n]? = some row)
    (hEnd : t.endColumn = a + 1) :
    u.AdjacentTo t ↔
      ∀ c ∈ between row t u, Lexeme.isBlank c = false := by
  rcases hWritten.head_gap with
    ⟨line', blanks, more, hSame, hText, hBlanks, -, hColumn⟩
  cases hLine.symm.trans hSame
  have hBetween : between row t u = blanks := by
    have hFirst : (t.endColumn - 1).toNat = a := by omega
    have hCount :
        (u.column - t.endColumn).toNat = blanks.length := by
      omega
    rw [between, hFirst, hCount, hText, List.take_left]
  rw [hBetween, Token.AdjacentTo]
  cases blanks with
  | nil =>
      refine iff_of_true ?_ nofun
      rw [List.length_nil] at hColumn
      omega
  | cons c blanks =>
      refine iff_of_false ?_ fun hNone => ?_
      · rw [List.length_cons] at hColumn
        omega
      · cases (hBlanks c List.mem_cons_self).symm.trans
          (hNone c List.mem_cons_self)

/-
  Tokens of one line touch just if no blank is between them.
-/
theorem neighbours
    (hWritten : Written lines n a ts) :
    ts.IsChain fun t u =>
      t.line = u.line →
        ∀ (n : Nat) row,
          t.line = (n : Int) + 1 →
            lines[n]? = some row →
            (u.AdjacentTo t ↔
              ∀ c ∈ between row t u,
                Lexeme.isBlank c = false) := by
  induction hWritten with
  | @word n a _ blanks word _ _ ts _ _ _ _ hRest ih =>
      cases ts with
      | nil =>
          exact List.isChain_singleton _
      | cons u ts =>
          refine List.isChain_cons_cons.mpr ⟨?_, ih⟩
          intro _ m row hPlace hLine
          rw [Token.at_line] at hPlace
          have hSame : m = n := by omega
          subst hSame
          refine hRest.head_adjacentTo hLine ?_
          rw [Token.at_endColumn]
          omega
  | @newline n a _ ts _ _ _ _ hRest ih =>
      cases ts with
      | nil =>
          exact List.isChain_singleton _
      | cons u ts =>
          refine List.isChain_cons_cons.mpr ⟨?_, ih⟩
          intro hSame
          have hPlace := hRest.not_before u List.mem_cons_self
          rw [Token.at_line] at hSame
          omega
  | fin =>
      exact List.isChain_singleton _

------------------------------------------------------------
-- Pairs of signs
------------------------------------------------------------

/-
  Where a sign stands, the first token is a
  pair or a single sign.
-/
theorem of_sign
    {c : Char}
    {row more : List Char}
    (hWritten : Written lines n a ts)
    (hLine : lines[n]? = some row)
    (hSign : Lexeme.isDoubling c = true)
    (hText : row.drop a = c :: more) :
    (∃ after rest,
        more = c :: after ∧
          ts = .at .accidental n a [c, c] :: rest ∧
          Written lines n (a + 2) rest) ∨
      ∃ rest,
        c ∉ more.head? ∧
          ts = .at .accidental n a [c] :: rest ∧
          Written lines n (a + 1) rest := by
  have hNotBlank := Lexeme.not_isBlank_of_isDoubling hSign
  cases hWritten with
  | @word _ _ _ blanks word after kind rest hHere hSplit
      hBlanks hWord hRest =>
      cases hLine.symm.trans hHere
      rw [hText] at hSplit
      cases blanks with
      | cons d blanks =>
          cases hSplit
          cases hNotBlank.symm.trans
            (hBlanks c List.mem_cons_self)
      | nil =>
          cases word with
          | nil =>
              exact absurd rfl hWord.ne_nil
          | cons d word =>
              cases hSplit
              rcases hWord.of_sign hSign with
                ⟨rfl, rfl | ⟨rfl, hStop⟩⟩
              · exact .inl ⟨after, rest, rfl, rfl, hRest⟩
              · exact .inr ⟨rest, hStop, rfl, hRest⟩
  | newline hHere _ hBlanks _ _ =>
      cases hLine.symm.trans hHere
      cases hNotBlank.symm.trans
        (hBlanks c (hText ▸ List.mem_cons_self))
  | fin hHere _ hBlanks _ =>
      cases hLine.symm.trans hHere
      cases hNotBlank.symm.trans
        (hBlanks c (hText ▸ List.mem_cons_self))

/-
  The tokens of a run of signs come first
  where the run starts.
-/
theorem signPairs_prefix
    {k : Nat}
    {c : Char}
    {row more : List Char}
    (hWritten : Written lines n a ts)
    (hLine : lines[n]? = some row)
    (hSign : Lexeme.isDoubling c = true)
    (hRun : row.drop a = List.replicate k c ++ more)
    (hStop : c ∉ more.head?) :
    Token.signPairs n c a k <+: ts := by
  induction k using Nat.twoStepInduction generalizing a ts with
  | zero =>
      exact List.nil_prefix
  | one =>
      rcases hWritten.of_sign hLine hSign hRun with
        ⟨after, rest, hAfter, -, -⟩ | ⟨rest, -, rfl, -⟩
      · change more = c :: after at hAfter
        exact absurd (hAfter ▸ rfl) hStop
      · exact ⟨rest, rfl⟩
  | more k ih _ =>
      rcases hWritten.of_sign hLine hSign hRun with
        ⟨after, rest, -, rfl, hRest⟩ | ⟨rest, hNone, -, -⟩
      · have hBehind :
            row.drop (a + 2) =
              List.replicate k c ++ more := by
          rw [← List.drop_drop, hRun]
          rfl
        exact List.prefix_cons_inj _ |>.mpr (ih hRest hBehind)
      · exact absurd rfl hNone

/- A sign inside a word has its like before it. -/
theorem getLast?_of_sign_inside
    {row blanks word more : List Char}
    {b : Nat}
    {c : Char}
    {kind : TokenKind}
    (hText : row.drop a = blanks ++ (word ++ more))
    (hWord : Lexeme.IsWord kind word more.head?)
    (hSign : Lexeme.isDoubling c = true)
    (hHead : row[b]? = some c)
    (hStart : a + blanks.length < b)
    (hEnd : b < a + blanks.length + word.length) :
    c ∈ (row.take b).getLast? := by
  obtain ⟨i, rfl⟩ : ∃ i, b = a + blanks.length + (i + 1) :=
    ⟨b - a - blanks.length - 1, by omega⟩
  have hIndex {j : Nat} (hj : j < word.length) :
      row[a + blanks.length + j]? = word[j]? := by
    rw [Nat.add_assoc, ← List.getElem?_drop, hText,
      List.getElem?_append_right (by omega),
      Nat.add_sub_cancel_left, List.getElem?_append_left hj]
  have hInside : word[i + 1]? = some c :=
    (hIndex (by omega)).symm.trans hHead
  have hBefore : row[a + blanks.length + i]? = some c :=
    (hIndex (by omega)).trans (hWord.sign_inside hSign hInside)
  rw [List.getLast?_take, if_neg (by omega),
    show a + blanks.length + (i + 1) - 1 =
      a + blanks.length + i by omega, hBefore]
  rfl

/-
  Behind the place, every run of signs is
  paired from its start.
-/
theorem paired
    (hWritten : Written lines n a ts)
    {m b k : Nat}
    {c : Char}
    {row more : List Char}
    (hLine : lines[m]? = some row)
    (hSign : Lexeme.isDoubling c = true)
    (hRun : row.drop b = List.replicate (k + 1) c ++ more)
    (hStop : c ∉ more.head?)
    (hStart : c ∉ (row.take b).getLast?)
    (hPlace : n < m ∨ n = m ∧ a ≤ b) :
    Token.signPairs m c b (k + 1) <:+: ts := by
  have hHead : row[b]? = some c := by
    rw [← List.head?_drop, hRun]
    rfl
  have hNotBlank := Lexeme.not_isBlank_of_isDoubling hSign
  induction hWritten with
  | @word n a _ blanks word after kind ts hHere hText
      hBlanks hWord hRest ih =>
      by_cases hLater :
          n < m ∨
            n = m ∧ a + blanks.length + word.length ≤ b
      · exact (ih hLater).trans (List.suffix_cons _ _).isInfix
      · have hSame : n = m := by omega
        subst hSame
        cases hLine.symm.trans hHere
        have hIndex :=
          getElem?_drop_sub hHead (show a ≤ b by omega)
        rw [hText] at hIndex
        rcases Nat.lt_trichotomy b (a + blanks.length) with
          hBefore | hHere' | hInside
        · rw [List.getElem?_append_left (by omega)] at hIndex
          cases hNotBlank.symm.trans
            (hBlanks c (List.mem_of_getElem? hIndex))
        · subst hHere'
          have hWord' : Written lines n (a + blanks.length)
              (.at kind n (a + blanks.length) word :: ts) := by
            have hEmpty :
                row.drop (a + blanks.length) =
                  [] ++ (word ++ after) := by
              rw [← List.drop_drop, hText, List.drop_left]
              rfl
            exact .word hHere hEmpty nofun hWord hRest
          exact (hWord'.signPairs_prefix hHere hSign hRun
            hStop).isInfix
        · exact absurd
            (getLast?_of_sign_inside hText hWord hSign hHead
              hInside (by omega)) hStart
  | @newline n a _ _ hHere _ hBlanks _ _ ih =>
      by_cases hLater : n < m
      · exact (ih (by omega)).trans
          (List.suffix_cons _ _).isInfix
      · have hSame : n = m := by omega
        subst hSame
        cases hLine.symm.trans hHere
        have hIndex :=
          getElem?_drop_sub hHead (show a ≤ b by omega)
        cases hNotBlank.symm.trans
          (hBlanks c (List.mem_of_getElem? hIndex))
  | @fin n a _ hHere _ hBlanks hLast =>
      have hInside := (List.getElem?_eq_some_iff.mp hLine).1
      have hSame : n = m := by omega
      subst hSame
      cases hLine.symm.trans hHere
      have hIndex :=
        getElem?_drop_sub hHead (show a ≤ b by omega)
      cases hNotBlank.symm.trans
        (hBlanks c (List.mem_of_getElem? hIndex))

end Written

------------------------------------------------------------
-- Partition of a text
------------------------------------------------------------

/- Tokens that write all lines partition them. -/
theorem Written.partition
    {lines : List (List Char)}
    {ts : List Token}
    (hWritten : Written lines 0 0 ts) :
    Partition lines ts := by
  have hStands := hWritten.stands fun row _ => isCut_zero row
  have hPlace : ∀ m i : Nat, 0 < m ∨ 0 = m ∧ 0 ≤ i := by omega
  refine ⟨hWritten.ordered, ?_, ?_, ?_, ?_, hWritten.closed,
    ?_, ?_, ?_, hWritten.neighbours⟩
  · exact fun t hMember => (hStands t hMember).words
  · exact fun t hMember => (hStands t hMember).lineEnds
  · exact fun n row i c hLine hChar =>
      hWritten.covered hLine hChar (hPlace n i)
  · exact fun n row hLine hMore =>
      hWritten.ended hLine (Nat.zero_le n) hMore
  · exact fun t hMember φ => (hStands t hMember).maximal
  · exact fun t hMember u hOther =>
      (hStands t hMember).apart (hStands u hOther)
  · intro n row a k c more hLine hSign hRun hStop hStart
    cases k with
    | zero =>
        exact List.nil_infix
    | succ k =>
        exact hWritten.paired hLine hSign hRun hStop hStart
          (hPlace n a)

/-
  The lines of a text, which line feeds alone separate
  once the line ends are made alike, are partitioned
  by the tokens of the text; and no character is
  beyond the reader of tokens.
-/
theorem tokenize_partition
    (text : String) :
    ∃ lines : List (List Char),
      List.intercalate ['\n'] lines =
          LineBreak.joinPairs text.toList ∧
        (∀ row ∈ lines, '\n' ∉ row) ∧
        Partition lines (tokenize text) ∧
        (Unread.ofText text).guardedTokens =
          .ok (tokenize text) :=
  ⟨partsBetween '\n' (LineBreak.joinPairs text.toList),
    intercalate_partsBetween _ _,
    fun _ => not_mem_of_mem_partsBetween,
    (tokenize_written text).partition,
    Unread.guardedTokens_eq _⟩

end LyricScore
