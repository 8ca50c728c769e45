import LyricScore.Token.Scan

/-
  This file states one step of the reader that cuts a text
  into tokens: which token it takes, and what it leaves.
  Proofs about tokens rest on these steps and do not open the
  reader.

  Key definitions include:
    * `Unread.tokenAt`
    * `Unread.behind`
    * `Token.HasText`

  Key theorems include:
    * `Lexeme.take_kind`
    * `Unread.step?_eq`
    * `Unread.tokens_of_step?`
    * `tokenize_eq_append`
-/

namespace LyricScore

------------------------------------------------------------
-- Kinds of lexemes
------------------------------------------------------------

namespace Lexeme

/- Symbols neither end a line nor close a text. -/
theorem symbolKind?_eq_some
    {c : Char}
    {kind : TokenKind}
    (hSymbol : symbolKind? c = some kind) :
    kind ≠ .newline ∧ kind ≠ .endOfText := by
  unfold symbolKind? at hSymbol
  split at hSymbol <;> cases hSymbol <;> decide

/- Only a line feed is a token that ends a line. -/
theorem take_kind
    (c : Char)
    (rest : List Char) :
    ((take c rest).1 = .newline ↔ c = '\n') ∧
      (take c rest).1 ≠ .endOfText := by
  unfold take
  by_cases hNewline : c = '\n'
  · simp [hNewline]
  · rw [if_neg hNewline, iff_false_right hNewline]
    by_cases hDoubling : isDoubling c = true
    · rw [if_pos hDoubling]
      split
      · split <;> simp
      · simp
    · rw [if_neg hDoubling]
      cases hSymbol : symbolKind? c with
      | some kind =>
          exact symbolKind?_eq_some hSymbol
      | none =>
          by_cases hDigit :
              DecimalDigit.isAscii c = true <;>
            simp [hDigit]

end Lexeme

------------------------------------------------------------
-- Steps
------------------------------------------------------------

/- What is left behind blanks does not start with one. -/
theorem Unread.blank_of_skipBlanks
    {u : Unread}
    {c : Char}
    {rest : List Char}
    (hText : u.skipBlanks.text = c :: rest) :
    Lexeme.isBlank c = false := by
  have hText :
      u.text.dropWhile Lexeme.isBlank = c :: rest :=
    hText
  have hHead := List.head?_dropWhile_not Lexeme.isBlank u.text
  rw [hText] at hHead
  simpa using hHead

/- The token that a text behind blanks starts with. -/
def Unread.tokenAt
    (line column : Nat)
    (c : Char)
    (rest : List Char) : Token :=
  ⟨(Lexeme.take c rest).1,
    String.ofList (c :: (Lexeme.take c rest).2.1), line,
    column,
    (column + (Lexeme.take c rest).2.1.length + 1 : Nat)⟩

/- What is unread behind that token. -/
def Unread.behind
    (line column : Nat)
    (c : Char)
    (rest : List Char) : Unread :=
  if c = '\n' then ⟨line + 1, 1, (Lexeme.take c rest).2.2⟩
  else
    ⟨line, column + (Lexeme.take c rest).2.1.length + 1,
      (Lexeme.take c rest).2.2⟩

/-
  A step takes the token at the first
  character that is not blank.
-/
theorem Unread.step?_eq
    {u : Unread}
    {c : Char}
    {rest : List Char}
    (hText : u.skipBlanks.text = c :: rest) :
    u.step? =
      some (tokenAt u.line u.skipBlanks.column c rest,
        behind u.line u.skipBlanks.column c rest) := by
  unfold step?
  simp only [hText, tokenAt, behind,
    (Lexeme.take_kind c rest).1]
  rfl

/- Behind blanks alone there is no token. -/
theorem Unread.step?_eq_none
    {u : Unread}
    (hText : u.skipBlanks.text = []) :
    u.step? = none := by
  unfold step?
  simp only [hText]

/- The token of a step comes first. -/
theorem Unread.tokens_of_step?
    {u v : Unread}
    {t : Token}
    (hStep : u.step? = some (t, v)) :
    u.tokens = t :: v.tokens := by
  rw [tokens, hStep]

/- Without a step, the text is closed. -/
theorem Unread.tokens_of_step?_eq_none
    {u : Unread}
    (hStep : u.step? = none) :
    u.tokens = [u.endToken] := by
  rw [tokens, hStep]

------------------------------------------------------------
-- Tokens of a text
------------------------------------------------------------

/- An identifier has characters. -/
def Token.HasText
    (t : Token) : Prop :=
  t.kind = .identifier → t.text ≠ ""

/-
  The tokens of a text are closed by its last token, and by no
  other; and every identifier among them has characters.
-/
theorem Unread.tokens_eq_append
    (u : Unread) :
    ∃ body fin,
      u.tokens = body ++ [fin] ∧
        fin.kind = .endOfText ∧
        ∀ t ∈ body, t.kind ≠ .endOfText ∧ t.HasText := by
  induction u using Unread.tokens.induct with
  | case1 u t behind hStep ih =>
      rcases ih with ⟨body, fin, hTokens, hFin, hBody⟩
      refine ⟨t :: body, fin, ?_, hFin, ?_⟩
      · rw [tokens_of_step? hStep, hTokens]
        rfl
      · rw [List.forall_mem_cons]
        refine ⟨?_, hBody⟩
        cases hText : u.skipBlanks.text with
        | nil =>
            cases hStep.symm.trans (step?_eq_none hText)
        | cons c rest =>
            cases hStep.symm.trans (step?_eq hText)
            refine ⟨(Lexeme.take_kind c rest).2, ?_⟩
            intro _ hEmpty
            exact List.cons_ne_nil c _
              (String.ofList_eq_empty_iff.mp hEmpty)
  | case2 u hStep =>
      exact ⟨[], u.endToken, tokens_of_step?_eq_none hStep,
        rfl, nofun⟩

/- One token closes a text, behind all others. -/
theorem tokenize_eq_append
    (text : String) :
    ∃ body fin,
      tokenize text = body ++ [fin] ∧
        fin.kind = .endOfText ∧
        ∀ t ∈ body, t.kind ≠ .endOfText ∧ t.HasText :=
  (Unread.ofText text).tokens_eq_append

/- The tokens of a text have a text, unless they close it. -/
theorem hasText_of_mem_tokenize
    {text : String}
    {t : Token}
    (hMember : t ∈ tokenize text) :
    t.HasText := by
  rcases tokenize_eq_append text with
    ⟨body, fin, hTokens, hFin, hBody⟩
  rw [hTokens, List.mem_append, List.mem_singleton] at hMember
  rcases hMember with hMember | rfl
  · exact (hBody t hMember).2
  · intro hKind
    cases hFin.symm.trans hKind

end LyricScore
