import LyricScore.Proofs.Partition

/-
  This file tells what the text of a token is by its kind:
  symbols are written in one way, accidentals are one of five
  signs, and numbers are digits.  A token is as wide as its
  text.

  Key theorems include:
    * `Lexeme.IsWord.eq_of_symbol`, `Lexeme.IsWord.eq_of_accidental`
    * `Token.Stands.exists_isWord`
    * `Token.Stands.text_of_symbol`, `Token.Stands.number_digits`
    * `Token.Stands.endColumn_eq`
-/

namespace LyricScore

------------------------------------------------------------
-- Words
------------------------------------------------------------

namespace Lexeme.IsWord

variable {kind : TokenKind}
variable {word : List Char}
variable {next : Option Char}

/- A symbol that is no accidental is written in one way. -/
theorem eq_of_symbol
    {c : Char}
    (hWord : IsWord kind word next)
    (hSymbol : symbolKind? c = some kind)
    (hAlone : kind ≠ .accidental) :
    word = [c] := by
  have hClass := runClass?_of_symbol hSymbol
  cases hWord with
  | identifier => cases hClass
  | number => cases hClass
  | doubled => exact absurd rfl hAlone
  | single => exact absurd rfl hAlone
  | @symbol d _ _ hSame =>
      congr 1
      unfold symbolKind? at hSymbol
      split at hSymbol <;>
        cases hSymbol <;>
        unfold symbolKind? at hSame <;>
        split at hSame <;>
        first | rfl | cases hSame

/- An accidental is one of five signs. -/
theorem eq_of_accidental
    (hWord : IsWord .accidental word next) :
    word ∈ [['#'], ['#', '#'], ['&'], ['&', '&'], ['%']] := by
  cases hWord with
  | doubled hSign =>
      simp only [isDoubling, Bool.or_eq_true,
        decide_eq_true_eq] at hSign
      rcases hSign with rfl | rfl <;> decide
  | single hSign _ =>
      simp only [isDoubling, Bool.or_eq_true,
        decide_eq_true_eq] at hSign
      rcases hSign with rfl | rfl <;> decide
  | symbol hSymbol =>
      unfold symbolKind? at hSymbol
      split at hSymbol <;> cases hSymbol
      decide

end Lexeme.IsWord

------------------------------------------------------------
-- Tokens
------------------------------------------------------------

namespace Token.Stands

variable {lines : List (List Char)}
variable {t : Token}

/- A token that neither ends a line nor the text is a word. -/
theorem exists_isWord
    (hStands : t.Stands lines)
    (hNewline : t.kind ≠ .newline)
    (hEnd : t.kind ≠ .endOfText) :
    ∃ next, Lexeme.IsWord t.kind t.text.toList next := by
  cases hStands with
  | word _ _ _ hWord =>
      rw [at_text, String.toList_ofList]
      exact ⟨_, hWord⟩
  | newline => exact absurd rfl hNewline
  | fin => exact absurd rfl hEnd

/- A number has digits, and nothing else. -/
theorem number_digits
    (hStands : t.Stands lines)
    (hKind : t.kind = .number) :
    t.text.toList ≠ [] ∧
      ∀ c ∈ t.text.toList,
        DecimalDigit.isAscii c = true := by
  rcases hStands.exists_isWord (by simp [hKind])
      (by simp [hKind]) with
    ⟨next, hWord⟩
  rw [hKind] at hWord
  exact ⟨hWord.ne_nil, (hWord.of_runClass rfl).1⟩

/- A token of a symbol has the symbol as its text. -/
theorem text_of_symbol
    {c : Char}
    {kind : TokenKind}
    (hStands : t.Stands lines)
    (hKind : t.kind = kind)
    (hSymbol : Lexeme.symbolKind? c = some kind)
    (hAlone : kind ≠ .accidental) :
    t.text = String.ofList [c] := by
  subst hKind
  have hPlain := Lexeme.symbolKind?_eq_some hSymbol
  rcases hStands.exists_isWord hPlain.1 hPlain.2 with
    ⟨next, hWord⟩
  rw [← hWord.eq_of_symbol hSymbol hAlone, String.ofList_toList]

/- A token ends behind the last character of its text. -/
theorem endColumn_eq
    (hStands : t.Stands lines) :
    t.endColumn = t.column + t.text.toList.length := by
  cases hStands with
  | word =>
      rw [at_endColumn, at_column, at_text,
        String.toList_ofList]
      omega
  | newline =>
      rw [at_endColumn, at_column, at_text,
        String.toList_ofList]
      omega
  | fin =>
      rw [at_endColumn, at_column, at_text,
        String.toList_ofList]
      omega

end Token.Stands

end LyricScore
