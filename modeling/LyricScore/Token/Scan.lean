import LyricScore.Token.Basic
import LyricScore.Text.DecimalDigit
import LyricScore.Text.LineBreak

/-
  This file defines how a text is cut into tokens.  Line ends
  are made alike first.  White space between tokens is
  skipped, and whatever is no symbol, digit or white space
  belongs to an identifier, so every text has tokens.

  Key definitions include:
    * `Lexeme.symbolKind?`
    * `Lexeme.take`
    * `Unread`
    * `Unread.step?`
    * `Unread.next`
    * `Unread.tokens`
    * `tokenize`
-/

namespace LyricScore

------------------------------------------------------------
-- Lexemes
------------------------------------------------------------

namespace Lexeme

/- White space inside a line. -/
def isBlank
    (c : Char) : Bool :=
  c = ' ' || c = '\t' || c = '\r'

/- The kind of a character that is a token of its own. -/
def symbolKind? : Char → Option TokenKind
  | '|' => some .barline
  | '[' => some .openBracket
  | ']' => some .closeBracket
  | '(' => some .openParenthesis
  | ')' => some .closeParenthesis
  | '.' => some .dot
  | '-' => some .hyphen
  | '_' => some .underscore
  | '*' => some .asterisk
  | '^' => some .caret
  | '/' => some .slash
  | ';' => some .semicolon
  | '=' => some .equals
  | ':' => some .colon
  | '%' => some .accidental
  | _ => none

/-
  The signs that make one accidental
  when they stand doubled.
-/
def isDoubling
    (c : Char) : Bool :=
  c = '#' || c = '&'

/-
  The characters of identifiers: all that are no digit, no
  white space, no line feed and no symbol.
-/
def isNameChar
    (c : Char) : Bool :=
  !(DecimalDigit.isAscii c || isBlank c || c = '\n' ||
    isDoubling c || (symbolKind? c).isSome)

/-
  The token at the head of a text that starts with `c` and
  goes on with `rest`: its kind, its characters after `c`,
  and what follows it.  The text does not start with a blank.
-/
def take
    (c : Char)
    (rest : List Char) : TokenKind × List Char × List Char :=
  if c = '\n' then (.newline, [], rest)
  else if isDoubling c then
    match rest with
    | d :: after =>
        if d = c then (.accidental, [d], after)
        else (.accidental, [], rest)
    | [] => (.accidental, [], [])
  else
    match symbolKind? c with
    | some kind => (kind, [], rest)
    | none =>
      if DecimalDigit.isAscii c then
        (.number, rest.takeWhile DecimalDigit.isAscii,
          rest.dropWhile DecimalDigit.isAscii)
      else
        (.identifier, rest.takeWhile isNameChar,
          rest.dropWhile isNameChar)

/-
  Nothing is lost: a token and what follows it are the text.
-/
theorem take_append
    (c : Char)
    (rest : List Char) :
    (take c rest).2.1 ++ (take c rest).2.2 = rest := by
  unfold take
  split
  · rfl
  · split
    · split
      · split <;> simp
      · rfl
    · split
      · rfl
      · split <;> simp

/-
  What follows a token is no longer than
  what follows its head.
-/
theorem length_take_le
    (c : Char)
    (rest : List Char) :
    (take c rest).2.2.length ≤ rest.length := by
  have h := congrArg List.length (take_append c rest)
  simp only [List.length_append] at h
  omega

end Lexeme

------------------------------------------------------------
-- Texts in part read
------------------------------------------------------------

/-
  The unread part of a text, and the place where it starts.
-/
structure Unread where
  line : Nat
  column : Nat
  text : List Char
deriving DecidableEq, Repr

namespace Unread

/- A whole text, its line ends made alike. -/
def ofText
    (text : String) : Unread :=
  ⟨1, 1, LineBreak.joinPairs text.toList⟩

/- The text behind the blanks at its head. -/
def skipBlanks
    (u : Unread) : Unread :=
  ⟨u.line, u.column + (u.text.takeWhile Lexeme.isBlank).length,
    u.text.dropWhile Lexeme.isBlank⟩

/-
  The next token and the text behind it, if blanks are not
  all that is left.
-/
def step?
    (u : Unread) : Option (Token × Unread) :=
  let start := u.skipBlanks
  match start.text with
  | [] => none
  | c :: rest =>
    let (kind, more, after) := Lexeme.take c rest
    let endColumn := start.column + more.length + 1
    some
      (⟨kind, String.ofList (c :: more), start.line,
          start.column, endColumn⟩,
        if kind = .newline then ⟨start.line + 1, 1, after⟩
        else ⟨start.line, endColumn, after⟩)

/- The token that closes a text. -/
def endToken
    (u : Unread) : Token :=
  ⟨.endOfText, "", u.skipBlanks.line, u.skipBlanks.column,
    u.skipBlanks.column⟩

/-
  The next token, which at the end of the text is the closing
  one, again and again.
-/
def next
    (u : Unread) : Token × Unread :=
  match u.step? with
  | some found => found
  | none => (u.endToken, u.skipBlanks)

/- A token takes at least one character. -/
theorem length_lt_of_step?
    {u v : Unread}
    {t : Token}
    (h : u.step? = some (t, v)) :
    v.text.length < u.text.length := by
  unfold step? at h
  have hle : (u.skipBlanks).text.length ≤ u.text.length :=
    (List.dropWhile_sublist _).length_le
  cases heq : u.skipBlanks.text with
  | nil =>
      simp [heq] at h
  | cons c rest =>
      simp only [heq, Option.some.injEq, Prod.mk.injEq] at h
      have hv : v.text = (Lexeme.take c rest).2.2 := by
        rw [← h.2]
        split <;> rfl
      have := Lexeme.length_take_le c rest
      rw [heq, List.length_cons] at hle
      rw [hv]
      omega

/- All tokens of a text, the closing one last. -/
def tokens
    (u : Unread) : List Token :=
  match _h : u.step? with
  | some (t, v) => t :: tokens v
  | none => [u.endToken]
termination_by u.text.length
decreasing_by exact length_lt_of_step? _h

end Unread

/- The tokens of a text. -/
def tokenize
    (text : String) : List Token :=
  (Unread.ofText text).tokens

end LyricScore
