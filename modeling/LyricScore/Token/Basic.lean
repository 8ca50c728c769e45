import LyricScore.Text.Location
import LyricScore.Text.Quoted

/-
  This file defines the tokens of a score text.  White space
  is no token; since every token knows the columns it covers,
  a reader can tell neighbours from tokens that white space
  keeps apart.

  Key definitions include:
    * `TokenKind`
    * `TokenKind.name`
    * `TokenKind.ofName?`
    * `Token`
    * `Token.AdjacentTo`
    * `Token.describe`
-/

namespace LyricScore

------------------------------------------------------------
-- Kinds
------------------------------------------------------------

/- The kinds of tokens. -/
inductive TokenKind where
  | identifier
  | number
  | barline
  | openBracket
  | closeBracket
  | openParenthesis
  | closeParenthesis
  | dot
  | hyphen
  | underscore
  | asterisk
  | caret
  | slash
  | accidental
  | colon
  | semicolon
  | equals
  | newline
  | endOfText
deriving DecidableEq, Repr

namespace TokenKind

/- Every kind, once. -/
def all : List TokenKind :=
  [identifier, number, barline, openBracket, closeBracket,
    openParenthesis, closeParenthesis, dot, hyphen,
    underscore, asterisk, caret, slash, accidental, colon,
    semicolon, equals, newline, endOfText]

/- The word that messages use for a kind. -/
def name : TokenKind → String
  | identifier => "Identifier"
  | number => "Number"
  | barline => "Barline"
  | openBracket => "LBrak"
  | closeBracket => "RBrak"
  | openParenthesis => "LParen"
  | closeParenthesis => "RParen"
  | dot => "Dot"
  | hyphen => "Hyphen"
  | underscore => "Underscore"
  | asterisk => "Asterisk"
  | caret => "Caret"
  | slash => "Slash"
  | accidental => "Accidental"
  | colon => "Colon"
  | semicolon => "Semicolon"
  | equals => "Equals"
  | newline => "Newline"
  | endOfText => "EOF"

/- The kind that a word names. -/
def ofName?
    (word : String) : Option TokenKind :=
  all.find? fun kind => kind.name == word

end TokenKind

------------------------------------------------------------
-- Tokens
------------------------------------------------------------

/-
  A token: its text, the line it stands on, its first column
  and the column behind its last character.
-/
structure Token where
  kind : TokenKind
  text : String
  line : Int
  column : Int
  endColumn : Int
deriving DecidableEq, Repr

namespace Token

/- Where a token starts. -/
def location
    (t : Token) : Location :=
  ⟨t.line, t.column⟩

/-
  No white space stands between a token
  and the one before it.
-/
def AdjacentTo
    (t previous : Token) : Prop :=
  t.column ≤ previous.endColumn

instance
    (t previous : Token) :
    Decidable (AdjacentTo t previous) := by
  unfold AdjacentTo
  infer_instance

/-
  A token as messages show it: kind, quoted text and place.
-/
def describe
    (t : Token) : String :=
  t.kind.name ++ "(" ++ Quoted.quote t.text ++ ") @ " ++
    toString t.line ++ ":" ++ toString t.column

end Token

end LyricScore
