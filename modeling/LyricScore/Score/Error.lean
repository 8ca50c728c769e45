import LyricScore.Score.Directive
import LyricScore.Text.Numeral
import LyricScore.Token.Basic

/-
  This file defines why a text is no score, and what a reader
  may remark about a text that it passes over.

  Key definitions include:
    * `Expected`
    * `ScoreError`
    * `Remark`
    * `Stop`
    * `Stop.after`
-/

namespace LyricScore

------------------------------------------------------------
-- Errors
------------------------------------------------------------

/-
  What a score needs at a place where it has something else.
-/
inductive Expected where
  | number (name : DirectiveName)
  | note
  | closingParenthesis
  | closingBracket
deriving DecidableEq, Repr

namespace Expected

/- The wording of what is missing. -/
def message : Expected → String
  | number name => "Expected number for " ++ name.letter
  | note => "Expected note name (a-g) after modifiers"
  | closingParenthesis => "Expected ')'"
  | closingBracket => "Expected ']'"

end Expected

/-
  Why tokens are no score: something is missing before the
  token `found`; a number is too long or none at all; an
  identifier without text stands for a note; or no token
  closes the text.
-/
inductive ScoreError where
  | missing (what : Expected) (found : Token)
  | number (error : NumeralError)
  | emptyName
  | unterminated
deriving DecidableEq, Repr

namespace ScoreError

/- The wording of an error. -/
def message : ScoreError → String
  | missing what found =>
    "[Line " ++ toString found.line ++ " Col " ++
      toString found.column ++ "] Error at '" ++
      found.text ++ "': " ++ what.message
  | number error => error.message
  | emptyName => "string index out of range"
  | unterminated => "Token list must end with an EOF token"

end ScoreError

------------------------------------------------------------
-- Remarks
------------------------------------------------------------

/- A token that has no meaning where it stands. -/
inductive Remark where
  | noPitch (t : Token)
  | inChord (t : Token)
  | inBrackets (t : Token)
  | unknownDirective (name : String)
deriving DecidableEq, Repr

namespace Remark

/- The wording of a remark. -/
def message : Remark → String
  | noPitch t => "Skipping non-pitch token " ++ t.describe
  | inChord t => "Skipping token inside chord: " ++ t.describe
  | inBrackets t =>
      "Skipping token inside brackets: " ++ t.describe
  | unknownDirective name =>
      "Skipping unknown directive " ++ Quoted.quote name

end Remark

------------------------------------------------------------
-- Stops
------------------------------------------------------------

/-
  The end of a reading that fails: the error, and what was
  remarked before it.
-/
structure Stop where
  error : ScoreError
  remarks : List Remark := []
deriving DecidableEq, Repr

namespace Stop

/- A stop that earlier remarks come before. -/
def after
    (earlier : List Remark)
    (s : Stop) : Stop :=
  { s with remarks := earlier ++ s.remarks }

/-
  A unit read before others: it is the first of them, or, if
  reading them stops, its remarks are the first.
-/
def prepend
    {α β : Type}
    (unit : α)
    (remarks : List Remark) :
    Except Stop (List α × β) → Except Stop (List α × β)
  | .ok (units, rest) => .ok (unit :: units, rest)
  | .error s => .error (s.after remarks)

/- If units were read, the first stands before the others. -/
theorem prepend_eq_ok
    {α β : Type}
    {unit : α}
    {remarks : List Remark}
    {others : Except Stop (List α × β)}
    {units : List α}
    {rest : β}
    (hUnits : prepend unit remarks others = .ok (units, rest)) :
    ∃ behind,
      others = .ok (behind, rest) ∧ units = unit :: behind := by
  cases others with
  | error s =>
      cases hUnits
  | ok step =>
      cases hUnits
      exact ⟨step.1, rfl, rfl⟩

end Stop

end LyricScore
