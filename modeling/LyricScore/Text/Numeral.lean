import LyricScore.Text.Blank
import LyricScore.Text.DecimalDigit
import LyricScore.Text.Quoted

/-
  This file defines how whole numbers are read from text and
  written as text.  A number of more than
  `Numeral.digitLimit` digits is neither read nor written.

  Key definitions include:
    * `NumeralError`
    * `NumeralError.message`
    * `Numeral.ofDigits`
    * `Numeral.read`
    * `Numeral.write`
-/

namespace LyricScore

------------------------------------------------------------
-- Errors
------------------------------------------------------------

/- The reasons why a number is not read or not written. -/
inductive NumeralError where
  | tooLongToRead (digits : Nat)
  | tooLongToWrite
  | notANumeral (text : String)
deriving DecidableEq, Repr

namespace Numeral

/- The greatest count of digits of a number that is text. -/
def digitLimit : Nat := 4300

end Numeral

namespace NumeralError

/-
  What is said of a number over the limit,
  and what may be done.
-/
def overLimit : String :=
  "Exceeds the limit (" ++ toString Numeral.digitLimit ++
    " digits) for integer string conversion"

/- See `overLimit`. -/
def remedy : String :=
  "; use sys.set_int_max_str_digits() to increase the limit"

/-
  The wording of an error.  Of a text that is no numeral at
  most 200 characters of its quoted form are shown.
-/
def message : NumeralError → String
  | tooLongToRead digits =>
    overLimit ++ ": value has " ++ toString digits ++
      " digits" ++ remedy
  | tooLongToWrite => overLimit ++ remedy
  | notANumeral text =>
    "invalid literal for int() with base 10: " ++
      String.ofList ((Quoted.quote text).toList.take 200)

end NumeralError

namespace Numeral

------------------------------------------------------------
-- Reading
------------------------------------------------------------

/-
  The number that digits write, in any script.  Leading
  zeros count towards the limit.
-/
def ofDigits
    (digits : List Nat) : Except NumeralError Nat :=
  if digits.length > digitLimit then
    .error (.tooLongToRead digits.length)
  else .ok (DecimalDigit.number digits)

/- A leading sign, and whether it is a minus. -/
def takeSign : List Char → Bool × List Char
  | '-' :: rest => (true, rest)
  | '+' :: rest => (false, rest)
  | rest => (false, rest)

/-
  The digit values at the head of a text and what follows
  them.  A single underscore may stand between two digits;
  one that stands elsewhere makes the whole no numeral.
-/
def takeDigits
    (afterDigit : Bool) :
      List Char → Option (List Nat × List Char)
  | [] => some ([], [])
  | c :: rest =>
    match DecimalDigit.value? c with
    | some d =>
        (takeDigits true rest).map fun r => (d :: r.1, r.2)
    | none =>
      if c = '_' then
        match rest with
        | next :: _ =>
          if afterDigit && DecimalDigit.isDigit next then
            takeDigits false rest
          else none
        | [] => none
      else some ([], c :: rest)

/-
  A whole number: blanks, an optional sign, digits, blanks.
  The limit is checked before what follows the digits.
-/
def read
    (text : String) : Except NumeralError Int :=
  let (minus, body) := takeSign (Blank.trimStart text.toList)
  match takeDigits false body with
  | none | some ([], _) => .error (.notANumeral text)
  | some (digits, rest) => do
    let n ← ofDigits digits
    if rest.all Blank.isBlank then
      .ok (if minus then -(n : Int) else n)
    else .error (.notANumeral text)

------------------------------------------------------------
-- Writing
------------------------------------------------------------

/- A number whose text keeps to the limit. -/
def Writable
    (n : Int) : Prop :=
  n.natAbs < Nat.pow 10 digitLimit

instance
    (n : Int) :
    Decidable (Writable n) := by
  unfold Writable
  infer_instance

/- The decimal text of a number. -/
def write
    (n : Int) : Except NumeralError String :=
  if Writable n then .ok (toString n)
  else .error .tooLongToWrite

end Numeral

end LyricScore
