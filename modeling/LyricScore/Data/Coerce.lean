import LyricScore.Data.Basic
import LyricScore.Data.Real
import LyricScore.Text.Blank
import LyricScore.Text.Numeral

/-
  This file defines how data are taken for values of a fixed
  type.  A whole number may be written as a number, as a truth
  value or as text; so may a floating-point number; a text is
  text only.

  How settings are taken from data is not for this library to
  say.  All that is assumed of it is a `Coercion`; the lax
  one is a coercion.

  Key definitions include:
    * `Complaint`
    * `Complaint.code`
    * `Data.toInteger`
    * `Data.toReal`
    * `Data.toText`
    * `Data.toBool`
    * `Coercion`
    * `Coercion.lax`
-/

namespace LyricScore

------------------------------------------------------------
-- Complaints
------------------------------------------------------------

/- Why a value is not acceptable. -/
inductive Complaint where
  | realText
  | realType
  | integerFraction
  | integerText
  | integerSize
  | integerType
  | infinite
  | textType
  | boolText
  | boolType
  | notAbove
  | below
  | above
  | unknownValue
  | notAMapping
deriving DecidableEq, Repr

namespace Complaint

/- The word for a complaint. -/
def code : Complaint → String
  | realText => "float_parsing"
  | realType => "float_type"
  | integerFraction => "int_from_float"
  | integerText => "int_parsing"
  | integerSize => "int_parsing_size"
  | integerType => "int_type"
  | infinite => "finite_number"
  | textType => "string_type"
  | boolText => "bool_parsing"
  | boolType => "bool_type"
  | notAbove => "greater_than"
  | below => "greater_than_equal"
  | above => "less_than_equal"
  | unknownValue => "value_error"
  | notAMapping => "model_type"

end Complaint

------------------------------------------------------------
-- Numbers in text
------------------------------------------------------------

namespace DecimalText

/-
  A text without its underscores, each of which has to stand
  between two other characters.
-/
def joinGroups : List Char → Option (List Char)
  | [] => some []
  | ['_'] => none
  | [c] => some [c]
  | c :: d :: rest =>
    if c = '_' then none
    else if d = '_' then
      match rest with
      | [] => none
      | _ :: _ => (joinGroups rest).map (c :: ·)
    else (joinGroups (d :: rest)).map (c :: ·)

/-
  A whole number that digits `0` to `9` write, at least one.
-/
def natural?
    (cs : List Char) : Option Nat :=
  if cs ≠ [] ∧ cs.all DecimalDigit.isAscii then
    some (DecimalDigit.number (DecimalDigit.leading cs))
  else none

/-
  A whole number: a sign, digits, and perhaps a point that
  nothing but zeros follow.
-/
def integer?
    (cs : List Char) : Option Int :=
  let (minus, body) := Numeral.takeSign cs
  let whole := body.takeWhile (· ≠ '.')
  let zeros := (body.dropWhile (· ≠ '.')).tail
  if zeros.all (· = '0') then
    (joinGroups whole >>= natural?).map fun n =>
      if minus then -(n : Int) else n
  else none

/- The exponent that follows the digits of a number. -/
def exponent? : List Char → Option Int
  | [] => some 0
  | e :: rest =>
    if e = 'e' ∨ e = 'E' then
      let (minus, digits) := Numeral.takeSign rest
      (natural? digits).map fun n =>
        if minus then -(n : Int) else n
    else none

/- A floating-point number without a sign. -/
def magnitude?
    (cs : List Char) : Option Float :=
  let word := cs.map Char.toLower
  if word = "inf".toList ∨ word = "infinity".toList then
    some (1.0 / 0.0)
  else if word = "nan".toList then some (0.0 / 0.0)
  else
    let whole := cs.takeWhile DecimalDigit.isAscii
    let rest := cs.dropWhile DecimalDigit.isAscii
    let (fraction, rest) :=
      match rest with
      | '.' :: more =>
          (more.takeWhile DecimalDigit.isAscii,
            more.dropWhile DecimalDigit.isAscii)
      | _ => ([], rest)
    if whole = [] ∧ fraction = [] then none
    else
      (exponent? rest).map fun e =>
        scaled
          (DecimalDigit.number
            (DecimalDigit.leading (whole ++ fraction)))
          (e - fraction.length)
where
  /-
    A number times a power of ten.  A power that no finite
    number comes near makes zero or infinity at once.
  -/
  scaled
      (n : Nat)
      (e : Int) : Float :=
    if n = 0 then 0.0
    else if e > 400 then 1.0 / 0.0
    else if e + (toString n).length < -400 then 0.0
    else Float.ofScientific n (e < 0) e.natAbs

/- A floating-point number. -/
def real?
    (cs : List Char) : Option Float :=
  let (minus, body) := Numeral.takeSign cs
  (magnitude? body).map fun x => if minus then -x else x

end DecimalText

------------------------------------------------------------
-- Values
------------------------------------------------------------

namespace Data

/- The whole number that a floating-point number is. -/
def integerOfReal
    (x : Float) : Except Complaint Int :=
  if x.isNaN || x.isInf then .error .infinite
  else if x.floor != x then .error .integerFraction
  else if x.abs < 9223372036854775808.0 then
    .ok x.toInt64.toInt
  else .error .integerSize

/- The whole number that a text writes. -/
def integerOfText
    (text : String) : Except Complaint Int :=
  let cs := Blank.trim text.toList
  if cs.length > Numeral.digitLimit then .error .integerSize
  else
    match DecimalText.integer? cs with
    | some n => .ok n
    | none => .error .integerText

/- A value as a whole number. -/
def toInteger : Data → Except Complaint Int
  | integer n => .ok n
  | bool b => .ok (if b then 1 else 0)
  | real x => integerOfReal x
  | text s => integerOfText s
  | _ => .error .integerType

/- The floating-point number that a text writes. -/
def realOfText
    (text : String) : Except Complaint Float :=
  match DecimalText.real? (Blank.trim text.toList) with
  | some x => .ok x
  | none =>
    match DecimalText.joinGroups text.toList >>=
        DecimalText.real? with
    | some x => .ok x
    | none => .error .realText

/- A value as a floating-point number. -/
def toReal : Data → Except Complaint Float
  | real x => .ok x
  | bool b => .ok (if b then 1.0 else 0.0)
  | integer n =>
    match Real64.ofInt? n with
    | some x => .ok x
    | none => .error .realType
  | text s => realOfText s
  | _ => .error .realType

/- A value as a text. -/
def toText : Data → Except Complaint String
  | text s => .ok s
  | _ => .error .textType

/- The words for the two truth values. -/
def boolWords : List (String × Bool) :=
  [("0", false), ("off", false), ("f", false),
    ("false", false), ("n", false), ("no", false),
    ("1", true), ("on", true), ("t", true), ("true", true),
    ("y", true), ("yes", true)]

/- A value as a truth value. -/
def toBool : Data → Except Complaint Bool
  | bool b => .ok b
  | integer n =>
    if n = 0 then .ok false
    else if n = 1 then .ok true
    else .error .boolText
  | real x =>
    if x == 0.0 then .ok false
    else if x == 1.0 then .ok true
    else .error .boolType
  | text s =>
    match boolWords.lookup
        (String.ofList (s.toList.map Char.toLower)) with
    | some b => .ok b
    | none => .error .boolText
  | _ => .error .boolType

end Data

------------------------------------------------------------
-- Coercions
------------------------------------------------------------

/-
  How data are taken for numbers and texts.  Nothing
  else is assumed of what checks settings, and
  nothing of how it does this.
-/
structure Coercion where
  toReal : Data → Except Complaint Float
  toInteger : Data → Except Complaint Int
  toText : Data → Except Complaint String

/-
  The coercion that takes numbers from texts
  and truth values too.
-/
def Coercion.lax : Coercion where
  toReal := Data.toReal
  toInteger := Data.toInteger
  toText := Data.toText

end LyricScore
