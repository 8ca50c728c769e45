import LyricScore.Data.Coerce
import LyricScore.Text.Parts

/-
  This file defines what plain scalars of YAML 1.1 mean: a
  scalar without quotes is nothing, a truth value, a date or a
  number if it is written like one, and a text otherwise.

  Key definitions include:
    * `Yaml.bool?`
    * `Yaml.integer?`
    * `Yaml.real?`
    * `Yaml.isDate`
    * `Yaml.scalar`
-/

namespace LyricScore

namespace Yaml

------------------------------------------------------------
-- Words
------------------------------------------------------------

/- The words for no value. -/
def nullWords : List String :=
  ["", "~", "null", "Null", "NULL"]

/- The words for true. -/
def trueWords : List String :=
  ["yes", "Yes", "YES", "true", "True", "TRUE", "on", "On",
    "ON"]

/- The words for false. -/
def falseWords : List String :=
  ["no", "No", "NO", "false", "False", "FALSE", "off",
    "Off", "OFF"]

/- The truth value that a word is. -/
def bool?
    (word : String) : Option Bool :=
  if word ∈ trueWords then some true
  else if word ∈ falseWords then some false
  else none

------------------------------------------------------------
-- Whole numbers
------------------------------------------------------------

/- The value of a digit of a base up to 16. -/
def digit?
    (base : Nat)
    (c : Char) : Option Nat :=
  let d :=
    if '0' ≤ c ∧ c ≤ '9' then c.toNat - '0'.toNat
    else if 'a' ≤ c ∧ c ≤ 'f' then c.toNat - 'a'.toNat + 10
    else if 'A' ≤ c ∧ c ≤ 'F' then c.toNat - 'A'.toNat + 10
    else base
  if d < base then some d else none

/- A text without its underscores. -/
def ungrouped
    (cs : List Char) : List Char :=
  cs.filter (· ≠ '_')

/-
  The number that digits of a base write; underscores may
  stand among them.
-/
def inBase?
    (base : Nat)
    (cs : List Char) : Option Nat :=
  match (ungrouped cs).mapM (digit? base) with
  | some (d :: ds) =>
      some ((d :: ds).foldl (fun n d => base * n + d) 0)
  | _ => none

/- A decimal number whose first digit is in a range. -/
def decimal?
    (least : Char)
    (cs : List Char) : Option Nat :=
  match cs with
  | c :: _ =>
      if least ≤ c ∧ c ≤ '9' then inBase? 10 cs else none
  | [] => none

/- A number of sixtieths: one or two digits, below sixty. -/
def sixtieths? : List Char → Option Nat
  | [c] => digit? 10 c
  | [c, d] => do
    let tens ← digit? 6 c
    let ones ← digit? 10 d
    return 10 * tens + ones
  | _ => none

/- A whole number without a sign. -/
def natural?
    (cs : List Char) : Option Nat :=
  match cs with
  | ['0'] => some 0
  | '0' :: 'b' :: rest => inBase? 2 rest
  | '0' :: 'x' :: rest => inBase? 16 rest
  | '0' :: rest => inBase? 8 rest
  | _ =>
    match partsBetween ':' cs with
    | [part] => decimal? '1' part
    | first :: others => do
      let n ← decimal? '1' first
      let parts ← others.mapM sixtieths?
      return parts.foldl (fun n p => 60 * n + p) n
    | [] => none

/- A whole number. -/
def integer?
    (cs : List Char) : Option Int :=
  let (minus, body) := Numeral.takeSign cs
  (natural? body).map fun n => if minus then -(n : Int) else n

------------------------------------------------------------
-- Floating-point numbers
------------------------------------------------------------

/- A character of a group of digits. -/
def isGrouped
    (c : Char) : Bool :=
  DecimalDigit.isAscii c || c = '_'

/- Nothing, or an exponent, which needs a sign. -/
def isExponent : List Char → Bool
  | [] => true
  | e :: s :: d :: ds =>
    (e = 'e' || e = 'E') && (s = '-' || s = '+') &&
      (d :: ds).all DecimalDigit.isAscii
  | _ => false

/-
  A number with a point.  Without a digit before the point it
  has no sign, and a digit behind the point.
-/
def isDecimal
    (cs : List Char) : Bool :=
  let body := (Numeral.takeSign cs).2
  let signed := body.length < cs.length
  let rest := body.dropWhile isGrouped
  match rest with
  | '.' :: more =>
    isExponent (more.dropWhile isGrouped) &&
      match body with
      | '.' :: _ =>
          !signed && more.head?.any DecimalDigit.isAscii
      | c :: _ => DecimalDigit.isAscii c
      | [] => false
  | _ => false

/-
  The last part of a number of sixtieths:
  below sixty, with a point.
-/
def lastSixtieths?
    (cs : List Char) : Option Float := do
  let whole := cs.takeWhile DecimalDigit.isAscii
  let _ ← sixtieths? whole
  match cs.dropWhile DecimalDigit.isAscii with
  | '.' :: digits =>
    if digits.all isGrouped then
      DecimalText.real? (ungrouped cs)
    else none
  | _ => none

/- A number of sixtieths whose last part has a point. -/
def sexagesimal?
    (cs : List Char) : Option Float :=
  match partsBetween ':' cs with
  | first :: second :: others => do
    let n ← decimal? '0' first
    let between ← (second :: others).dropLast.mapM sixtieths?
    let last ← (second :: others).getLast? >>= lastSixtieths?
    return (n :: between).foldl
          (fun x p => x * 60.0 + Real64.ofNat p) 0.0 *
        60.0 + last
  | _ => none

/- A floating-point number. -/
def real?
    (cs : List Char) : Option Float :=
  let (minus, body) := Numeral.takeSign cs
  let signed (x : Float) : Float := if minus then -x else x
  if String.ofList body ∈ [".inf", ".Inf", ".INF"] then
    some (signed (1.0 / 0.0))
  else if String.ofList cs ∈ [".nan", ".NaN", ".NAN"] then
    some (0.0 / 0.0)
  else if isDecimal cs then DecimalText.real? (ungrouped cs)
  else (sexagesimal? body).map signed

------------------------------------------------------------
-- Scalars
------------------------------------------------------------

/- A date: a year, a month and a day in digits. -/
def isDate
    (cs : List Char) : Bool :=
  let parts := partsBetween '-' cs
  parts.map List.length == [4, 2, 2] &&
    parts.all fun part => part.all DecimalDigit.isAscii

/- What a plain scalar means. -/
def scalar
    (cs : List Char) : Data :=
  let word := String.ofList cs
  if word ∈ nullWords then .null
  else if isDate cs then .other
  else
    match bool? word, integer? cs, real? cs with
    | some b, _, _ => .bool b
    | _, some n, _ => .integer n
    | _, _, some x => .real x
    | _, _, _ => .text word

end Yaml

end LyricScore
