import LyricScore.Files.Path
import LyricScore.Text.Numeral

/-
  This file defines what the arguments of a command line ask
  for.  The name of an option may be cut short as long as no
  other starts like it, and its value may follow it after an
  equals sign or as the next argument.  Where an option is
  given twice, the last value holds.

  Key definitions include:
    * `Flag`
    * `Word`
    * `Word.ofText?`
    * `Options`
    * `Halt`
    * `Options.read`
-/

namespace LyricScore

------------------------------------------------------------
-- Flags
------------------------------------------------------------

/- The options. -/
inductive Flag where
  | help
  | transport
  | portNumber
  | debug
  | config
  | compile
  | output
deriving DecidableEq, Repr

namespace Flag

/- Every option. -/
def all : List Flag :=
  [help, transport, portNumber, debug, config, compile, output]

/- The name of an option. -/
def name : Flag → String
  | help => "--help"
  | transport => "--transport"
  | portNumber => "--port"
  | debug => "--debug"
  | config => "--config"
  | compile => "--compile"
  | output => "--output"

/-
  The options that a name may stand for: the one it names,
  or those that start so.
-/
def named
    (name : List Char) : List Flag :=
  match all.filter fun f => f.name.toList = name with
  | [] => all.filter fun f => name.isPrefixOf f.name.toList
  | exact => exact

end Flag

------------------------------------------------------------
-- Words
------------------------------------------------------------

/-
  What an argument is taken for: a value, an option with or
  without a value of its own, an option that is not known, or
  the separator behind which there are values only.
-/
inductive Word where
  | value (text : String)
  | option (flag : Flag) (given : Option String)
  | unknown
  | separator
deriving DecidableEq, Repr

namespace Word

/- A number with a minus, which is a value and no option. -/
def isNegativeNumber
    (cs : List Char) : Bool :=
  match cs with
  | '-' :: body =>
    let whole := body.takeWhile DecimalDigit.isDigit
    match body.dropWhile DecimalDigit.isDigit with
    | [] => whole ≠ []
    | '.' :: digits =>
        digits ≠ [] && digits.all DecimalDigit.isDigit
    | _ => false
  | _ => false

/- An argument that starts like an option and names none. -/
def ofOther
    (text : String) : Word :=
  if isNegativeNumber text.toList ||
      text.toList.contains ' ' then
    .value text
  else .unknown

/- What follows the first equals sign, if there is one. -/
def givenValue
    (cs : List Char) : Option String :=
  match cs.dropWhile (· ≠ '=') with
  | _ :: given => some (String.ofList given)
  | [] => none

/-
  What an argument is taken for; nothing if
  several options start so.
-/
def ofText?
    (text : String) : Option Word :=
  match text.toList with
  | '-' :: '-' :: rest =>
    let name := '-' :: '-' :: rest.takeWhile (· ≠ '=')
    match Flag.named name with
    | [flag] => some (.option flag (givenValue rest))
    | [] => some (ofOther text)
    | _ => none
  | '-' :: 'h' :: '=' :: given =>
      some (.option .help (some (String.ofList given)))
  | '-' :: 'h' :: _ => some (.option .help none)
  | '-' :: _ :: _ => some (ofOther text)
  | _ => some (.value text)

/- What arguments are taken for. -/
def ofTexts? : List String → Option (List Word)
  | [] => some []
  | text :: rest =>
    if text = "--" then some (.separator :: rest.map .value)
    else do
      let word ← ofText? text
      let words ← ofTexts? rest
      return word :: words

end Word

------------------------------------------------------------
-- Options
------------------------------------------------------------

/- How a server is reached. -/
inductive Transport where
  | stdio
  | http
deriving DecidableEq, Repr

namespace Transport

/- The transport that a word is for. -/
def ofName?
    (word : String) : Option Transport :=
  if word = "stdio" then some stdio
  else if word = "http" then some http
  else none

end Transport

/- What arguments ask for. -/
structure Options where
  transport : Transport := .stdio
  portNumber : Int := 8000
  debug : Bool := false
  config : Option Path := none
  compile : Option Path := none
  output : Option Path := none
deriving DecidableEq, Repr

/-
  Why nothing is done: help is asked for, or
  the arguments are none.
-/
inductive Halt where
  | help
  | misuse
deriving DecidableEq, Repr

namespace Options

/- Take an option without a value. -/
def raise
    (o : Options) : Flag → Except Halt Options
  | .help => .error .help
  | .debug => .ok { o with debug := true }
  | _ => .error .misuse

/- Take an option with a value. -/
def set
    (o : Options)
    (value : String) : Flag → Except Halt Options
  | .help | .debug => .error .misuse
  | .transport =>
    match Transport.ofName? value with
    | some t => .ok { o with transport := t }
    | none => .error .misuse
  | .portNumber =>
    match Numeral.read value with
    | .ok n => .ok { o with portNumber := n }
    | .error _ => .error .misuse
  | .config => .ok { o with config := some (.ofText value) }
  | .compile => .ok { o with compile := some (.ofText value) }
  | .output => .ok { o with output := some (.ofText value) }

/-
  Take words in turn.  Words that are not asked for are only
  complained about at the end.
-/
def take
    (o : Options)
    (excess : Bool) : List Word → Except Halt Options
  | [] => if excess then .error .misuse else .ok o
  | .option flag (some value) :: words => do
    let o ← o.set value flag
    o.take excess words
  | [.option flag none] => do
    let o ← o.raise flag
    o.take excess []
  | .option flag none :: word :: words =>
    match flag, word with
    | .help, _ | .debug, _ => do
      let o ← o.raise flag
      o.take excess (word :: words)
    | _, .value text => do
      let o ← o.set text flag
      o.take excess words
    | _, _ => .error .misuse
  | _ :: words => o.take true words

/- What arguments ask for. -/
def read
    (args : List String) : Except Halt Options :=
  match Word.ofTexts? args with
  | some words => take {} false words
  | none => .error .misuse

end Options

end LyricScore
