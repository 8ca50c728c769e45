import LyricScore.Yaml.Scalar

/-
  This file defines the nodes of YAML that are written inside
  of brackets or quotes: texts in single or double quotes,
  lists in brackets and mappings in braces.

  Key definitions include:
    * `Yaml.takeSingle`, `Yaml.takeDouble`
    * `Yaml.canStartPlain`
    * `Yaml.takePlain`
    * `Yaml.Key`
    * `Yaml.flowNode`
-/

namespace LyricScore

namespace Yaml

------------------------------------------------------------
-- Quoted texts
------------------------------------------------------------

/-
  A text with its line ends made spaces, and
  no spaces around them.
-/
def foldLines
    (cs : List Char) : List Char :=
  match cs with
  | [] => []
  | c :: rest =>
    if c = '\n' then
      ' ' ::
        foldLines
          (rest.dropWhile fun d => d = ' ' || d = '\n')
    else if c = ' ' ∧
        (rest.dropWhile (· = ' ')).head? = some '\n' then
      foldLines (rest.dropWhile (· = ' '))
    else c :: foldLines rest
termination_by cs.length
decreasing_by
  · exact Nat.lt_succ_of_le (List.dropWhile_sublist _).length_le
  · exact Nat.lt_succ_of_le (List.dropWhile_sublist _).length_le
  · simp

/-
  What stands before a closing single quote; two of them are
  one character.
-/
def takeSingle : List Char → Option (List Char × List Char)
  | [] => none
  | '\'' :: '\'' :: rest =>
      (takeSingle rest).map fun r => ('\'' :: r.1, r.2)
  | '\'' :: rest => some ([], rest)
  | c :: rest => (takeSingle rest).map fun r => (c :: r.1, r.2)

/- The characters that an escape of one letter stands for. -/
def escapes : List (Char × Char) :=
  [('0', '\x00'), ('a', '\x07'), ('b', '\x08'), ('t', '\t'),
    ('\t', '\t'), ('n', '\n'), ('v', '\x0b'), ('f', '\x0c'),
    ('r', '\r'), ('e', '\x1b'), (' ', ' '), ('"', '"'),
    ('\\', '\\'), ('/', '/'), ('N', Char.ofNat 0x85),
    ('_', Char.ofNat 0xA0), ('L', Char.ofNat 0x2028),
    ('P', Char.ofNat 0x2029)]

/-
  How many hexadecimal digits follow the
  letter of an escape.
-/
def escapeWidth? : Char → Option Nat
  | 'x' => some 2
  | 'u' => some 4
  | 'U' => some 8
  | _ => none

/-
  What stands before a closing double
  quote, escapes resolved.
-/
def takeDouble
    (cs : List Char) : Option (List Char × List Char) :=
  match cs with
  | [] => none
  | '"' :: rest => some ([], rest)
  | '\\' :: e :: rest =>
    match escapes.lookup e, escapeWidth? e with
    | some c, _ =>
        (takeDouble rest).map fun r => (c :: r.1, r.2)
    | none, some width => do
      let digits ← (rest.take width).mapM (digit? 16)
      if digits.length < width then none
      else
        let code := digits.foldl (fun n d => 16 * n + d) 0
        (takeDouble (rest.drop width)).map fun r =>
          (Char.ofNat code :: r.1, r.2)
    | none, none => none
  | c :: rest => (takeDouble rest).map fun r => (c :: r.1, r.2)
termination_by cs.length
decreasing_by
  · simp only [List.length_cons]
    omega
  · simp only [List.length_drop, List.length_cons]
    omega
  · simp only [List.length_cons]
    omega

------------------------------------------------------------
-- Plain scalars
------------------------------------------------------------

/- White space of a line. -/
def isSpace
    (c : Char) : Bool :=
  c = ' ' || c = '\t' || c = '\n'

/- The end of a word: nothing more, or white space. -/
def atGap : List Char → Bool
  | [] => true
  | c :: _ => isSpace c

/- The characters that no plain scalar starts with. -/
def indicators : List Char :=
  "-?:,[]\x7b\x7d#&*!|>'\"%@`".toList

/-
  A plain scalar can start here.  A hyphen, and outside of
  brackets a question mark or a colon, may be its first
  character if a word goes on behind it.
-/
def canStartPlain
    (inFlow : Bool) : List Char → Bool
  | [] => false
  | c :: rest =>
    !isSpace c &&
      (!indicators.contains c || !atGap rest &&
        (c = '-' || !inFlow && (c = '?' || c = ':')))

/-
  The characters that end a plain scalar inside of brackets.
-/
def isFlowEnd
    (c : Char) : Bool :=
  ",?[]\x7b\x7d".toList.contains c

/-
  A plain scalar inside of brackets, and what follows it.  A
  colon before a gap or a bracket ends it, and so does a
  number sign behind a space.
-/
def takePlain
    (afterSpace : Bool) : List Char → List Char × List Char
  | [] => ([], [])
  | c :: rest =>
    if isFlowEnd c || c = '\t' || afterSpace && c = '#' then
      ([], c :: rest)
    else if c = ':' ∧
        (atGap rest ∨ rest.head?.any isFlowEnd) then
      ([], c :: rest)
    else
      let (taken, left) := takePlain (c = ' ' || c = '\n') rest
      (c :: taken, left)

/- A text without the spaces at its end. -/
def trimEnd
    (cs : List Char) : List Char :=
  (cs.reverse.dropWhile isSpace).reverse

------------------------------------------------------------
-- Flow nodes
------------------------------------------------------------

/-
  What is known of a key: its text.  A key that is a number or
  a word for another value has none.
-/
abbrev Key :=
  Option String

/- The key that a node is, if it can be one. -/
def key? : Data → Option Key
  | .text s => some (some s)
  | .list _ => none
  | .mapping _ => none
  | _ => some none

/-
  The entries of a mapping with one more;
  without a text it is left out.
-/
def insert
    (key : Key)
    (value : Data)
    (entries : List (String × Data)) : List (String × Data) :=
  match key with
  | some k => Data.insert k value entries
  | none => entries

/- What follows white space, line ends and comments. -/
def skipGap
    (cs : List Char) : List Char :=
  match cs with
  | [] => []
  | c :: rest =>
    if c = ' ' ∨ c = '\n' then skipGap rest
    else if c = '#' then skipGap (rest.dropWhile (· ≠ '\n'))
    else c :: rest
termination_by cs.length
decreasing_by
  · simp
  · exact Nat.lt_succ_of_le (List.dropWhile_sublist _).length_le

mutual

/- A node inside of brackets, and what follows it. -/
def flowNode : Nat → List Char → Option (Data × List Char)
  | 0, _ => none
  | fuel + 1, cs =>
    match cs with
    | '[' :: rest => flowItems fuel [] (skipGap rest)
    | '\x7b' :: rest => flowEntries fuel [] (skipGap rest)
    | '\'' :: rest =>
      (takeSingle rest).map fun r =>
        (.text (String.ofList (foldLines r.1)), r.2)
    | '"' :: rest =>
      (takeDouble rest).map fun r =>
        (.text (String.ofList (foldLines r.1)), r.2)
    | _ =>
      if canStartPlain true cs then
        let (taken, left) := takePlain false cs
        some (scalar (trimEnd (foldLines taken)), left)
      else none
termination_by structural fuel => fuel

/-
  The value behind a colon, or nothing where there is none.
-/
def flowValue : Nat → List Char → Option (Data × List Char)
  | 0, _ => none
  | fuel + 1, cs =>
    match cs with
    | ':' :: rest =>
      let rest := skipGap rest
      if rest.head?.any fun c =>
          c = ',' || c = ']' || c = '\x7d' then
        some (.null, rest)
      else flowNode fuel rest
    | _ => some (.null, cs)
termination_by structural fuel => fuel

/- The items of a list up to its closing bracket. -/
def flowItems :
  Nat → List Data → List Char → Option (Data × List Char)
  | 0, _, _ => none
  | fuel + 1, items, cs =>
    match cs with
    | ']' :: rest => some (.list items, rest)
    | _ => do
      let (node, rest) ← flowNode fuel cs
      let rest := skipGap rest
      let (item, rest) ←
        match rest with
        | ':' :: _ => do
          let key ← key? node
          let (value, rest) ← flowValue fuel rest
          pure (.mapping (insert key value []), skipGap rest)
        | _ => pure (node, rest)
      match rest with
      | ',' :: rest =>
          flowItems fuel (items ++ [item]) (skipGap rest)
      | ']' :: rest => some (.list (items ++ [item]), rest)
      | _ => none
termination_by structural fuel => fuel

/- The entries of a mapping up to its closing brace. -/
def flowEntries :
  Nat →
    List (String × Data) →
    List Char →
    Option (Data × List Char)
  | 0, _, _ => none
  | fuel + 1, entries, cs =>
    match cs with
    | '\x7d' :: rest => some (.mapping entries, rest)
    | _ => do
      let (node, rest) ← flowNode fuel cs
      let key ← key? node
      let (value, rest) ← flowValue fuel (skipGap rest)
      match skipGap rest with
      | ',' :: rest =>
          flowEntries fuel (insert key value entries)
            (skipGap rest)
      | '\x7d' :: rest =>
          some (.mapping (insert key value entries), rest)
      | _ => none
termination_by structural fuel => fuel

end

end Yaml

end LyricScore
