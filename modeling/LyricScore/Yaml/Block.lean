import LyricScore.Text.LineBreak
import LyricScore.Yaml.Flow

/-
  This file defines the nodes of YAML that are written by
  lines and indents, and documents.  Comments, lists,
  mappings, plain and quoted scalars and nodes in brackets are
  read.  That is the plain part of YAML: anchors, tags, merge
  keys, block scalars and times of day are not read.

  Key definitions include:
    * `Yaml.Line`
    * `Yaml.lines?`
    * `Yaml.plainText?`
    * `Yaml.inlineNode`
    * `Yaml.splitKey`
    * `Yaml.blockNode`
    * `Yaml.read`
-/

namespace LyricScore

namespace Yaml

------------------------------------------------------------
-- Lines
------------------------------------------------------------

/-
  A line with something on it: how far it is
  indented, and the rest.
-/
structure Line where
  indent : Nat
  text : List Char
deriving DecidableEq, Repr

/- A line, or nothing if it is empty or a comment. -/
def line?
    (cs : List Char) : Option Line :=
  let text := cs.dropWhile (· = ' ')
  match text with
  | [] => none
  | c :: _ =>
      if c = '#' then none
      else some ⟨cs.length - text.length, text⟩

/- A character that a document may hold. -/
def isPrintable
    (c : Char) : Bool :=
  let n := c.toNat
  n = 0x9 ||
    n = 0xA ||
    n = 0xD ||
    0x20 ≤ n && n ≤ 0x7E ||
    n = 0x85 ||
    0xA0 ≤ n && n ≤ 0xFFFD ||
    0x10000 ≤ n

/-
  A character that ends a line, besides
  those of every text file.
-/
def isOtherBreak
    (c : Char) : Bool :=
  c = '\x85' || c = '\u2028' || c = '\u2029'

/-
  A text without the mark of byte order
  that it may start with.
-/
def unmarked : List Char → List Char
  | [] => []
  | c :: cs => if c = '\ufeff' then cs else c :: cs

/- The lines of a text, none of which starts with a tab. -/
def lines?
    (text : String) : Option (List Line) :=
  let cs := LineBreak.universal (unmarked text.toList)
  let ends := cs.map fun c => if isOtherBreak c then '\n' else c
  let lines := (partsBetween '\n' ends).filterMap line?
  if cs.all isPrintable ∧
      lines.all (fun l => l.text.head? ≠ some '\t') then
    some lines
  else none

------------------------------------------------------------
-- Nodes inside of a line
------------------------------------------------------------

/-
  The part of a plain scalar on one line, and
  whether a comment follows it.  A tab or the colon
  of a key may not stand in it.
-/
def plainText?
    (afterSpace : Bool) : List Char → Option (List Char × Bool)
  | [] => some ([], false)
  | c :: rest =>
    if c = '\t' ∨ c = ':' ∧ atGap rest then none
    else if afterSpace ∧ c = '#' then some ([], true)
    else
      (plainText? (c = ' ') rest).map fun r =>
        (c :: r.1, r.2)

/-
  The lines that go on with a plain scalar: those that are
  indented by `floor` or more.
-/
def continuePlain
    (floor : Nat)
    (text : List Char) :
      List Line → Option (List Char × List Line)
  | [] => some (text, [])
  | l :: more =>
    if l.indent < floor then some (text, l :: more)
    else do
      let (taken, commented) ← plainText? false l.text
      let text := text ++ ' ' :: trimEnd taken
      if commented then some (text, more)
      else continuePlain floor text more

/- A text with the lines that follow it. -/
def joinLines
    (text : List Char)
    (more : List Line) : List Char :=
  text ++ more.flatMap fun l => '\n' :: l.text

/- Nothing but a comment is left of a line. -/
def isBlankRest
    (cs : List Char) : Bool :=
  match cs.dropWhile (· = ' ') with
  | [] => true
  | c :: _ => c = '#'

/-
  The lines behind a node that was read from a text joined
  with lines, when `rest` is left of it.
-/
def linesAfter
    (more : List Line)
    (rest : List Char) : Option (List Line) :=
  if isBlankRest (rest.takeWhile (· ≠ '\n')) then
    some (more.drop (more.length - rest.count '\n'))
  else none

/-
  A node that starts inside of a line, and
  the lines behind it.
-/
def inlineNode
    (floor : Nat)
    (text : List Char)
    (more : List Line) : Option (Data × List Line) :=
  if text.head?.any fun c =>
      "[\x7b'\"".toList.contains c then do
    let joined := joinLines text more
    let (node, rest) ← flowNode (2 * joined.length + 2) joined
    let more ← linesAfter more rest
    return (node, more)
  else if canStartPlain false text then do
    let (taken, commented) ← plainText? false text
    if commented then return (scalar (trimEnd taken), more)
    else
      let (all, more) ← continuePlain floor (trimEnd taken) more
      return (scalar all, more)
  else none

------------------------------------------------------------
-- Keys
------------------------------------------------------------

/-
  What stands before the colon of a key,
  and what follows it.
-/
def splitColon
    (afterSpace : Bool) :
      List Char → Option (List Char × List Char)
  | [] => none
  | c :: rest =>
    if c = ':' ∧ atGap rest then some ([], rest)
    else if c = '\t' ∨ afterSpace ∧ c = '#' then none
    else
      (splitColon (c = ' ') rest).map fun r =>
        (c :: r.1, r.2)

/- What follows the colon behind a quoted key. -/
def afterColon
    (cs : List Char) : Option (List Char) :=
  match cs.dropWhile (· = ' ') with
  | ':' :: rest => if atGap rest then some rest else none
  | _ => none

/-
  The key that a line starts with, and
  what follows its colon.
-/
def splitKey
    (text : List Char) : Option (Key × List Char) :=
  match text with
  | '\'' :: rest => do
    let (key, rest) ← takeSingle rest
    let rest ← afterColon rest
    return (some (String.ofList key), rest)
  | '"' :: rest => do
    let (key, rest) ← takeDouble rest
    let rest ← afterColon rest
    return (some (String.ofList key), rest)
  | _ =>
    if canStartPlain false text then do
      let (key, rest) ← splitColon false text
      let key ← key? (scalar (trimEnd key))
      if key = some "<<" then none else return (key, rest)
    else none

/-
  A line that starts an item of a list:
  what follows the hyphen.
-/
def splitItem : List Char → Option (List Char)
  | '-' :: rest => if atGap rest then some rest else none
  | _ => none

------------------------------------------------------------
-- Nodes by lines
------------------------------------------------------------

mutual

/-
  The node that starts with the first line,
  and the lines behind it.
-/
def blockNode :
  Nat → Nat → List Line → Option (Data × List Line)
  | 0, _, _ => none
  | _ + 1, _, [] => some (.null, [])
  | fuel + 1, floor, l :: more =>
    match splitItem l.text, splitKey l.text with
    | some _, _ => blockItems fuel l.indent [] (l :: more)
    | none, some _ => blockEntries fuel l.indent [] (l :: more)
    | none, none => inlineNode floor l.text more
termination_by structural fuel => fuel

/-
  The items of a list whose hyphens are
  indented by `indent`.
-/
def blockItems :
  Nat →
    Nat →
    List Data →
    List Line →
    Option (Data × List Line)
  | 0, _, _, _ => none
  | _ + 1, _, items, [] => some (.list items, [])
  | fuel + 1, indent, items, l :: more =>
    if l.indent = indent then
      match splitItem l.text with
      | none => some (.list items, l :: more)
      | some rest => do
        let text := rest.dropWhile (· = ' ')
        let (item, more) ←
          if isBlankRest text then
            blockChild fuel indent more
          else
            blockNode fuel (indent + 1)
              (⟨indent + 1 + (rest.length - text.length),
                  text⟩ :: more)
        blockItems fuel indent (items ++ [item]) more
    else if l.indent < indent then some (.list items, l :: more)
    else none
termination_by structural fuel => fuel

/-
  The entries of a mapping whose keys are
  indented by `indent`.
-/
def blockEntries :
    Nat →
      Nat →
      List (String × Data) →
      List Line →
      Option (Data × List Line)
  | 0, _, _, _ => none
  | _ + 1, _, entries, [] => some (.mapping entries, [])
  | fuel + 1, indent, entries, l :: more =>
    if l.indent = indent then do
      let (key, rest) ← splitKey l.text
      let text := rest.dropWhile (· = ' ')
      let (value, more) ←
        if isBlankRest text then
          match more with
          | next :: _ =>
            if next.indent = indent ∧
                (splitItem next.text).isSome then
              blockItems fuel indent [] more
            else blockChild fuel indent more
          | [] => some (.null, [])
        else inlineNode (indent + 1) text more
      blockEntries fuel indent (insert key value entries) more
    else if l.indent < indent then
      some (.mapping entries, l :: more)
    else none
termination_by structural fuel => fuel

/-
  The node on the lines below a key or a
  hyphen, if there is one.
-/
def blockChild :
  Nat → Nat → List Line → Option (Data × List Line)
  | 0, _, _ => none
  | _ + 1, _, [] => some (.null, [])
  | fuel + 1, indent, l :: more =>
    if indent < l.indent then
      blockNode fuel (indent + 1) (l :: more)
    else some (.null, l :: more)
termination_by structural fuel => fuel

end

------------------------------------------------------------
-- Documents
------------------------------------------------------------

/- A line that is a mark between documents. -/
def isMark
    (mark : String)
    (l : Line) : Bool :=
  l.indent = 0 &&
    mark.toList.isPrefixOf l.text &&
    atGap (l.text.drop 3)

/- The lines behind the mark that may start a document. -/
def skipStart : List Line → List Line
  | [] => []
  | l :: more =>
    if isMark "---" l then
      let text := (l.text.drop 3).dropWhile (· = ' ')
      if isBlankRest text then more else ⟨4, text⟩ :: more
    else l :: more

/- The value that a text with one document is. -/
def read
    (text : String) : Option Data := do
  let lines ← lines? text
  let body :=
    (skipStart lines).takeWhile fun l => !isMark "..." l
  let rest :=
    (skipStart lines).dropWhile fun l => !isMark "..." l
  if body.any (isMark "---") ∨ !rest.all (isMark "...") then
    none
  else
    let (node, left) ← blockNode (4 * text.length + 4) 0 body
    if left = [] then some node else none

end Yaml

end LyricScore
