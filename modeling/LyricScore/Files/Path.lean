import LyricScore.Text.Parts

/-
  This file defines paths of files.  A path is kept as the
  names that it leads through: slashes that are doubled or at
  the end do not count, and neither does the name `.`, while
  the name `..` is kept because what it leads to depends on
  the folders.

  Key definitions include:
    * `Path`
    * `Path.ofText`
    * `Path.text`
    * `Path.name?`
    * `Path.withSuffix?`
    * `Path.parent`
    * `Path.join`
-/

namespace LyricScore

------------------------------------------------------------
-- Paths
------------------------------------------------------------

/-
  The slashes that a path starts with, and the names that it
  leads through.  One slash is the root, as are three or more;
  two are kept as they are.
-/
structure Path where
  root : String := ""
  names : List String
deriving DecidableEq, Repr

namespace Path

/- The slashes that count of those at the start of a text. -/
def rootOf
    (slashes : Nat) : String :=
  if slashes = 0 then ""
  else if slashes = 2 then "//"
  else "/"

/- A part of a text that counts as a name. -/
def isName
    (part : List Char) : Bool :=
  part ≠ [] && part ≠ ['.']

/- The path that a text writes. -/
def ofText
    (text : String) : Path where
  root := rootOf (text.toList.takeWhile (· = '/')).length
  names :=
    ((partsBetween '/' text.toList).filter isName).map
      String.ofList

/- The text of a path; the path without names is the point. -/
def text
    (p : Path) : String :=
  if p.root = "" ∧ p.names = [] then "."
  else p.root ++ "/".intercalate p.names

/- A path from the root, which does not depend on a folder. -/
def IsAbsolute
    (p : Path) : Prop :=
  p.root ≠ ""

instance
    (p : Path) :
    Decidable p.IsAbsolute := by
  unfold IsAbsolute
  infer_instance

------------------------------------------------------------
-- Parts of a path
------------------------------------------------------------

/- The name of the file that a path leads to. -/
def name?
    (p : Path) : Option String :=
  p.names.getLast?

/- The path of the folder that a path leads through last. -/
def parent
    (p : Path) : Path :=
  { p with names := p.names.dropLast }

/- A path that goes on from another. -/
def join
    (p q : Path) : Path :=
  if q.IsAbsolute then q else
    { p with names := p.names ++ q.names }

/-
  A name without its suffix: the last point and what follows
  it.  A point at either end of a name starts no suffix.
-/
def stem
    (name : List Char) : List Char :=
  let ending := (name.reverse.takeWhile (· ≠ '.')).length
  if ending = 0 ∨ name.length ≤ ending + 1 then name
  else name.take (name.length - (ending + 1))

/-
  A path whose last name has another
  suffix, if there is a name.
-/
def withSuffix?
    (suffix : String)
    (p : Path) : Option Path :=
  p.name?.map fun name =>
    { p with
      names :=
        p.names.dropLast ++
          [String.ofList (stem name.toList) ++ suffix] }

end Path

end LyricScore
