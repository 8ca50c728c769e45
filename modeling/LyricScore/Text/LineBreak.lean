/-
  This file defines the two ways in which line ends are made
  alike.  A score reader takes a carriage return with a line
  feed for one line feed and leaves a lone carriage return
  alone; a text file reader takes a lone carriage return for
  a line feed too.

  Key definitions include:
    * `LineBreak.joinPairs`
    * `LineBreak.universal`
-/

namespace LyricScore

namespace LineBreak

------------------------------------------------------------
-- Line ends
------------------------------------------------------------

/-
  Every carriage return with a line feed
  becomes a line feed.
-/
def joinPairs : List Char → List Char
  | [] => []
  | [c] => [c]
  | c :: d :: rest =>
    if c = '\r' ∧ d = '\n' then '\n' :: joinPairs rest
    else c :: joinPairs (d :: rest)

/-
  Every carriage return, with or without a line
  feed, becomes a line feed.
-/
def universal : List Char → List Char
  | [] => []
  | [c] => if c = '\r' then ['\n'] else [c]
  | c :: d :: rest =>
    if c = '\r' ∧ d = '\n' then '\n' :: universal rest
    else if c = '\r' then '\n' :: universal (d :: rest)
    else c :: universal (d :: rest)

end LineBreak

end LyricScore
