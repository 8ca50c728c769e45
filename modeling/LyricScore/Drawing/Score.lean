import LyricScore.Drawing.Block

/-
  This file defines how a score is drawn: its title, and its
  blocks one by one.

  Key definitions include:
    * `titleCommands`
    * `ScoreLayout`
    * `Score.layout`
-/

namespace LyricScore

variable {K : Type} [Coordinate K]

/- A line of the title, `index` lines below the first. -/
def titleCommand
    (s : LayoutSettings K)
    (line : String)
    (index : Nat) : DrawCommand K where
  primitive := .text
  x := s.titleX
  y := s.titleTop + Coordinate.nat index * s.titleLineHeight
  text := some line
  font := some s.titleFont
  color := some "black"
  anchor := some "middle"

/- The lines of a title, one below the other. -/
def titleCommands
    (s : LayoutSettings K)
    (lines : List String) : List (DrawCommand K) :=
  lines.zipIdx.map fun (line, i) => titleCommand s line i

/- The drawings of the title and of the blocks. -/
structure ScoreLayout (K : Type) where
  title : List (DrawCommand K)
  blocks : List (BlockLayout K)

/-
  The drawings of blocks, the first of which
  has the index `index`.
-/
def layoutBlocks
    (s : LayoutSettings K)
    (index : Nat) :
      List Block → Except Failure (List (BlockLayout K))
  | [] => .ok []
  | b :: rest => do
    let first ← b.layout s (index : Int)
    let more ← layoutBlocks s (index + 1) rest
    return first :: more

/- The drawing of a score. -/
def Score.layout
    (s : LayoutSettings K)
    (score : Score) : Except Failure (ScoreLayout K) := do
  let blocks ← layoutBlocks s 0 score.blocks
  return ⟨titleCommands s score.title, blocks⟩

end LyricScore
