import LyricScore.Drawing.Coordinate

/-
  This file defines drawing commands.  A drawing does not
  depend on what draws it: a command is a text, a line, a
  rectangle or a circle with its place and its style.

  Key definitions include:
    * `Primitive`
    * `DrawCommand`
    * `DrawCommand.moved`
-/

namespace LyricScore

/- What a command draws. -/
inductive Primitive where
  | text
  | line
  | rect
  | circle
deriving DecidableEq, Repr

namespace Primitive

/- Every primitive, once. -/
def all : List Primitive :=
  [text, line, rect, circle]

/- The word for a primitive. -/
def name : Primitive → String
  | text => "text"
  | line => "line"
  | rect => "rect"
  | circle => "circle"

/- The primitive that a word names. -/
def ofName?
    (word : String) : Option Primitive :=
  all.find? fun p => p.name == word

end Primitive

/-
  A command.  A text stands at its place; a line goes from
  its place to (`x2`, `y2`); a rectangle has a width and a
  height; a circle has its center there and the radius `r`.
-/
structure DrawCommand (K : Type) where
  primitive : Primitive
  x : K
  y : K
  x2 : Option K := none
  y2 : Option K := none
  width : Option K := none
  height : Option K := none
  r : Option K := none
  text : Option String := none
  font : Option String := none
  anchor : Option String := none
  color : Option String := none
  stroke : Option String := none
  strokeWidth : Option K := none
  fill : Option String := none
  attributes : List (String × String) := []

namespace DrawCommand

variable {K : Type} [Coordinate K]

/- A command that is moved. -/
def moved
    (c : DrawCommand K)
    (dx dy : K) : DrawCommand K :=
  { c with
    x := c.x + dx
    y := c.y + dy
    x2 := c.x2.map (· + dx)
    y2 := c.y2.map (· + dy) }

end DrawCommand

end LyricScore
