/-
  This file defines the seven note letters.

  Key definitions include:
    * `Letter`
    * `Letter.index`
    * `Letter.semitones`
    * `Letter.name`
    * `Letter.ofChar?`
    * `Letter.ofName?`
-/

namespace LyricScore

/- The note letters, in the order of the scale from C up. -/
inductive Letter where
  | c
  | d
  | e
  | f
  | g
  | a
  | b
deriving DecidableEq, Repr

namespace Letter

/- Every letter, once, in the order of the scale. -/
def all : List Letter :=
  [c, d, e, f, g, a, b]

/- The step of the scale, counted from C. -/
def index : Letter → Nat
  | c => 0
  | d => 1
  | e => 2
  | f => 3
  | g => 4
  | a => 5
  | b => 6

/- How many semitones the natural note lies above C. -/
def semitones : Letter → Nat
  | c => 0
  | d => 2
  | e => 4
  | f => 5
  | g => 7
  | a => 9
  | b => 11

/- The character that stands for a letter. -/
def char : Letter → Char
  | c => 'c'
  | d => 'd'
  | e => 'e'
  | f => 'f'
  | g => 'g'
  | a => 'a'
  | b => 'b'

/- The text that stands for a letter. -/
def name
    (l : Letter) : String :=
  String.ofList [l.char]

/- The letter that a character stands for. -/
def ofChar?
    (x : Char) : Option Letter :=
  all.find? fun l => l.char == x

/- The letter that a text stands for. -/
def ofName?
    (text : String) : Option Letter :=
  match text.toList with
  | [x] => ofChar? x
  | _ => none

/- A letter is read back from its character. -/
theorem ofChar?_char
    (l : Letter) :
    ofChar? l.char = some l := by
  cases l <;> rfl

/-
  A character that is read as a letter is the letter's own.
-/
theorem char_of_ofChar?
    {x : Char}
    {l : Letter}
    (h : ofChar? x = some l) : l.char = x := by
  have := List.find?_some h
  simpa using this

end Letter

end LyricScore
