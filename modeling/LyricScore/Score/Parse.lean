import LyricScore.Manuscript.Basic
import LyricScore.Score.LyricDraft
import LyricScore.Score.PitchDraft
import LyricScore.Token.Scan

/-
  This file defines the score that a text is.

  Key definitions include:
    * `titleText`
    * `Block.ofStanza`
    * `Score.ofManuscript`
    * `Score.ofTokens`
    * `Score.parse`
    * `Score.remarks`
-/

namespace LyricScore

------------------------------------------------------------
-- Scores of manuscripts
------------------------------------------------------------

/-
  A title line as text: its tokens, with one space for the
  white space between two of them.
-/
def titleText : List Token → String
  | [] => ""
  | [t] => t.text
  | t :: u :: rest =>
    t.text ++ (if u.AdjacentTo t then "" else " ") ++
      titleText (u :: rest)

/- A stanza as a block with one line of each sort. -/
def Block.ofStanza
    (s : Stanza) : Block :=
  ⟨[.ofUnits s.lyrics], [.ofUnits s.pitches]⟩

namespace Score

/- A manuscript as a score. -/
def ofManuscript
    (m : Manuscript) : Score :=
  ⟨m.title.map titleText, m.stanzas.map Block.ofStanza⟩

------------------------------------------------------------
-- Reading
------------------------------------------------------------

/- The score that a list of tokens is. -/
def ofTokens
    (ts : List Token) : Except ScoreError Score :=
  match Manuscript.read ts with
  | .error s => .error s.error
  | .ok m => .ok (ofManuscript m)

/- The score that a text is. -/
def parse
    (text : String) : Except ScoreError Score :=
  ofTokens (tokenize text)

/- A text that is a score was read as a manuscript. -/
theorem exists_manuscript
    {text : String}
    {score : Score}
    (hParse : parse text = .ok score) :
    ∃ m,
      Manuscript.read (tokenize text) = .ok m ∧
        score = ofManuscript m := by
  unfold parse ofTokens at hParse
  cases hRead : Manuscript.read (tokenize text) with
  | error s =>
      rw [hRead] at hParse
      cases hParse
  | ok m =>
      rw [hRead] at hParse
      cases hParse
      exact ⟨m, rfl, rfl⟩

/- What is remarked while a text is read, in order. -/
def remarks
    (text : String) : List Remark :=
  match Manuscript.read (tokenize text) with
  | .error s => s.remarks
  | .ok m => m.remarks

end Score

end LyricScore
