import LyricScore.Manuscript.LyricUnit

/-
  This file defines manuscripts: scores as they are written.
  A manuscript has the lines of its title, as tokens, and
  stanzas; a stanza has written lyric lines and written pitch
  lines, as units.  Empty lines separate these paragraphs.

  Key definitions include:
    * `Stanza`
    * `Manuscript`
    * `readTitle`
    * `readStanza`
    * `readStanzas`
    * `Manuscript.read`
    * `Manuscript.remarks`
-/

namespace LyricScore

------------------------------------------------------------
-- Manuscripts
------------------------------------------------------------

/- The written lines of one block. -/
structure Stanza where
  lyrics : List (List LyricUnit)
  pitches : List (List PitchUnit)
deriving DecidableEq, Repr

namespace Stanza

/- What is remarked about a stanza. -/
def remarks
    (s : Stanza) : List Remark :=
  s.lyrics.flatten.flatMap LyricUnit.remarks ++
    s.pitches.flatten.flatMap PitchUnit.remarks

end Stanza

/- A score as it is written. -/
structure Manuscript where
  title : List (List Token) := []
  stanzas : List Stanza := []
deriving DecidableEq, Repr

namespace Manuscript

/- What is remarked about a manuscript. -/
def remarks
    (m : Manuscript) : List Remark :=
  m.stanzas.flatMap Stanza.remarks

end Manuscript

------------------------------------------------------------
-- Paragraphs
------------------------------------------------------------

/- A token that ends a line. -/
def Token.isNewline
    (t : Token) : Bool :=
  t.kind = .newline

/-
  The lines of the title up to an empty line, and what
  follows that line.
-/
def readTitle
    (ts : List Token) : List (List Token) × List Token :=
  match ts with
  | [] => ([], [])
  | t :: rest =>
    if t.isNewline then
      if atNewline rest then ([], rest) else readTitle rest
    else
      let (lines, after) :=
        readTitle (rest.dropWhile fun u => !u.isNewline)
      ((t :: rest.takeWhile fun u => !u.isNewline) :: lines,
        after)
termination_by ts.length
decreasing_by
  · simp
  · exact Nat.lt_succ_of_le (List.dropWhile_sublist _).length_le

/- The stanza at the head of some tokens. -/
def readStanza
    (fin : Token)
    (ts : List Token) : Except Stop (Stanza × List Token) :=
  match readLyricLines fin ts with
  | .error s => .error s
  | .ok (lyrics, rest) =>
    match readPitchLines fin rest with
    | .error s =>
        .error
          (s.after
            (lyrics.flatten.flatMap LyricUnit.remarks))
    | .ok (pitches, after) => .ok (⟨lyrics, pitches⟩, after)

/- Pitch lines never put tokens back. -/
theorem length_readPitchLines_le
    {fin : Token}
    {ts rest : List Token}
    {lines : List (List PitchUnit)}
    (h : readPitchLines fin ts = .ok (lines, rest)) :
    rest.length ≤ ts.length := by
  induction ts using readPitchLines.induct fin generalizing
    lines with
  | case1 =>
    rw [readPitchLines] at h
    cases h
    exact Nat.le_refl _
  | case2 t us ht hn =>
    rw [readPitchLines, dif_pos ht, if_pos hn] at h
    cases h
    exact Nat.le_refl _
  | case3 t us ht hn ih =>
    rw [readPitchLines, dif_pos ht, if_neg hn] at h
    have := ih h
    simp only [List.length_cons]
    omega
  | case4 t us ht s hs =>
    rw [readPitchLines, dif_neg ht, hs] at h
    cases h
  | case5 t us ht units after hu ih =>
    rw [readPitchLines, dif_neg ht, hu] at h
    rcases Stop.prepend_eq_ok h with ⟨others, hOthers, rfl⟩
    have h1 := ih hOthers
    have h2 := length_readPitchLine_lt ht hu
    omega

/-
  A stanza that does not start with a
  line end takes a token.
-/
theorem length_readStanza_lt
    {fin t : Token}
    {ts rest : List Token}
    {stanza : Stanza}
    (ht : t.kind ≠ .newline)
    (h : readStanza fin (t :: ts) = .ok (stanza, rest)) :
    rest.length < (t :: ts).length := by
  unfold readStanza at h
  cases hLyrics : readLyricLines fin (t :: ts) with
  | error s =>
      rw [hLyrics] at h
      cases h
  | ok step =>
      simp only [hLyrics] at h
      cases hPitches : readPitchLines fin step.2 with
      | error s =>
          rw [hPitches] at h
          cases h
      | ok step' =>
          rw [hPitches] at h
          cases h
          exact Nat.lt_of_le_of_lt
            (length_readPitchLines_le hPitches)
            (length_readLyricLines_lt ht hLyrics)

/- The stanzas that some tokens are. -/
def readStanzas
    (fin : Token)
    (ts : List Token) : Except Stop (List Stanza) :=
  match ts with
  | [] => .ok []
  | t :: rest =>
    if _ht : t.kind = .newline then readStanzas fin rest
    else
      match _h : readStanza fin (t :: rest) with
      | .error s => .error s
      | .ok (stanza, after) =>
        match readStanzas fin after with
        | .error s => .error (s.after stanza.remarks)
        | .ok stanzas => .ok (stanza :: stanzas)
termination_by ts.length
decreasing_by
  · simp
  · exact length_readStanza_lt _ht _h

------------------------------------------------------------
-- Reading
------------------------------------------------------------

namespace Manuscript

/-
  The manuscript that some tokens before the closing
  token `fin` are: the first paragraph is the title,
  and the others are stanzas.
-/
def ofBody
    (fin : Token)
    (ts : List Token) : Except Stop Manuscript :=
  match ts.dropWhile Token.isNewline with
  | [] => .ok {}
  | t :: rest =>
    let (title, after) := readTitle (t :: rest)
    match readStanzas fin after with
    | .error s => .error s
    | .ok stanzas => .ok ⟨title, stanzas⟩

/- A token that closes a text. -/
def closes
    (t : Token) : Bool :=
  t.kind = .endOfText

/-
  The manuscript that a list of tokens is.  The list ends with
  a closing token, and its first closing token ends the text.
-/
def read
    (ts : List Token) : Except Stop Manuscript :=
  match ts.find? closes with
  | some fin =>
    if ts.getLast?.any closes then
      ofBody fin (ts.takeWhile fun t => !closes t)
    else .error ⟨.unterminated, []⟩
  | none => .error ⟨.unterminated, []⟩

end Manuscript

end LyricScore
