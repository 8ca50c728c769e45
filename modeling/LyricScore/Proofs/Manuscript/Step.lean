import LyricScore.Manuscript.Basic

/-
  This file states one step of every reader that goes through
  tokens: what it makes of an empty list, of a line end and of
  the next unit.  Proofs about readers rest on these steps and
  do not open the readers.

  Key definitions include:
    * `Stop.andThen`

  Key theorems include:
    * `readEntries_cons`, `readChordEntries_cons`
    * `readLyricLine_cons`, `readPitchLine_cons`
    * `readLyricLines_cons`, `readPitchLines_cons`
    * `readTitle_cons`, `readStanzas_cons`
    * `Manuscript.read_append`
-/

namespace LyricScore

------------------------------------------------------------
-- One unit before others
------------------------------------------------------------

/-
  Read a unit, and then the others behind it.  If the unit
  cannot be read, nothing else is.
-/
def Stop.andThen
    {α β : Type}
    (unit : Except Stop (α × List Token))
    (remarks : α → List Remark)
    (others : α → List Token → Except Stop (List α × β)) :
    Except Stop (List α × β) :=
  match unit with
  | .error s => .error s
  | .ok (a, after) => prepend a (remarks a) (others a after)

/- A stop without remarks. -/
def Stop.ofError
    (e : ScoreError) : Stop :=
  ⟨e, []⟩

variable (fin t : Token)
variable (rest : List Token)

------------------------------------------------------------
-- Groups and chords
------------------------------------------------------------

/-
  An entry of brackets is read before the others, up to the
  token that closes them.
-/
theorem readEntries_cons :
    readEntries fin (t :: rest) =
      if t.kind = .closeBracket then .ok ([], t, rest)
      else
        Stop.andThen
          ((readEntry fin t rest).mapError Stop.ofError)
          BracketEntry.remarks fun _ after =>
          readEntries fin after := by
  rw [readEntries]
  split
  · rfl
  · split <;> simp only [*] <;> rfl

/- A group starts with the token that opens it. -/
theorem readGroup_opening
    {fin opening : Token}
    {ts rest : List Token}
    {g : BracketGroup}
    (hGroup : readGroup fin opening ts = .ok (g, rest)) :
    g.opening = opening := by
  unfold readGroup at hGroup
  split at hGroup
  · cases hGroup
  · cases hGroup
    rfl

theorem readChordEntries_cons :
    readChordEntries fin (t :: rest) =
      if t.kind = .closeParenthesis then .ok ([], t, rest)
      else
        Stop.andThen
          ((readChordEntry fin (t :: rest)).mapError
            Stop.ofError) ChordEntry.remarks fun _ after =>
          readChordEntries fin after := by
  rw [readChordEntries]
  split
  · rfl
  · split <;> simp only [*] <;> rfl

------------------------------------------------------------
-- Written lines
------------------------------------------------------------

/-
  A unit of a lyric line is read before the others, up to
  the line end.
-/
theorem readLyricLine_cons :
    readLyricLine fin (t :: rest) =
      if t.kind = .newline then .ok ([], t :: rest)
      else
        Stop.andThen (readLyricUnit fin t rest)
          LyricUnit.remarks fun _ after =>
          readLyricLine fin after := by
  rw [readLyricLine]
  split
  · rfl
  · split <;> simp only [*] <;> rfl

theorem readPitchLine_cons :
    readPitchLine fin (t :: rest) =
      if t.kind = .newline then .ok ([], t :: rest)
      else
        Stop.andThen (readPitchUnit fin t rest)
          PitchUnit.remarks fun _ after =>
          readPitchLine fin after := by
  rw [readPitchLine]
  split
  · rfl
  · split <;> simp only [*] <;> rfl

/-
  A lyric line is read before the others, up to a barline or
  an empty line.
-/
theorem readLyricLines_cons :
    readLyricLines fin (t :: rest) =
      if t.kind = .newline then
        if atNewline rest then .ok ([], t :: rest)
        else readLyricLines fin rest
      else
        Stop.andThen (readLyricLine fin (t :: rest))
          (List.flatMap LyricUnit.remarks)
          fun units after =>
            if EndsWithBarline units then .ok ([], after)
            else readLyricLines fin after := by
  rw [readLyricLines]
  by_cases hNewline : t.kind = .newline
  · rw [dif_pos hNewline, if_pos hNewline]
  · rw [dif_neg hNewline, if_neg hNewline]
    cases hLine : readLyricLine fin (t :: rest) with
    | error s =>
        rfl
    | ok step =>
        simp only [Stop.andThen]
        split <;> rfl

theorem readPitchLines_cons :
    readPitchLines fin (t :: rest) =
      if t.kind = .newline then
        if atNewline rest then .ok ([], t :: rest)
        else readPitchLines fin rest
      else
        Stop.andThen (readPitchLine fin (t :: rest))
          (List.flatMap PitchUnit.remarks) fun _ after =>
          readPitchLines fin after := by
  rw [readPitchLines]
  split
  · rfl
  · split <;> simp only [*] <;> rfl

------------------------------------------------------------
-- Paragraphs
------------------------------------------------------------

/-
  A title line is read before the others,
  up to an empty line.
-/
theorem readTitle_cons :
    readTitle (t :: rest) =
      if t.kind = .newline then
        if atNewline rest then ([], rest)
        else readTitle rest
      else
        ((t :: rest.takeWhile fun u => !u.isNewline) ::
            (readTitle
              (rest.dropWhile fun u => !u.isNewline)).1,
          (readTitle
            (rest.dropWhile fun u => !u.isNewline)).2) := by
  rw [readTitle]
  simp only [Token.isNewline, decide_eq_true_eq]

/-
  A stanza is read before the others; the remarks about it
  stay if they fail.
-/
theorem readStanzas_cons :
    readStanzas fin (t :: rest) =
      if t.kind = .newline then readStanzas fin rest
      else
        match readStanza fin (t :: rest) with
        | .error s => .error s
        | .ok (stanza, after) =>
            match readStanzas fin after with
            | .error s => .error (s.after stanza.remarks)
            | .ok stanzas => .ok (stanza :: stanzas) := by
  rw [readStanzas]
  by_cases hNewline : t.kind = .newline
  · rw [dif_pos hNewline, if_pos hNewline]
  · rw [dif_neg hNewline, if_neg hNewline]
    cases readStanza fin (t :: rest) with
    | error s =>
        rfl
    | ok step =>
        cases hRest : readStanzas fin step.2 <;>
          simp only [hRest]

/-
  The first closing token ends a list of
  tokens, which it closes.
-/
theorem Manuscript.read_append
    {fin : Token}
    {ts : List Token}
    (hFin : fin.kind = .endOfText)
    (hTokens : ∀ t ∈ ts, t.kind ≠ .endOfText) :
    read (ts ++ [fin]) = ofBody fin ts := by
  have hOpen : ∀ t ∈ ts, (!closes t) = true := by
    intro t ht
    simp [closes, hTokens t ht]
  have hFind : (ts ++ [fin]).find? closes = some fin := by
    rw [List.find?_append, List.find?_eq_none.mpr]
    · simp [closes, hFin]
    · intro t ht
      simp [closes, hTokens t ht]
  have hTake :
      (ts ++ [fin]).takeWhile (fun t => !closes t) =
        ts := by
    rw [List.takeWhile_append_of_pos hOpen]
    simp [closes, hFin]
  have hLast : (ts ++ [fin]).getLast?.any closes = true := by
    simp [closes, hFin]
  rw [read, hFind, hTake]
  exact if_pos hLast

end LyricScore
