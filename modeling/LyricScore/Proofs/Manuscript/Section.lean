import LyricScore.Proofs.Manuscript.Extent

/-
  This file cuts the tokens of a text into sections, without
  reading them: the lyric sections and the pitch sections of
  the stanzas.  Brackets keep together what stands on several
  lines, and in a pitch section parentheses do so too.  A
  token of a pitch section is a place: it knows whether it
  stands in brackets or parentheses, and what follows it.

  Key definitions include:
    * `Nesting`, `Nesting.after`
    * `PitchPlace`
    * `takePitches`
    * `skipLyrics`
    * `pitchSections`, `Manuscript.pitchSections`

  Key theorems include:
    * `takePitches_append`
    * `readLyricLines_skips`
-/

namespace LyricScore

------------------------------------------------------------
-- Places
------------------------------------------------------------

/-
  Where a token of a pitch section stands: on the line
  itself, in a group or in a chord.
-/
inductive Nesting where
  | line
  | group
  | chord
deriving DecidableEq, Repr

/-
  Where the token behind a token stands.
  Neither groups nor chords nest.
-/
def Nesting.after
    (n : Nesting)
    (t : Token) : Nesting :=
  match n with
  | line =>
      if t.kind = .openBracket then group
      else if t.kind = .openParenthesis then chord
      else line
  | group => if t.kind = .closeBracket then line else group
  | chord => if t.kind = .closeParenthesis then line else chord

/-
  A token of a pitch section, where it stands, and what
  follows it in the text.
-/
structure PitchPlace where
  nesting : Nesting
  token : Token
  rest : List Token
deriving DecidableEq, Repr

/- The tokens from a place on. -/
def PitchPlace.onward
    (p : PitchPlace) : List Token :=
  p.token :: p.rest

/-
  An empty line, which ends a section,
  starts with this token.
-/
def Nesting.EndsAt
    (n : Nesting)
    (t : Token)
    (rest : List Token) : Prop :=
  n = line ∧ t.kind = .newline ∧ atNewline rest = true

instance
    (n : Nesting)
    (t : Token)
    (rest : List Token) :
    Decidable (n.EndsAt t rest) := by
  unfold Nesting.EndsAt
  infer_instance

/- A section ends on a line, and at a line end. -/
theorem Nesting.not_endsAt_of_ne_line
    {n : Nesting}
    {t : Token}
    {rest : List Token}
    (hNesting : n ≠ line) :
    ¬ n.EndsAt t rest :=
  fun hEnd => hNesting hEnd.1

/- Only a line end ends a section. -/
theorem Nesting.not_endsAt_of_kind
    {n : Nesting}
    {t : Token}
    {rest : List Token}
    (hKind : t.kind ≠ .newline) :
    ¬ n.EndsAt t rest :=
  fun hEnd => hKind hEnd.2.1

------------------------------------------------------------
-- Sections
------------------------------------------------------------

/-
  The places up to an empty line or the end of the text, and
  what follows them.
-/
def takePitches
    (n : Nesting) : List Token → List PitchPlace × List Token
  | [] => ([], [])
  | t :: rest =>
    if n.EndsAt t rest then ([], t :: rest)
    else
      (⟨n, t, rest⟩ :: (takePitches (n.after t) rest).1,
        (takePitches (n.after t) rest).2)

/-
  What follows a lyric section.  The section ends with the
  line the last token of which is a barline, or with an empty
  line or the text.
-/
def skipLyrics
    (inGroup barline : Bool) : List Token → List Token
  | [] => []
  | t :: rest =>
    if inGroup then
      skipLyrics (t.kind ≠ .closeBracket) false rest
    else if t.kind = .newline ∧
        (barline || atNewline rest) then
      t :: rest
    else
      skipLyrics (t.kind = .openBracket)
        (t.kind = .barline) rest

/-
  The tokens of the places and what
  follows them are the tokens.
-/
theorem takePitches_append
    (n : Nesting)
    (ts : List Token) :
    (takePitches n ts).1.map PitchPlace.token ++
        (takePitches n ts).2 =
      ts := by
  induction ts generalizing n with
  | nil =>
      rfl
  | cons t rest ih =>
      rw [takePitches]
      split
      · rfl
      · rw [List.map_cons, List.cons_append, ih]

theorem skipLyrics_suffix
    (inGroup barline : Bool)
    (ts : List Token) :
    skipLyrics inGroup barline ts <:+ ts := by
  induction ts generalizing inGroup barline with
  | nil =>
      exact List.suffix_rfl
  | cons t rest ih =>
      rw [skipLyrics]
      split
      · exact (ih _ _).trans (List.suffix_cons t rest)
      · split
        · exact List.suffix_rfl
        · exact (ih _ _).trans (List.suffix_cons t rest)

/-
  A lyric section that does not start with a line end takes
  its first token.
-/
theorem skipLyrics_of_start
    {t : Token}
    {rest : List Token}
    (hStart : t.kind ≠ .newline) :
    skipLyrics false false (t :: rest) =
      skipLyrics (t.kind = .openBracket) (t.kind = .barline)
        rest := by
  rw [skipLyrics, if_neg Bool.false_ne_true,
    if_neg fun hEnd => hStart hEnd.1]

/- The pitch sections of the stanzas that some tokens are. -/
def pitchSections
    (ts : List Token) : List (List PitchPlace) :=
  match ts with
  | [] => []
  | t :: rest =>
    if _hStart : t.kind = .newline then pitchSections rest
    else
      (takePitches .line
          (skipLyrics false false (t :: rest))).1 ::
        pitchSections
          (takePitches .line
            (skipLyrics false false (t :: rest))).2
termination_by ts.length
decreasing_by
  · simp
  · rw [skipLyrics_of_start _hStart]
    have hPitches :=
      List.IsSuffix.length_le
        ⟨_,
          takePitches_append .line
            (skipLyrics (t.kind = .openBracket)
              (t.kind = .barline) rest)⟩
    have hLyrics :=
      (skipLyrics_suffix (t.kind = .openBracket)
        (t.kind = .barline) rest).length_le
    simp only [List.length_cons]
    omega

/- The tokens of a text behind its title. -/
def Manuscript.behindTitle
    (ts : List Token) : List Token :=
  (readTitle
    ((ts.takeWhile fun t => !closes t).dropWhile
      Token.isNewline)).2

/-
  The stanzas of a manuscript are read behind
  the title of its text.
-/
theorem Manuscript.exists_readStanzas
    {ts : List Token}
    {m : Manuscript}
    (hRead : read ts = .ok m) :
    ∃ fin,
      ts.find? closes = some fin ∧
        readStanzas fin (behindTitle ts) =
          .ok m.stanzas := by
  unfold read at hRead
  cases hFin : ts.find? closes with
  | none =>
      rw [hFin] at hRead
      cases hRead
  | some fin =>
      simp only [hFin] at hRead
      by_cases hLast : ts.getLast?.any closes = true
      · rw [if_pos hLast] at hRead
        exact ⟨fin, rfl, (ofBody_iff.mp hRead).2⟩
      · rw [if_neg hLast] at hRead
        cases hRead

/- The pitch sections of a text: those behind its title. -/
def Manuscript.pitchSections
    (ts : List Token) : List (List PitchPlace) :=
  LyricScore.pitchSections (behindTitle ts)

/-
  A section starts with the first token that ends no line,
  and the next where it ends.
-/
theorem pitchSections_cons
    (t : Token)
    (rest : List Token) :
    pitchSections (t :: rest) =
      if t.kind = .newline then pitchSections rest
      else
        (takePitches .line
            (skipLyrics false false (t :: rest))).1 ::
          pitchSections
            (takePitches .line
              (skipLyrics false false (t :: rest))).2 := by
  rw [pitchSections]
  rfl

------------------------------------------------------------
-- Lyric sections are read whole
------------------------------------------------------------

section Lyrics

variable {fin t : Token}
variable {ts rest : List Token}

/- In brackets, all up to the closing one is skipped. -/
theorem skipLyrics_of_inside
    {closing : Token}
    {barline : Bool}
    (hInside : TakenInside ts (closing :: rest))
    (hClosing : closing.kind = .closeBracket) :
    skipLyrics true barline ts =
      skipLyrics false false rest := by
  rcases hInside with ⟨taken, rfl, hTaken⟩
  induction taken generalizing barline with
  | nil =>
      simp [skipLyrics, hClosing]
  | cons t taken ih =>
      rw [List.forall_mem_cons] at hTaken
      rw [List.cons_append, skipLyrics, if_pos rfl]
      simpa [hTaken.1] using ih hTaken.2

/- A unit of a lyric line is skipped with the lyrics. -/
theorem readLyricUnit_skips
    {unit : LyricUnit}
    {barline : Bool}
    (hLine : t.kind ≠ .newline)
    (hUnit : readLyricUnit fin t ts = .ok (unit, rest)) :
    skipLyrics false barline (t :: ts) =
      skipLyrics false unit.isBarline rest := by
  rw [skipLyrics, if_neg Bool.false_ne_true,
    if_neg fun hEnd => hLine hEnd.1]
  cases readLyricUnit_iff.mp hUnit with
  | group hBracket hGroup =>
      rcases readGroup_eq_ok hGroup with ⟨hInside, hClosing⟩
      rw [hBracket]
      exact skipLyrics_of_inside hInside hClosing
  | mark hBracket =>
      rw [decide_eq_false hBracket]
      rfl

/-
  Of a line that is read, the section remembers whether a
  barline ends it.
-/
theorem readLyricLine_skips
    {units : List LyricUnit}
    (barline : Bool)
    (hRead : readLyricLine fin ts = .ok (units, rest)) :
    (rest = [] ∨ atNewline rest = true) ∧
      skipLyrics false barline ts =
        skipLyrics false
          ((units.getLast?.map LyricUnit.isBarline).getD
            barline) rest := by
  rw [readLyricLine_iff] at hRead
  induction hRead generalizing barline with
  | done hEnd =>
      exact ⟨hEnd, rfl⟩
  | @unit t ts after rest unit more hNewline hUnit _ ih =>
      rcases ih unit.isBarline with ⟨hRest, hSkip⟩
      refine ⟨hRest, ?_⟩
      rw [readLyricUnit_skips hNewline hUnit, hSkip,
        List.getLast?_cons]
      cases more.getLast? <;> rfl

/- The units of a line end with a barline, or they do not. -/
theorem getLast?_isBarline
    (units : List LyricUnit) :
    (units.getLast?.map LyricUnit.isBarline).getD false =
      decide (EndsWithBarline units) := by
  rw [Bool.eq_iff_iff, decide_eq_true_iff, EndsWithBarline]
  cases units.getLast? <;> simp

/-
  Behind a barline that ends its line, a lyric section ends.
-/
theorem skipLyrics_at_end
    (hRest : rest = [] ∨ atNewline rest = true) :
    skipLyrics false true rest = rest := by
  cases rest with
  | nil =>
      rfl
  | cons t rest =>
      simp only [reduceCtorEq, atNewline, decide_eq_true_eq,
        false_or] at hRest
      rw [skipLyrics, if_neg Bool.false_ne_true,
        if_pos ⟨hRest, rfl⟩]

/-
  Lyric lines are read to the end of their
  section, and no further.
-/
theorem readLyricLines_skips
    {lines : List (List LyricUnit)}
    (hLines : readLyricLines fin ts = .ok (lines, rest)) :
    skipLyrics false false ts = rest := by
  rw [readLyricLines_iff] at hLines
  induction hLines with
  | done =>
      rfl
  | gap hNewline hGap =>
      simp [skipLyrics, hNewline, hGap]
  | newline hNewline hGap _ ih =>
      simp [skipLyrics, hNewline, hGap, ih]
  | last hStart hLine hBarline =>
      rcases readLyricLine_skips false hLine with ⟨hRest, hSkip⟩
      rw [hSkip, getLast?_isBarline,
        decide_eq_true hBarline, skipLyrics_at_end hRest]
  | line hStart hLine hBarline _ ih =>
      rcases readLyricLine_skips false hLine with ⟨-, hSkip⟩
      rw [hSkip, getLast?_isBarline,
        decide_eq_false hBarline, ih]

end Lyrics

end LyricScore
