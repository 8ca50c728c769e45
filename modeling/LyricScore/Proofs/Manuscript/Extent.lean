import LyricScore.Proofs.Manuscript.Success
import LyricScore.Proofs.Outcome

/-
  This file tells which tokens a reader takes: what it leaves
  is always the end of what it was given, and a bracket group
  ends at the first closing bracket.

  Key theorems include:
    * `readEntries_eq_ok`
    * `readGroup_eq_ok`
    * `readPitchLines_suffix`
    * `readLyricLines_suffix`
    * `readTitle_suffix`, `readStanza_suffix`
-/

namespace LyricScore

variable {fin t : Token}
variable {ts rest : List Token}

------------------------------------------------------------
-- Bracket groups
------------------------------------------------------------

/-
  Tokens are taken from the head of a list, none of which is
  a closing bracket.
-/
def TakenInside
    (ts rest : List Token) : Prop :=
  ∃ taken,
    ts = taken ++ rest ∧ ∀ t ∈ taken, t.kind ≠ .closeBracket

namespace TakenInside

theorem refl
    (ts : List Token) :
    TakenInside ts ts :=
  ⟨[], rfl, nofun⟩

theorem head
    (rest : List Token)
    (hKind : t.kind ≠ .closeBracket) :
    TakenInside (t :: rest) rest :=
  ⟨[t], rfl, by simpa using hKind⟩

theorem trans
    {between : List Token}
    (hFirst : TakenInside ts between)
    (hThen : TakenInside between rest) :
    TakenInside ts rest := by
  rcases hFirst with ⟨taken, rfl, hTaken⟩
  rcases hThen with ⟨more, rfl, hMore⟩
  exact ⟨taken ++ more, by rw [List.append_assoc],
    List.forall_mem_append.mpr ⟨hTaken, hMore⟩⟩

end TakenInside

/- A number does not close the brackets that it stands in. -/
theorem takeNumber_inside
    {name : DirectiveName}
    {n : Int}
    (hNumber : takeNumber fin name ts = .ok (n, rest)) :
    TakenInside ts rest := by
  cases ts with
  | nil =>
      cases hNumber
  | cons t ts =>
      rw [takeNumber] at hNumber
      by_cases hKind : t.kind = .number
      · rw [if_pos hKind] at hNumber
        cases hText : Numeral.read t.text with
        | error e =>
            rw [hText] at hNumber
            cases hNumber
        | ok m =>
            rw [hText] at hNumber
            cases hNumber
            exact .head _ (by rw [hKind]; decide)
      · rw [if_neg hKind] at hNumber
        cases hNumber

theorem takeAccidental_inside
    (ts : List Token) :
    TakenInside ts (takeAccidental ts).2 := by
  cases ts with
  | nil =>
      exact .refl []
  | cons t ts =>
      rw [takeAccidental]
      by_cases hKind : t.kind = .accidental
      · rw [if_pos hKind]
        exact .head _ (by rw [hKind]; decide)
      · rw [if_neg hKind]
        exact .refl _

theorem takeDot_inside
    (ts : List Token) :
    TakenInside ts (takeDot ts).2 := by
  cases ts with
  | nil =>
      exact .refl []
  | cons t ts =>
      rw [takeDot]
      by_cases hKind : t.kind = .dot
      · rw [if_pos hKind]
        exact .head _ (by rw [hKind]; decide)
      · rw [if_neg hKind]
        exact .refl _

/- An order does not close the brackets that it stands in. -/
theorem readOrder_inside
    {name : DirectiveName}
    {order : Order}
    (hOrder : readOrder fin name ts = .ok (order, rest)) :
    TakenInside ts rest := by
  cases name with
  | beatUnit =>
      rcases Outcome.map_eq_ok.mp hOrder with
        ⟨⟨n, after⟩, hNumber, hRest⟩
      cases hRest
      exact (takeNumber_inside hNumber).trans
        (takeDot_inside after)
  | key =>
      rcases Outcome.map_eq_ok.mp hOrder with
        ⟨⟨n, after⟩, hNumber, hRest⟩
      cases hRest
      exact (takeAccidental_inside ts).trans
        (takeNumber_inside hNumber)
  | _ =>
      rcases Outcome.map_eq_ok.mp hOrder with
        ⟨⟨n, after⟩, hNumber, hRest⟩
      cases hRest
      exact takeNumber_inside hNumber

/- An entry does not close the brackets that it stands in. -/
theorem readEntry_inside
    {entry : BracketEntry}
    (hEntry : readEntry fin t ts = .ok (entry, rest)) :
    TakenInside ts rest := by
  unfold readEntry at hEntry
  split at hEntry
  · split at hEntry
    · rcases Outcome.map_eq_ok.mp hEntry with
        ⟨⟨order, after⟩, hOrder, hRest⟩
      cases hRest
      exact readOrder_inside hOrder
    · cases hEntry
      exact .refl _
  · cases hEntry
    exact .refl _

/-
  The entries of a group are what stands before the first
  closing bracket.
-/
theorem readEntries_eq_ok
    {entries : List BracketEntry}
    {closing : Token}
    (hEntries :
      readEntries fin ts = .ok (entries, closing, rest)) :
    TakenInside ts (closing :: rest) ∧
      closing.kind = .closeBracket := by
  rw [readEntries_iff] at hEntries
  induction hEntries with
  | close hClosing =>
      exact ⟨.refl _, hClosing⟩
  | entry hOpen hEntry _ ih =>
      rcases ih with ⟨hInside, hKind⟩
      exact ⟨((TakenInside.head _ hOpen).trans
          (readEntry_inside hEntry)).trans hInside, hKind⟩

/-
  A group is read from its tokens: what is inside, and the
  first closing bracket.
-/
theorem readGroup_eq_ok
    {g : BracketGroup}
    (hGroup : readGroup fin t ts = .ok (g, rest)) :
    TakenInside ts (g.closing :: rest) ∧
      g.closing.kind = .closeBracket := by
  exact readEntries_eq_ok (readGroup_iff.mp hGroup).2

/- What is left behind a group is an end of the tokens. -/
theorem readGroup_suffix
    {g : BracketGroup}
    (hGroup : readGroup fin t ts = .ok (g, rest)) :
    rest <:+ ts := by
  rcases (readGroup_eq_ok hGroup).1 with ⟨taken, rfl, -⟩
  exact (List.suffix_cons _ _).trans (List.suffix_append _ _)

------------------------------------------------------------
-- Lyric lines
------------------------------------------------------------

theorem readLyricUnit_suffix
    {unit : LyricUnit}
    (hUnit : readLyricUnit fin t ts = .ok (unit, rest)) :
    rest <:+ ts := by
  cases readLyricUnit_iff.mp hUnit with
  | group hBracket hGroup =>
      exact readGroup_suffix hGroup
  | mark hBracket =>
      exact List.suffix_rfl

/-
  What is left behind a lyric line is an end of the tokens.
-/
theorem readLyricLine_suffix
    {units : List LyricUnit}
    (hLine : readLyricLine fin ts = .ok (units, rest)) :
    rest <:+ ts := by
  rw [readLyricLine_iff] at hLine
  exact hLine.suffix fun hUnit =>
    (readLyricUnit_suffix hUnit).trans
      (List.suffix_cons _ _)

theorem readLyricLines_suffix
    {lines : List (List LyricUnit)}
    (hLines : readLyricLines fin ts = .ok (lines, rest)) :
    rest <:+ ts := by
  rw [readLyricLines_iff] at hLines
  exact hLines.suffix readLyricLine_suffix

------------------------------------------------------------
-- Pitch lines
------------------------------------------------------------

theorem takeAccidental_suffix
    (ts : List Token) :
    (takeAccidental ts).2 <:+ ts := by
  rcases takeAccidental_inside ts with ⟨taken, hTaken, -⟩
  exact ⟨taken, hTaken.symm⟩

/- What is left behind a run is an end of the tokens. -/
theorem readRun_suffix
    {ps : List Pitch}
    (hRun : readRun fin ts = .ok (ps, rest)) :
    rest <:+ ts := by
  have hBehind : (takeAccidental (takeShifts ts).2).2 <:+ ts :=
    (takeAccidental_suffix _).trans (List.dropWhile_suffix _)
  unfold readRun at hRun
  simp only at hRun
  cases hName : (takeAccidental (takeShifts ts).2).2 with
  | nil =>
      rw [hName] at hRun hBehind
      rw [(readRun.length_missing_le hRun).2]
      exact hBehind
  | cons name after =>
      rw [hName] at hRun hBehind
      cases hLetters : name.letters? with
      | none =>
          simp only [hLetters] at hRun
          rw [(readRun.length_missing_le hRun).2]
          exact hBehind
      | some ls =>
          simp only [hLetters] at hRun
          cases ls with
          | nil =>
              cases hRun
          | cons l ls =>
              cases hRun
              exact (List.suffix_cons name _).trans hBehind

theorem readChordEntry_suffix
    {entry : ChordEntry}
    (hEntry : readChordEntry fin ts = .ok (entry, rest)) :
    rest <:+ ts := by
  rcases Outcome.map_eq_ok.mp hEntry with
    ⟨⟨ps, after⟩, hRun, hRest⟩
  have hAfter := readRun_suffix hRun
  simp only at hRest
  split at hRest
  · cases hRest
    exact (List.tail_suffix after).trans hAfter
  · cases hRest
    exact hAfter

/- What is left behind a chord is an end of the tokens. -/
theorem readChordEntries_suffix
    {entries : List ChordEntry}
    {closing : Token}
    (hEntries :
      readChordEntries fin ts =
        .ok (entries, closing, rest)) :
    rest <:+ ts := by
  rw [readChordEntries_iff] at hEntries
  induction hEntries with
  | close hClosing =>
      exact List.suffix_cons _ _
  | entry hOpen hEntry _ ih =>
      exact ih.trans (readChordEntry_suffix hEntry)

theorem readPitchUnit_suffix
    {unit : PitchUnit}
    (hUnit : readPitchUnit fin t ts = .ok (unit, rest)) :
    rest <:+ t :: ts := by
  cases readPitchUnit_iff.mp hUnit with
  | barline hBarline =>
      exact List.suffix_cons t ts
  | group hBracket hGroup =>
      exact (readGroup_suffix hGroup).trans
        (List.suffix_cons t ts)
  | chord hParenthesis hEntries =>
      exact (readChordEntries_suffix hEntries).trans
        (List.suffix_cons t ts)
  | stray _ _ _ hRun =>
      exact (List.tail_suffix _).trans (readRun_suffix hRun)
  | run _ _ _ hRun hPitches =>
      exact readRun_suffix hRun

/-
  What is left behind a pitch line is an end of the tokens.
-/
theorem readPitchLine_suffix
    {units : List PitchUnit}
    (hLine : readPitchLine fin ts = .ok (units, rest)) :
    rest <:+ ts := by
  rw [readPitchLine_iff] at hLine
  exact hLine.suffix readPitchUnit_suffix

theorem readPitchLines_suffix
    {lines : List (List PitchUnit)}
    (hLines : readPitchLines fin ts = .ok (lines, rest)) :
    rest <:+ ts := by
  rw [readPitchLines_iff] at hLines
  exact hLines.suffix readPitchLine_suffix

------------------------------------------------------------
-- Paragraphs
------------------------------------------------------------

/- What is left behind the title is an end of the tokens. -/
theorem readTitle_suffix
    (ts : List Token) :
    (readTitle ts).2 <:+ ts := by
  induction ts using readTitle.induct with
  | case1 =>
      simp [readTitle]
  | case2 t ts hNewline hGap =>
      rw [readTitle, if_pos hNewline, if_pos hGap]
      exact List.suffix_cons t ts
  | case3 t ts hNewline hGap ih =>
      rw [readTitle, if_pos hNewline, if_neg hGap]
      exact ih.trans (List.suffix_cons t ts)
  | case4 t ts hNewline lines after hTitle ih =>
      rw [readTitle, if_neg hNewline]
      exact (ih.trans (List.dropWhile_suffix _)).trans
        (List.suffix_cons t ts)

theorem readStanza_suffix
    {stanza : Stanza}
    (hStanza : readStanza fin ts = .ok (stanza, rest)) :
    rest <:+ ts := by
  rcases readStanza_eq_ok.mp hStanza with
    ⟨between, hLyrics, hPitches⟩
  exact (readPitchLines_suffix hPitches).trans
    (readLyricLines_suffix hLyrics)

end LyricScore
