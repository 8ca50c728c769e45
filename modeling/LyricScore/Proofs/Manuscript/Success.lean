import LyricScore.Proofs.Manuscript.Step

/-
  This file states what it means that a reader succeeds, as a
  judgment of what was read, one step for each unit.  A proof
  about what was read goes by the steps of the judgment and
  never meets the errors of the reader.

  Key definitions include:
    * `EntriesRead`
    * `LyricUnitRead`, `PitchUnitRead`
    * `LineRead`, `LinesRead`
    * `StanzasRead`

  Key theorems include:
    * `Stop.andThen_eq_ok`
    * `readEntries_iff`, `readChordEntries_iff`
    * `readLyricUnit_iff`, `readPitchUnit_iff`
    * `LineRead.suffix`, `LinesRead.suffix`
    * `readLyricLine_iff`, `readPitchLine_iff`
    * `readLyricLines_iff`, `readPitchLines_iff`
    * `readStanzas_iff`, `Manuscript.ofBody_iff`
-/

namespace LyricScore

variable {fin t : Token}
variable {ts rest : List Token}

/-
  A unit and others are read if the unit is,
  and then the others are.
-/
theorem Stop.andThen_eq_ok
    {α β : Type}
    {unit : Except Stop (α × List Token)}
    {remarks : α → List Remark}
    {others : α → List Token → Except Stop (List α × β)}
    {as : List α}
    {b : β} :
    andThen unit remarks others = .ok (as, b) ↔
      ∃ a after more,
        unit = .ok (a, after) ∧
          others a after = .ok (more, b) ∧
          as = a :: more := by
  constructor
  · intro hBoth
    cases unit with
    | error s =>
        cases hBoth
    | ok step =>
        rcases prepend_eq_ok hBoth with ⟨more, hOthers, rfl⟩
        exact ⟨step.1, step.2, more, rfl, hOthers, rfl⟩
  · rintro ⟨a, after, more, rfl, hOthers, rfl⟩
    simp only [andThen, hOthers, prepend]

------------------------------------------------------------
-- Groups and chords
------------------------------------------------------------

/-
  The entries of brackets were read one by one, up to the first
  token of the kind that closes them.
-/
inductive EntriesRead
    {α : Type}
    (closes : TokenKind)
    (entry :
      Token →
        List Token →
        Except ScoreError (α × List Token)) :
    List Token → List α → Token → List Token → Prop where
  | close {closing : Token} {rest : List Token}
      (hClosing : closing.kind = closes) :
      EntriesRead closes entry (closing :: rest) [] closing rest
  | entry {t closing : Token} {ts after rest : List Token}
      {a : α} {more : List α}
      (hOpen : t.kind ≠ closes)
      (hEntry : entry t ts = .ok (a, after))
      (hMore :
        EntriesRead closes entry after more closing rest) :
      EntriesRead closes entry (t :: ts) (a :: more)
        closing rest

/-
  Entries of brackets are read one by one,
  up to a closing bracket.
-/
theorem readEntries_iff
    {entries : List BracketEntry}
    {closing : Token} :
    readEntries fin ts = .ok (entries, closing, rest) ↔
      EntriesRead .closeBracket (readEntry fin) ts entries
        closing rest := by
  constructor
  · intro hEntries
    induction ts using readEntries.induct fin generalizing
      entries with
    | case1 =>
        simp [readEntries] at hEntries
    | case2 t ts hClose =>
        rw [readEntries_cons, if_pos hClose] at hEntries
        cases hEntries
        exact .close hClose
    | case3 t ts hOpen e hError =>
        rw [readEntries_cons, if_neg hOpen, hError] at hEntries
        cases hEntries
    | case4 t ts hOpen entry after hEntry ih =>
        rw [readEntries_cons, if_neg hOpen, hEntry] at hEntries
        rcases Stop.andThen_eq_ok.mp hEntries with
          ⟨_, _, more, hSame, hMore, rfl⟩
        cases hSame
        exact .entry hOpen hEntry (ih hMore)
  · intro hRead
    induction hRead with
    | close hClosing =>
        rw [readEntries_cons, if_pos hClosing]
    | entry hOpen hEntry _ ih =>
        rw [readEntries_cons, if_neg hOpen, hEntry]
        exact Stop.andThen_eq_ok.mpr ⟨_, _, _, rfl, ih, rfl⟩

theorem readChordEntries_iff
    {entries : List ChordEntry}
    {closing : Token} :
    readChordEntries fin ts = .ok (entries, closing, rest) ↔
      EntriesRead .closeParenthesis
        (fun t ts => readChordEntry fin (t :: ts)) ts
        entries closing
        rest := by
  constructor
  · intro hEntries
    induction ts using readChordEntries.induct fin
      generalizing entries with
    | case1 =>
        simp [readChordEntries] at hEntries
    | case2 t ts hClose =>
        rw [readChordEntries_cons, if_pos hClose] at hEntries
        cases hEntries
        exact .close hClose
    | case3 t ts hOpen e hError =>
        rw [readChordEntries_cons, if_neg hOpen,
          hError] at hEntries
        cases hEntries
    | case4 t ts hOpen entry after hEntry ih =>
        rw [readChordEntries_cons, if_neg hOpen,
          hEntry] at hEntries
        rcases Stop.andThen_eq_ok.mp hEntries with
          ⟨_, _, more, hSame, hMore, rfl⟩
        cases hSame
        exact .entry hOpen hEntry (ih hMore)
  · intro hRead
    induction hRead with
    | close hClosing =>
        rw [readChordEntries_cons, if_pos hClosing]
    | entry hOpen hEntry _ ih =>
        rw [readChordEntries_cons, if_neg hOpen, hEntry]
        exact Stop.andThen_eq_ok.mpr ⟨_, _, _, rfl, ih, rfl⟩

/- A group is read if its entries are. -/
theorem readGroup_iff
    {g : BracketGroup} :
    readGroup fin t ts = .ok (g, rest) ↔
      g.opening = t ∧
        readEntries fin ts =
          .ok (g.entries, g.closing, rest) := by
  constructor
  · intro hGroup
    unfold readGroup at hGroup
    cases hEntries : readEntries fin ts with
    | error s =>
        rw [hEntries] at hGroup
        cases hGroup
    | ok step =>
        rw [hEntries] at hGroup
        cases hGroup
        exact ⟨rfl, rfl⟩
  · rintro ⟨rfl, hEntries⟩
    simp only [readGroup, hEntries]

------------------------------------------------------------
-- Units
------------------------------------------------------------

/-
  A unit of a lyric line was read: a group, or a token that
  stands for itself.
-/
inductive LyricUnitRead
    (fin t : Token)
    (ts : List Token) : LyricUnit → List Token → Prop where
  | group {g : BracketGroup} {rest : List Token}
      (hBracket : t.kind = .openBracket)
      (hGroup : readGroup fin t ts = .ok (g, rest)) :
      LyricUnitRead fin t ts (.group g) rest
  | mark
      (hBracket : t.kind ≠ .openBracket) :
      LyricUnitRead fin t ts (.mark t) ts

/- A unit of a lyric line is a group or a single token. -/
theorem readLyricUnit_iff
    {unit : LyricUnit} :
    readLyricUnit fin t ts = .ok (unit, rest) ↔
      LyricUnitRead fin t ts unit rest := by
  constructor
  · intro hUnit
    unfold readLyricUnit at hUnit
    by_cases hBracket : t.kind = .openBracket
    · rw [if_pos hBracket] at hUnit
      cases hGroup : readGroup fin t ts with
      | error s =>
          rw [hGroup] at hUnit
          cases hUnit
      | ok step =>
          rw [hGroup] at hUnit
          cases hUnit
          exact .group hBracket hGroup
    · rw [if_neg hBracket] at hUnit
      cases hUnit
      exact .mark hBracket
  · intro hRead
    cases hRead with
    | group hBracket hGroup =>
        simp only [readLyricUnit, if_pos hBracket, hGroup]
    | mark hBracket =>
        rw [readLyricUnit, if_neg hBracket]

/-
  A unit of a pitch line was read: a barline, a group, a chord,
  or a run.  A token at which no run starts is passed over with
  the modifiers before it.
-/
inductive PitchUnitRead
    (fin t : Token)
    (ts : List Token) : PitchUnit → List Token → Prop where
  | barline
      (hBarline : t.kind = .barline) :
      PitchUnitRead fin t ts (.barline t) ts
  | group {g : BracketGroup} {rest : List Token}
      (hBracket : t.kind = .openBracket)
      (hGroup : readGroup fin t ts = .ok (g, rest)) :
      PitchUnitRead fin t ts (.group g) rest
  | chord {entries : List ChordEntry} {closing : Token}
      {rest : List Token}
      (hParenthesis : t.kind = .openParenthesis)
      (hEntries :
        readChordEntries fin ts =
          .ok (entries, closing, rest)) :
      PitchUnitRead fin t ts (.chord t entries) rest
  | stray {rest : List Token}
      (hBarline : t.kind ≠ .barline)
      (hBracket : t.kind ≠ .openBracket)
      (hParenthesis : t.kind ≠ .openParenthesis)
      (hRun : readRun fin (t :: ts) = .ok ([], rest)) :
      PitchUnitRead fin t ts (.stray t) rest.tail
  | run {ps : List Pitch} {rest : List Token}
      (hBarline : t.kind ≠ .barline)
      (hBracket : t.kind ≠ .openBracket)
      (hParenthesis : t.kind ≠ .openParenthesis)
      (hRun : readRun fin (t :: ts) = .ok (ps, rest))
      (hPitches : ps ≠ []) :
      PitchUnitRead fin t ts (.run ps) rest

/-
  A unit of a pitch line is a barline, a group, a chord, a
  run or a token passed over.
-/
theorem readPitchUnit_iff
    {unit : PitchUnit} :
    readPitchUnit fin t ts = .ok (unit, rest) ↔
      PitchUnitRead fin t ts unit rest := by
  constructor
  · intro hUnit
    unfold readPitchUnit at hUnit
    by_cases hBarline : t.kind = .barline
    · rw [if_pos hBarline] at hUnit
      cases hUnit
      exact .barline hBarline
    by_cases hBracket : t.kind = .openBracket
    · rw [if_neg hBarline, if_pos hBracket] at hUnit
      cases hGroup : readGroup fin t ts with
      | error s =>
          rw [hGroup] at hUnit
          cases hUnit
      | ok step =>
          rw [hGroup] at hUnit
          cases hUnit
          exact .group hBracket hGroup
    by_cases hParenthesis : t.kind = .openParenthesis
    · rw [if_neg hBarline, if_neg hBracket,
        if_pos hParenthesis] at hUnit
      cases hEntries : readChordEntries fin ts with
      | error s =>
          rw [hEntries] at hUnit
          cases hUnit
      | ok step =>
          rw [hEntries] at hUnit
          cases hUnit
          exact .chord hParenthesis hEntries
    rw [if_neg hBarline, if_neg hBracket,
      if_neg hParenthesis] at hUnit
    cases hRun : readRun fin (t :: ts) with
    | error e =>
        rw [hRun] at hUnit
        cases hUnit
    | ok step =>
        rcases step with ⟨ps, after⟩
        simp only [hRun] at hUnit
        by_cases hNone : ps = []
        · subst hNone
          cases hUnit
          exact .stray hBarline hBracket hParenthesis hRun
        · rw [if_neg hNone] at hUnit
          cases hUnit
          exact .run hBarline hBracket hParenthesis hRun hNone
  · intro hRead
    unfold readPitchUnit
    cases hRead with
    | barline hBarline =>
        rw [if_pos hBarline]
    | group hBracket hGroup =>
        rw [if_neg (by simp [hBracket]), if_pos hBracket,
          hGroup]
    | chord hParenthesis hEntries =>
        rw [if_neg (by simp [hParenthesis]),
          if_neg (by simp [hParenthesis]),
          if_pos hParenthesis, hEntries]
    | stray hBarline hBracket hParenthesis hRun =>
        rw [if_neg hBarline, if_neg hBracket,
          if_neg hParenthesis, hRun]
        rfl
    | run hBarline hBracket hParenthesis hRun hPitches =>
        rw [if_neg hBarline, if_neg hBracket,
          if_neg hParenthesis, hRun]
        simp only [if_neg hPitches]

------------------------------------------------------------
-- Written lines
------------------------------------------------------------

/- The units of a line were read one by one, up to its end. -/
inductive LineRead
    {α : Type}
    (unit : Token → List Token → Except Stop (α × List Token)) :
    List Token → List α → List Token → Prop where
  | done {ts : List Token}
      (hEnd : ts = [] ∨ atNewline ts = true) :
      LineRead unit ts [] ts
  | unit {t : Token} {ts after rest : List Token} {a : α}
      {more : List α}
      (hNewline : t.kind ≠ .newline)
      (hUnit : unit t ts = .ok (a, after))
      (hMore : LineRead unit after more rest) :
      LineRead unit (t :: ts) (a :: more) rest

/-
  If every unit leaves an end of its
  tokens, so does the line.
-/
theorem LineRead.suffix
    {α : Type}
    {unit : Token → List Token → Except Stop (α × List Token)}
    {units : List α}
    (hUnits :
      ∀ {t ts a after},
        unit t ts = .ok (a, after) → after <:+ t :: ts)
    (hRead : LineRead unit ts units rest) :
    rest <:+ ts := by
  induction hRead with
  | done hEnd =>
      exact List.suffix_rfl
  | unit hNewline hUnit _ ih =>
      exact ih.trans (hUnits hUnit)

/- A lyric line is read unit by unit. -/
theorem readLyricLine_iff
    {units : List LyricUnit} :
    readLyricLine fin ts = .ok (units, rest) ↔
      LineRead (readLyricUnit fin) ts units rest := by
  constructor
  · intro hLine
    induction ts using readLyricLine.induct fin generalizing
      units with
    | case1 =>
        rw [readLyricLine] at hLine
        cases hLine
        exact .done (.inl rfl)
    | case2 t ts hNewline =>
        rw [readLyricLine_cons, if_pos hNewline] at hLine
        cases hLine
        exact .done (.inr (decide_eq_true hNewline))
    | case3 t ts hNewline s hStop =>
        rw [readLyricLine_cons, if_neg hNewline, hStop] at hLine
        cases hLine
    | case4 t ts hNewline unit after hUnit ih =>
        rw [readLyricLine_cons, if_neg hNewline, hUnit] at hLine
        rcases Stop.andThen_eq_ok.mp hLine with
          ⟨_, _, more, hSame, hMore, rfl⟩
        cases hSame
        exact .unit hNewline hUnit (ih hMore)
  · intro hRead
    induction hRead with
    | @done ts hEnd =>
        cases ts with
        | nil =>
            rw [readLyricLine]
        | cons t ts =>
            rw [readLyricLine_cons,
              if_pos (by simpa [atNewline] using hEnd)]
    | unit hNewline hUnit _ ih =>
        rw [readLyricLine_cons, if_neg hNewline, hUnit]
        exact Stop.andThen_eq_ok.mpr ⟨_, _, _, rfl, ih, rfl⟩

theorem readPitchLine_iff
    {units : List PitchUnit} :
    readPitchLine fin ts = .ok (units, rest) ↔
      LineRead (readPitchUnit fin) ts units rest := by
  constructor
  · intro hLine
    induction ts using readPitchLine.induct fin generalizing
      units with
    | case1 =>
        rw [readPitchLine] at hLine
        cases hLine
        exact .done (.inl rfl)
    | case2 t ts hNewline =>
        rw [readPitchLine_cons, if_pos hNewline] at hLine
        cases hLine
        exact .done (.inr (decide_eq_true hNewline))
    | case3 t ts hNewline s hStop =>
        rw [readPitchLine_cons, if_neg hNewline, hStop] at hLine
        cases hLine
    | case4 t ts hNewline unit after hUnit ih =>
        rw [readPitchLine_cons, if_neg hNewline, hUnit] at hLine
        rcases Stop.andThen_eq_ok.mp hLine with
          ⟨_, _, more, hSame, hMore, rfl⟩
        cases hSame
        exact .unit hNewline hUnit (ih hMore)
  · intro hRead
    induction hRead with
    | @done ts hEnd =>
        cases ts with
        | nil =>
            rw [readPitchLine]
        | cons t ts =>
            rw [readPitchLine_cons,
              if_pos (by simpa [atNewline] using hEnd)]
    | unit hNewline hUnit _ ih =>
        rw [readPitchLine_cons, if_neg hNewline, hUnit]
        exact Stop.andThen_eq_ok.mpr ⟨_, _, _, rfl, ih, rfl⟩

------------------------------------------------------------
-- Sections
------------------------------------------------------------

/-
  Lines were read one by one: up to the end of the text, up to
  an empty line, or up to the first line that is a last one.
-/
inductive LinesRead
    {α : Type}
    (IsLast : List α → Prop)
    (line : List Token → Except Stop (List α × List Token)) :
    List Token → List (List α) → List Token → Prop where
  | done :
      LinesRead IsLast line [] [] []
  | gap {t : Token} {ts : List Token}
      (hNewline : t.kind = .newline)
      (hGap : atNewline ts = true) :
      LinesRead IsLast line (t :: ts) [] (t :: ts)
  | newline {t : Token} {ts rest : List Token}
      {lines : List (List α)}
      (hNewline : t.kind = .newline)
      (hGap : ¬ atNewline ts = true)
      (hMore : LinesRead IsLast line ts lines rest) :
      LinesRead IsLast line (t :: ts) lines rest
  | last {t : Token} {ts rest : List Token} {units : List α}
      (hStart : t.kind ≠ .newline)
      (hLine : line (t :: ts) = .ok (units, rest))
      (hLast : IsLast units) :
      LinesRead IsLast line (t :: ts) [units] rest
  | line {t : Token} {ts after rest : List Token}
      {units : List α} {lines : List (List α)}
      (hStart : t.kind ≠ .newline)
      (hLine : line (t :: ts) = .ok (units, after))
      (hLast : ¬ IsLast units)
      (hMore : LinesRead IsLast line after lines rest) :
      LinesRead IsLast line (t :: ts) (units :: lines) rest

/-
  If every line leaves an end of its
  tokens, so do the lines.
-/
theorem LinesRead.suffix
    {α : Type}
    {IsLast : List α → Prop}
    {line : List Token → Except Stop (List α × List Token)}
    {lines : List (List α)}
    (hLines :
      ∀ {us units after},
        line us = .ok (units, after) → after <:+ us)
    (hRead : LinesRead IsLast line ts lines rest) :
    rest <:+ ts := by
  induction hRead with
  | done =>
      exact List.suffix_rfl
  | gap hNewline hGap =>
      exact List.suffix_rfl
  | newline hNewline hGap _ ih =>
      exact ih.trans (List.suffix_cons _ _)
  | last hStart hLine hLast =>
      exact hLines hLine
  | line hStart hLine hLast _ ih =>
      exact ih.trans (hLines hLine)

/- A barline that ends a lyric line ends the section. -/
theorem readLyricLines_iff
    {lines : List (List LyricUnit)} :
    readLyricLines fin ts = .ok (lines, rest) ↔
      LinesRead EndsWithBarline (readLyricLine fin) ts lines
        rest := by
  constructor
  · intro hLines
    induction ts using readLyricLines.induct fin
      generalizing lines with
    | case1 =>
        rw [readLyricLines] at hLines
        cases hLines
        exact .done
    | case2 t ts hNewline hGap =>
        rw [readLyricLines_cons, if_pos hNewline,
          if_pos hGap] at hLines
        cases hLines
        exact .gap hNewline hGap
    | case3 t ts hNewline hGap ih =>
        rw [readLyricLines_cons, if_pos hNewline,
          if_neg hGap] at hLines
        exact .newline hNewline hGap (ih hLines)
    | case4 t ts hNewline s hStop =>
        rw [readLyricLines_cons, if_neg hNewline,
          hStop] at hLines
        cases hLines
    | case5 t ts hNewline units after hLine hBarline =>
        rw [readLyricLines_cons, if_neg hNewline,
          hLine] at hLines
        rcases Stop.andThen_eq_ok.mp hLines with
          ⟨_, _, more, hSame, hMore, rfl⟩
        cases hSame
        rw [if_pos hBarline] at hMore
        cases hMore
        exact .last hNewline hLine hBarline
    | case6 t ts hNewline units after hLine hBarline ih =>
        rw [readLyricLines_cons, if_neg hNewline,
          hLine] at hLines
        rcases Stop.andThen_eq_ok.mp hLines with
          ⟨_, _, more, hSame, hMore, rfl⟩
        cases hSame
        rw [if_neg hBarline] at hMore
        exact .line hNewline hLine hBarline (ih hMore)
  · intro hRead
    induction hRead with
    | done =>
        rw [readLyricLines]
    | gap hNewline hGap =>
        rw [readLyricLines_cons, if_pos hNewline, if_pos hGap]
    | newline hNewline hGap _ ih =>
        rw [readLyricLines_cons, if_pos hNewline,
          if_neg hGap, ih]
    | last hStart hLine hBarline =>
        rw [readLyricLines_cons, if_neg hStart, hLine]
        exact Stop.andThen_eq_ok.mpr
          ⟨_, _, _, rfl, if_pos hBarline, rfl⟩
    | line hStart hLine hBarline _ ih =>
        rw [readLyricLines_cons, if_neg hStart, hLine]
        exact Stop.andThen_eq_ok.mpr
          ⟨_, _, _, rfl, (if_neg hBarline).trans ih, rfl⟩

/- Only an empty line ends a section of pitches. -/
theorem readPitchLines_iff
    {lines : List (List PitchUnit)} :
    readPitchLines fin ts = .ok (lines, rest) ↔
      LinesRead (fun _ => False) (readPitchLine fin) ts
        lines rest := by
  constructor
  · intro hLines
    induction ts using readPitchLines.induct fin
      generalizing lines with
    | case1 =>
        rw [readPitchLines] at hLines
        cases hLines
        exact .done
    | case2 t ts hNewline hGap =>
        rw [readPitchLines_cons, if_pos hNewline,
          if_pos hGap] at hLines
        cases hLines
        exact .gap hNewline hGap
    | case3 t ts hNewline hGap ih =>
        rw [readPitchLines_cons, if_pos hNewline,
          if_neg hGap] at hLines
        exact .newline hNewline hGap (ih hLines)
    | case4 t ts hNewline s hStop =>
        rw [readPitchLines_cons, if_neg hNewline,
          hStop] at hLines
        cases hLines
    | case5 t ts hNewline units after hLine ih =>
        rw [readPitchLines_cons, if_neg hNewline,
          hLine] at hLines
        rcases Stop.andThen_eq_ok.mp hLines with
          ⟨_, _, more, hSame, hMore, rfl⟩
        cases hSame
        exact .line hNewline hLine not_false (ih hMore)
  · intro hRead
    induction hRead with
    | done =>
        rw [readPitchLines]
    | gap hNewline hGap =>
        rw [readPitchLines_cons, if_pos hNewline, if_pos hGap]
    | newline hNewline hGap _ ih =>
        rw [readPitchLines_cons, if_pos hNewline,
          if_neg hGap, ih]
    | last _ _ hLast =>
        exact hLast.elim
    | line hStart hLine _ _ ih =>
        rw [readPitchLines_cons, if_neg hStart, hLine]
        exact Stop.andThen_eq_ok.mpr ⟨_, _, _, rfl, ih, rfl⟩

/- Stanzas were read, up to the end of the text. -/
inductive StanzasRead
    (fin : Token) : List Token → List Stanza → Prop where
  | done :
      StanzasRead fin [] []
  | newline {t : Token} {ts : List Token}
      {stanzas : List Stanza}
      (hNewline : t.kind = .newline)
      (hMore : StanzasRead fin ts stanzas) :
      StanzasRead fin (t :: ts) stanzas
  | stanza {t : Token} {ts after : List Token}
      {stanza : Stanza} {stanzas : List Stanza}
      (hStart : t.kind ≠ .newline)
      (hStanza : readStanza fin (t :: ts) = .ok (stanza, after))
      (hMore : StanzasRead fin after stanzas) :
      StanzasRead fin (t :: ts) (stanza :: stanzas)

/-
  Stanzas are read one by one, with line ends between them.
-/
theorem readStanzas_iff
    {stanzas : List Stanza} :
    readStanzas fin ts = .ok stanzas ↔
      StanzasRead fin ts stanzas := by
  constructor
  · intro hStanzas
    induction ts using readStanzas.induct fin generalizing
      stanzas with
    | case1 =>
        rw [readStanzas] at hStanzas
        cases hStanzas
        exact .done
    | case2 t ts hNewline ih =>
        rw [readStanzas_cons, if_pos hNewline] at hStanzas
        exact .newline hNewline (ih hStanzas)
    | case3 t ts hStart s hStop =>
        rw [readStanzas_cons, if_neg hStart, hStop] at hStanzas
        cases hStanzas
    | case4 t ts hStart stanza after hStanza s hStop ih =>
        simp only [readStanzas_cons, if_neg hStart, hStanza,
          hStop] at hStanzas
        cases hStanzas
    | case5 t ts hStart stanza after hStanza others hOthers
        ih =>
        simp only [readStanzas_cons, if_neg hStart, hStanza,
          hOthers] at hStanzas
        cases hStanzas
        exact .stanza hStart hStanza (ih hOthers)
  · intro hRead
    induction hRead with
    | done =>
        rw [readStanzas]
    | newline hNewline _ ih =>
        rw [readStanzas_cons, if_pos hNewline, ih]
    | stanza hStart hStanza _ ih =>
        simp only [readStanzas_cons, if_neg hStart, hStanza, ih]

/-
  A stanza was read if its lyric lines were, and its pitch
  lines behind them.
-/
theorem readStanza_eq_ok
    {stanza : Stanza} :
    readStanza fin ts = .ok (stanza, rest) ↔
      ∃ between,
        readLyricLines fin ts =
            .ok (stanza.lyrics, between) ∧
          readPitchLines fin between =
            .ok (stanza.pitches, rest) := by
  constructor
  · intro hStanza
    unfold readStanza at hStanza
    cases hLyrics : readLyricLines fin ts with
    | error s =>
        rw [hLyrics] at hStanza
        cases hStanza
    | ok step =>
        simp only [hLyrics] at hStanza
        cases hPitches : readPitchLines fin step.2 with
        | error s =>
            rw [hPitches] at hStanza
            cases hStanza
        | ok step' =>
            rw [hPitches] at hStanza
            cases hStanza
            exact ⟨step.2, rfl, hPitches⟩
  · rintro ⟨between, hLyrics, hPitches⟩
    rw [readStanza, hLyrics]
    simp only [hPitches]

/- A text is read if the stanzas behind its title are. -/
theorem Manuscript.ofBody_iff
    {m : Manuscript} :
    ofBody fin ts = .ok m ↔
      m.title =
          (readTitle (ts.dropWhile Token.isNewline)).1 ∧
        readStanzas fin
            (readTitle (ts.dropWhile Token.isNewline)).2 =
          .ok m.stanzas := by
  unfold ofBody
  rcases m with ⟨title, stanzas⟩
  cases ts.dropWhile Token.isNewline with
  | nil =>
      simp [readTitle, readStanzas, eq_comm]
  | cons t rest =>
      cases hStanzas : readStanzas fin
        (readTitle (t :: rest)).2 <;>
        simp [hStanzas, eq_comm]

end LyricScore
