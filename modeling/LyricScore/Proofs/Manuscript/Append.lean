import LyricScore.Proofs.Manuscript.Extent
import LyricScore.Proofs.Manuscript.Modifiers
import LyricScore.Proofs.Token.Append

/-
  This file shows that what is read from some tokens is also
  read from longer lists, if an empty line stands behind the
  tokens: brackets and chords are closed before it, lines end
  at it, and a new stanza starts behind it.

  Key definitions include:
    * `Closed`
    * `Gap`

  Key theorems include:
    * `EntriesRead.append`, `LineRead.append`, `LinesRead.append`
    * `readEntries_append`, `readChordEntries_append`
    * `readPitchUnit_append`
    * `readLyricLines_append`, `readPitchLines_append`
    * `readTitle_append`
    * `readStanzas_append`
    * `Manuscript.ofBody_append`
-/

namespace LyricScore

------------------------------------------------------------
-- Empty lines
------------------------------------------------------------

/- The last token, if there is one, is a line end. -/
def Closed
    (ts : List Token) : Prop :=
  ∀ t ∈ ts.getLast?, t.kind = .newline

theorem Closed.of_suffix
    {ts us : List Token}
    (hClosed : Closed ts)
    (hSuffix : us <:+ ts) :
    Closed us := by
  rcases hSuffix with ⟨taken, rfl⟩
  intro t ht
  refine hClosed t ?_
  rw [List.getLast?_append, ht]
  rfl

/- Line ends, at least two of them, and what follows them. -/
def Gap
    (tail behind : List Token) : Prop :=
  ∃ ends,
    tail = ends ++ behind ∧
      2 ≤ ends.length ∧
      ∀ t ∈ ends, t.kind = .newline

namespace Gap

variable {tail behind : List Token}

/- A gap starts with two line ends. -/
theorem exists_cons_cons
    (hGap : Gap tail behind) :
    ∃ t u ends,
      tail = t :: u :: (ends ++ behind) ∧
        ∀ v ∈ t :: u :: ends, v.kind = .newline := by
  rcases hGap with ⟨ends, rfl, hLength, hEnds⟩
  cases ends with
  | nil =>
      cases hLength
  | cons t ends =>
      cases ends with
      | nil =>
          exact absurd hLength (Nat.not_succ_le_self 1)
      | cons u ends =>
          exact ⟨t, u, ends, rfl, hEnds⟩

/- A gap starts with two line ends. -/
theorem starts
    (hGap : Gap tail behind) :
    ∃ t rest,
      tail = t :: rest ∧
        t.kind = .newline ∧
        atNewline rest = true := by
  rcases hGap.exists_cons_cons with ⟨t, u, ends, rfl, hEnds⟩
  rw [List.forall_mem_cons, List.forall_mem_cons] at hEnds
  exact ⟨t, u :: (ends ++ behind), rfl, hEnds.1,
    decide_eq_true hEnds.2.1⟩

theorem atNewline_tail
    (hGap : Gap tail behind) :
    atNewline tail = true := by
  rcases hGap.starts with ⟨t, rest, rfl, hKind, -⟩
  exact decide_eq_true hKind

theorem cons
    {t : Token}
    (hKind : t.kind = .newline)
    (hGap : Gap tail behind) :
    Gap (t :: tail) behind := by
  rcases hGap with ⟨ends, rfl, hLength, hEnds⟩
  refine ⟨t :: ends, rfl, ?_,
    List.forall_mem_cons.mpr ⟨hKind, hEnds⟩⟩
  rw [List.length_cons]
  omega

end Gap

variable {fin t : Token}
variable (fin' : Token)
variable {ts rest tail behind : List Token}

/-
  The head of a list that is not empty does not depend on
  what follows.
-/
theorem atNewline_append
    (tail : List Token)
    (hTokens : ts ≠ []) :
    atNewline (ts ++ tail) = atNewline ts := by
  cases ts with
  | nil =>
      exact absurd rfl hTokens
  | cons t ts =>
      rfl

------------------------------------------------------------
-- Readings before a tail
------------------------------------------------------------

/-
  Brackets that are closed are closed before any tail.  Behind
  an entry they are still open, so something is left there.
-/
theorem EntriesRead.append
    {α : Type}
    {closes : TokenKind}
    {entry entry' :
      Token →
        List Token →
        Except ScoreError (α × List Token)}
    {entries : List α}
    {closing : Token}
    (hLonger :
      ∀ {t us a after},
        after ≠ [] →
          entry t us = .ok (a, after) →
          entry' t (us ++ tail) = .ok (a, after ++ tail))
    (hRead : EntriesRead closes entry ts entries closing rest) :
    EntriesRead closes entry' (ts ++ tail) entries closing
      (rest ++ tail) := by
  induction hRead with
  | close hClosing =>
      exact .close hClosing
  | @entry t closing ts after rest a more hOpen hEntry hMore
      ih =>
      have hAfter : after ≠ [] := by
        rintro rfl
        cases hMore
      exact .entry hOpen (hLonger hAfter hEntry) ih

/-
  A line ends at a line end, and is read as
  before if its units are.
-/
theorem LineRead.append
    {α : Type}
    {unit unit' :
      Token → List Token → Except Stop (α × List Token)}
    {units : List α}
    (hTail : atNewline tail = true)
    (hShorter :
      ∀ {t us a after},
        unit t us = .ok (a, after) → after <:+ t :: us)
    (hLonger : ∀ {t us a after},
      t :: us <:+ ts → unit t us = .ok (a, after) →
        unit' t (us ++ tail) = .ok (a, after ++ tail))
    (hRead : LineRead unit ts units rest) :
    LineRead unit' (ts ++ tail) units (rest ++ tail) := by
  induction hRead with
  | @done ts hEnd =>
      cases ts with
      | nil =>
          exact .done (.inr hTail)
      | cons t ts =>
          exact .done
            (.inr
              (hEnd.resolve_left (List.cons_ne_nil t ts)))
  | unit hNewline hUnit _ ih =>
      have hMore :=
        ih fun hSuffix =>
          hLonger (hSuffix.trans (hShorter hUnit))
      exact .unit hNewline (hLonger List.suffix_rfl hUnit) hMore

/-
  Lines that end before a gap are read as before; a line end
  may join the gap.
-/
theorem LinesRead.append
    {α : Type}
    {IsLast : List α → Prop}
    {line line' :
      List Token → Except Stop (List α × List Token)}
    {lines : List (List α)}
    (hGap : Gap tail behind)
    (hShorter :
      ∀ {us units after},
        line us = .ok (units, after) → after <:+ us)
    (hLonger :
      ∀ {us units after},
        us <:+ ts →
          line us = .ok (units, after) →
          line' (us ++ tail) = .ok (units, after ++ tail))
    (hRead : LinesRead IsLast line ts lines rest) :
    ∃ more,
      Gap more behind ∧
        LinesRead IsLast line' (ts ++ tail) lines
          (rest ++ more) := by
  induction hRead with
  | done =>
      rcases hGap.starts with ⟨t, us, rfl, hKind, hNext⟩
      exact ⟨t :: us, hGap, .gap hKind hNext⟩
  | @gap t ts hNewline hNext =>
      have hTokens : ts ≠ [] := by
        rintro rfl
        cases hNext
      exact ⟨tail, hGap,
        .gap hNewline
          ((atNewline_append tail hTokens).trans hNext)⟩
  | @newline t ts rest lines hNewline hNext hMore ih =>
      cases ts with
      | nil =>
          cases hMore
          exact ⟨t :: tail, hGap.cons hNewline,
            .gap hNewline hGap.atNewline_tail⟩
      | cons u us =>
          rcases ih fun hSuffix =>
            hLonger
              (hSuffix.trans
                (List.suffix_cons t (u :: us))) with
            ⟨more, hBehind, hRead⟩
          have hSame :=
            atNewline_append tail (List.cons_ne_nil u us)
          have hNotEmpty :=
            fun hEnd => hNext (hSame.symm.trans hEnd)
          exact ⟨more, hBehind,
            .newline hNewline hNotEmpty hRead⟩
  | last hStart hLine hLast =>
      exact ⟨tail, hGap,
        .last hStart (hLonger List.suffix_rfl hLine) hLast⟩
  | line hStart hLine hLast _ ih =>
      rcases ih fun hSuffix =>
        hLonger (hSuffix.trans (hShorter hLine)) with
        ⟨more, hBehind, hRead⟩
      exact ⟨more, hBehind,
        .line hStart (hLonger List.suffix_rfl hLine)
          hLast hRead⟩

------------------------------------------------------------
-- Bracket groups
------------------------------------------------------------

/- A number is read whatever follows it. -/
theorem takeNumber_append
    {name : DirectiveName}
    {n : Int}
    (tail : List Token)
    (hNumber : takeNumber fin name ts = .ok (n, rest)) :
    takeNumber fin' name (ts ++ tail) =
      .ok (n, rest ++ tail) := by
  cases ts with
  | nil =>
      cases hNumber
  | cons t ts =>
      simp only [List.cons_append, takeNumber] at hNumber ⊢
      by_cases hKind : t.kind = .number
      · rw [if_pos hKind] at hNumber
        rw [if_pos hKind]
        split at hNumber
        · cases hNumber
          rfl
        · cases hNumber
      · rw [if_neg hKind] at hNumber
        cases hNumber

/-
  What is taken or left at the head of a list, if a line end
  follows the list.
-/
theorem takeAccidental_append_tail
    (ts : List Token)
    (hTail : atNewline tail = true) :
    takeAccidental (ts ++ tail) =
      ((takeAccidental ts).1,
        (takeAccidental ts).2 ++ tail) := by
  cases ts with
  | nil =>
      cases tail with
      | nil =>
          rfl
      | cons t tail =>
          have hKind : t.kind = .newline :=
            of_decide_eq_true hTail
          simp [takeAccidental, hKind]
  | cons t ts =>
      simp only [List.cons_append, takeAccidental]
      split <;> rfl

/- Before a line end, a dot is read as it is alone. -/
theorem takeDot_append_tail
    (ts : List Token)
    (hTail : atNewline tail = true) :
    takeDot (ts ++ tail) =
      ((takeDot ts).1, (takeDot ts).2 ++ tail) := by
  cases ts with
  | nil =>
      cases tail with
      | nil =>
          rfl
      | cons t tail =>
          have hKind : t.kind = .newline :=
            of_decide_eq_true hTail
          simp [takeDot, hKind]
  | cons t ts =>
      simp only [List.cons_append, takeDot]
      split <;> rfl

/- Before a line end, an order is read as it is alone. -/
theorem readOrder_append
    {name : DirectiveName}
    {order : Order}
    (hTail : atNewline tail = true)
    (hOrder : readOrder fin name ts = .ok (order, rest)) :
    readOrder fin' name (ts ++ tail) =
      .ok (order, rest ++ tail) := by
  cases name with
  | beatUnit =>
      rcases Outcome.map_eq_ok.mp hOrder with
        ⟨⟨n, after⟩, hNumber, hRest⟩
      cases hRest
      refine Outcome.map_eq_ok.mpr
        ⟨_, takeNumber_append fin' tail hNumber, ?_⟩
      simp only [takeDot_append_tail after hTail]
      rfl
  | key =>
      rcases Outcome.map_eq_ok.mp hOrder with
        ⟨⟨n, after⟩, hNumber, hRest⟩
      cases hRest
      simp only [readOrder, takeAccidental_append_tail ts hTail]
      exact Outcome.map_eq_ok.mpr
        ⟨_, takeNumber_append fin' tail hNumber, rfl⟩
  | _ =>
      rcases Outcome.map_eq_ok.mp hOrder with
        ⟨⟨n, after⟩, hNumber, hRest⟩
      cases hRest
      exact Outcome.map_eq_ok.mpr
        ⟨_, takeNumber_append fin' tail hNumber, rfl⟩

theorem readEntry_append
    {entry : BracketEntry}
    (hTail : atNewline tail = true)
    (hEntry : readEntry fin t ts = .ok (entry, rest)) :
    readEntry fin' t (ts ++ tail) =
      .ok (entry, rest ++ tail) := by
  unfold readEntry at hEntry ⊢
  by_cases hKind : t.kind = .identifier
  · rw [if_pos hKind] at hEntry
    rw [if_pos hKind]
    split at hEntry
    · rcases Outcome.map_eq_ok.mp hEntry with
        ⟨⟨order, after⟩, hOrder, hRest⟩
      cases hRest
      exact Outcome.map_eq_ok.mpr
        ⟨_, readOrder_append fin' hTail hOrder, rfl⟩
    · cases hEntry
      rfl
  · rw [if_neg hKind] at hEntry
    cases hEntry
    rw [if_neg hKind]

/-
  Before a line end, the entries of brackets are read as
  they are alone.
-/
theorem readEntries_append
    {entries : List BracketEntry}
    {closing : Token}
    (hTail : atNewline tail = true)
    (hEntries :
      readEntries fin ts = .ok (entries, closing, rest)) :
    readEntries fin' (ts ++ tail) =
      .ok (entries, closing, rest ++ tail) := by
  rw [readEntries_iff] at hEntries ⊢
  exact hEntries.append fun _ => readEntry_append fin' hTail

theorem readGroup_append
    {g : BracketGroup}
    (hTail : atNewline tail = true)
    (hGroup : readGroup fin t ts = .ok (g, rest)) :
    readGroup fin' t (ts ++ tail) = .ok (g, rest ++ tail) := by
  rw [readGroup_iff] at hGroup ⊢
  exact ⟨hGroup.1, readEntries_append fin' hTail hGroup.2⟩

------------------------------------------------------------
-- Lyric lines
------------------------------------------------------------

theorem readLyricUnit_append
    {unit : LyricUnit}
    (hTail : atNewline tail = true)
    (hUnit : readLyricUnit fin t ts = .ok (unit, rest)) :
    readLyricUnit fin' t (ts ++ tail) =
      .ok (unit, rest ++ tail) := by
  rw [readLyricUnit_iff] at hUnit ⊢
  cases hUnit with
  | group hBracket hGroup =>
      exact .group hBracket (readGroup_append fin' hTail hGroup)
  | mark hBracket =>
      exact .mark hBracket

/- Before a line end, a lyric line is read as it is alone. -/
theorem readLyricLine_append
    {units : List LyricUnit}
    (hTail : atNewline tail = true)
    (hLine : readLyricLine fin ts = .ok (units, rest)) :
    readLyricLine fin' (ts ++ tail) =
      .ok (units, rest ++ tail) := by
  rw [readLyricLine_iff] at hLine ⊢
  refine hLine.append hTail ?_ fun _ =>
    readLyricUnit_append fin' hTail
  exact fun hUnit =>
    (readLyricUnit_suffix hUnit).trans
      (List.suffix_cons _ _)

/-
  Before a gap, lyric lines are read as they are alone, and
  a gap is left.
-/
theorem readLyricLines_append
    {lines : List (List LyricUnit)}
    (hGap : Gap tail behind)
    (hLines : readLyricLines fin ts = .ok (lines, rest)) :
    ∃ more,
      Gap more behind ∧
        readLyricLines fin' (ts ++ tail) =
          .ok (lines, rest ++ more) := by
  simp only [readLyricLines_iff] at hLines ⊢
  exact hLines.append hGap readLyricLine_suffix fun _ =>
    readLyricLine_append fin' hGap.atNewline_tail

------------------------------------------------------------
-- Pitch lines
------------------------------------------------------------

/-
  Where no letter is there, more tokens
  behind change nothing.
-/
theorem readRun.missing_append
    {shift : Int}
    {accidental : Option Accidental}
    {ps : List Pitch}
    (tail : List Token)
    (hMissing :
      missing fin shift accidental ts = .ok (ps, rest)) :
    missing fin' shift accidental (ts ++ tail) =
      .ok (ps, rest ++ tail) := by
  unfold missing at hMissing ⊢
  by_cases hNothing : shift = 0 ∧ accidental = none
  · rw [if_pos hNothing] at hMissing
    cases hMissing
    rw [if_pos hNothing]
  · rw [if_neg hNothing] at hMissing
    cases hMissing

/-
  Before a line end, a run is read as it is alone, unless
  nothing is there.
-/
theorem readRun_append
    {ps : List Pitch}
    (hTokens : ts ≠ [])
    (hTail : atNewline tail = true)
    (hRun : readRun fin ts = .ok (ps, rest)) :
    readRun fin' (ts ++ tail) = .ok (ps, rest ++ tail) := by
  cases tail with
  | nil =>
      cases hTail
  | cons newline tail =>
      have hKind : newline.kind = .newline :=
        of_decide_eq_true hTail
      have hStop : newline.isShift = false := by
        simp [Token.isShift, hKind]
      have hHead :
          (ts ++ newline :: tail).headD fin' =
            ts.headD fin := by
        cases ts with
        | nil =>
            exact absurd rfl hTokens
        | cons t ts =>
            rfl
      simp only [readRun, takeShifts,
        takeWhile_append_stop _ _ hStop,
        dropWhile_append_stop _ _ hStop,
        takeAccidental_append_tail _ hTail, hHead] at hRun ⊢
      cases hBehind :
        (takeAccidental (ts.dropWhile Token.isShift)).2 with
      | nil =>
          have hLetters : newline.letters? = none := by
            simp [Token.letters?, hKind]
          simp only [hBehind, List.nil_append,
            hLetters] at hRun ⊢
          exact readRun.missing_append fin'
            (newline :: tail) hRun
      | cons name after =>
          simp only [hBehind, List.cons_append] at hRun ⊢
          split at hRun
          · cases hRun
            rfl
          · cases hRun
          · exact readRun.missing_append fin'
              (newline :: tail) hRun

/-
  Before a line end, an entry of a chord is read as it is
  alone, if tokens are left behind it.
-/
theorem readChordEntry_append
    {entry : ChordEntry}
    (hTail : atNewline tail = true)
    (hRest : rest ≠ [])
    (hEntry :
      readChordEntry fin (t :: ts) = .ok (entry, rest)) :
    readChordEntry fin' (t :: ts ++ tail) =
      .ok (entry, rest ++ tail) := by
  rcases Outcome.map_eq_ok.mp hEntry with
    ⟨⟨ps, after⟩, hRun, hAfter⟩
  refine Outcome.map_eq_ok.mpr
    ⟨_,
      readRun_append fin' (List.cons_ne_nil t ts)
        hTail hRun, ?_⟩
  simp only at hAfter ⊢
  by_cases hNone : ps = []
  · rw [if_pos hNone] at hAfter
    cases hAfter
    rw [if_pos hNone]
    cases after with
    | nil =>
        exact absurd rfl hRest
    | cons u us =>
        rfl
  · rw [if_neg hNone] at hAfter
    cases hAfter
    rw [if_neg hNone]

theorem readChordEntries_append
    {entries : List ChordEntry}
    {closing : Token}
    (hTail : atNewline tail = true)
    (hEntries :
      readChordEntries fin ts =
        .ok (entries, closing, rest)) :
    readChordEntries fin' (ts ++ tail) =
      .ok (entries, closing, rest ++ tail) := by
  rw [readChordEntries_iff] at hEntries ⊢
  exact hEntries.append (readChordEntry_append fin' hTail)

/-
  Where no run starts something is left, since a
  line end is no modifier.
-/
theorem ne_nil_of_readRun
    (hTokens : ts ≠ [])
    (hClosed : Closed ts)
    (hRun : readRun fin ts = .ok ([], rest)) :
    rest ≠ [] := by
  rcases readRun_eq_ok hRun with
    ⟨_, _, _, -, -, hSome⟩ | ⟨-, hRest, -, hNothing⟩
  · cases hSome
  · rintro rfl
    have hAll := modifiers_append ts
    rw [← hRest, List.append_nil] at hAll
    rcases hNothing with hNone | hCancels
    · exact hTokens (hAll.symm.trans hNone)
    · cases hLast : ts.getLast? with
      | none =>
          exact hTokens (List.getLast?_eq_none_iff.mp hLast)
      | some last =>
          have hMember : last ∈ modifiers ts := by
            rw [hAll]
            exact List.mem_of_getLast? hLast
          have hShift := hCancels.only_shifts last hMember
          have hNewline : last.kind = .newline :=
            hClosed last hLast
          simp [Token.isShift, hNewline] at hShift

/-
  The unit at the head of tokens that end with a line end.
  Modifiers that cancel do not reach the line end, so the
  token they swallow is one of these tokens.
-/
theorem readPitchUnit_append
    {unit : PitchUnit}
    (hTail : atNewline tail = true)
    (hClosed : Closed (t :: ts))
    (hUnit : readPitchUnit fin t ts = .ok (unit, rest)) :
    readPitchUnit fin' t (ts ++ tail) =
      .ok (unit, rest ++ tail) := by
  rw [readPitchUnit_iff] at hUnit ⊢
  cases hUnit with
  | barline hBarline =>
      exact .barline hBarline
  | group hBracket hGroup =>
      exact .group hBracket (readGroup_append fin' hTail hGroup)
  | chord hParenthesis hEntries =>
      exact .chord hParenthesis
        (readChordEntries_append fin' hTail hEntries)
  | stray hBarline hBracket hParenthesis hRun =>
      have hAfter :=
        ne_nil_of_readRun (List.cons_ne_nil t ts)
          hClosed hRun
      have hLonger :=
        readRun_append fin' (List.cons_ne_nil t ts)
          hTail hRun
      rw [← List.tail_append_of_ne_nil hAfter]
      exact .stray hBarline hBracket hParenthesis hLonger
  | run hBarline hBracket hParenthesis hRun hPitches =>
      have hLonger :=
        readRun_append fin' (List.cons_ne_nil t ts)
          hTail hRun
      exact .run hBarline hBracket hParenthesis hLonger hPitches

/-
  Before a line end, a closed pitch line
  is read as it is alone.
-/
theorem readPitchLine_append
    {units : List PitchUnit}
    (hTail : atNewline tail = true)
    (hClosed : Closed ts)
    (hLine : readPitchLine fin ts = .ok (units, rest)) :
    readPitchLine fin' (ts ++ tail) =
      .ok (units, rest ++ tail) := by
  rw [readPitchLine_iff] at hLine ⊢
  exact hLine.append hTail readPitchUnit_suffix fun hSuffix =>
    readPitchUnit_append fin' hTail (hClosed.of_suffix hSuffix)

/-
  Before a gap, closed pitch lines are read as they are
  alone, and a gap is left.
-/
theorem readPitchLines_append
    {lines : List (List PitchUnit)}
    (hGap : Gap tail behind)
    (hClosed : Closed ts)
    (hLines : readPitchLines fin ts = .ok (lines, rest)) :
    ∃ more,
      Gap more behind ∧
        readPitchLines fin' (ts ++ tail) =
          .ok (lines, rest ++ more) := by
  simp only [readPitchLines_iff] at hLines ⊢
  exact hLines.append hGap readPitchLine_suffix fun hSuffix =>
    readPitchLine_append fin' hGap.atNewline_tail
      (hClosed.of_suffix hSuffix)

------------------------------------------------------------
-- Paragraphs
------------------------------------------------------------

/-
  A title that ends before a gap is the same; what is behind
  it goes on at the gap.
-/
theorem readTitle_append
    (hGap : Gap tail behind)
    (ts : List Token) :
    ∃ more,
      readTitle (ts ++ tail) =
          ((readTitle ts).1, (readTitle ts).2 ++ more) ∧
        (Gap more behind ∨
            (readTitle ts).2 = [] ∧
              ∃ ends,
                more = ends ++ behind ∧
                  ∀ t ∈ ends, t.kind = .newline) := by
  induction ts using readTitle.induct with
  | case1 =>
      rcases hGap.exists_cons_cons with ⟨t, u, ends, rfl, hEnds⟩
      rw [List.forall_mem_cons] at hEnds
      have hNext : atNewline (u :: (ends ++ behind)) = true :=
        decide_eq_true (hEnds.2 u List.mem_cons_self)
      refine ⟨u :: ends ++ behind, ?_,
        .inr ⟨by rw [readTitle], u :: ends, rfl, hEnds.2⟩⟩
      rw [List.nil_append, readTitle_cons, if_pos hEnds.1,
        if_pos hNext, readTitle]
      rfl
  | case2 t ts hNewline hNext =>
      have hKind : t.kind = .newline :=
        of_decide_eq_true hNewline
      have hTokens : ts ≠ [] := by
        rintro rfl
        cases hNext
      refine ⟨tail, ?_, .inl hGap⟩
      rw [List.cons_append, readTitle_cons, readTitle_cons,
        if_pos hKind, if_pos hKind,
        atNewline_append tail hTokens, if_pos hNext,
        if_pos hNext]
  | case3 t ts hNewline hNext ih =>
      have hKind : t.kind = .newline :=
        of_decide_eq_true hNewline
      cases ts with
      | nil =>
          refine ⟨tail, ?_, .inl hGap⟩
          rw [List.cons_append, List.nil_append,
            readTitle_cons, readTitle_cons, if_pos hKind,
            if_pos hKind, if_pos hGap.atNewline_tail,
            if_neg hNext, readTitle, List.nil_append]
      | cons u us =>
          rcases ih with ⟨more, hRead, hMore⟩
          rw [readTitle_cons t (u :: us), if_pos hKind,
            if_neg hNext]
          refine ⟨more, ?_, hMore⟩
          rw [List.cons_append, readTitle_cons,
            if_pos hKind,
            atNewline_append tail (List.cons_ne_nil u us),
            if_neg hNext, hRead]
  | case4 t ts hNewline lines after hTitle ih =>
      have hKind : t.kind ≠ .newline :=
        fun hKind => hNewline (decide_eq_true hKind)
      rcases ih with ⟨more, hRead, hMore⟩
      rcases hGap.starts with ⟨u, us, rfl, hEnd, -⟩
      have hStop : (!u.isNewline) = false := by
        simp [Token.isNewline, hEnd]
      have hTake :=
        @takeWhile_append_stop Token (fun v => !v.isNewline)
          u ts us hStop
      have hDrop :=
        @dropWhile_append_stop Token (fun v => !v.isNewline)
          u ts us hStop
      rw [readTitle_cons t ts, if_neg hKind]
      refine ⟨more, ?_, hMore⟩
      rw [List.cons_append, readTitle_cons, if_neg hKind,
        hTake, hDrop, hRead]

/-
  Before a gap, a closed stanza is read as it is alone, and
  a gap is left.
-/
theorem readStanza_append
    {stanza : Stanza}
    (hGap : Gap tail behind)
    (hClosed : Closed ts)
    (hStanza : readStanza fin ts = .ok (stanza, rest)) :
    ∃ more,
      Gap more behind ∧
        readStanza fin' (ts ++ tail) =
          .ok (stanza, rest ++ more) := by
  rcases readStanza_eq_ok.mp hStanza with
    ⟨between, hLyrics, hPitches⟩
  have hBetween :=
    hClosed.of_suffix (readLyricLines_suffix hLyrics)
  rcases readLyricLines_append fin' hGap hLyrics with
    ⟨middle, hMiddle, hLyrics'⟩
  rcases readPitchLines_append fin' hMiddle hBetween
      hPitches with
    ⟨more, hMore, hPitches'⟩
  exact ⟨more, hMore,
    readStanza_eq_ok.mpr ⟨_, hLyrics', hPitches'⟩⟩

/- Line ends before stanzas do not matter. -/
theorem readStanzas_newlines
    {ends : List Token}
    (fin : Token)
    (behind : List Token)
    (hEnds : ∀ t ∈ ends, t.kind = .newline) :
    readStanzas fin (ends ++ behind) =
      readStanzas fin behind := by
  induction ends with
  | nil =>
      rfl
  | cons t ends ih =>
      rw [List.forall_mem_cons] at hEnds
      rw [List.cons_append, readStanzas_cons,
        if_pos hEnds.1, ih hEnds.2]

/-
  A stanza that is read is the first; an error
  is that of the others.
-/
theorem readStanzas_of_stanza
    {stanza : Stanza}
    (hStart : t.kind ≠ .newline)
    (hStanza : readStanza fin (t :: ts) = .ok (stanza, rest)) :
    (readStanzas fin (t :: ts)).mapError Stop.error =
      ((readStanzas fin rest).mapError Stop.error).map
        (stanza :: ·) := by
  rw [readStanzas_cons, if_neg hStart, hStanza]
  cases hOthers : readStanzas fin rest <;>
    simp only [hOthers] <;> rfl

/-
  Stanzas that end before a gap, and then those behind it: the
  errors that may occur are those behind the gap.
-/
theorem readStanzas_append
    {stanzas : List Stanza}
    (hGap : Gap tail behind)
    (hClosed : Closed ts)
    (hStanzas : readStanzas fin ts = .ok stanzas) :
    (readStanzas fin' (ts ++ tail)).mapError Stop.error =
      ((readStanzas fin' behind).mapError Stop.error).map
        (stanzas ++ ·) := by
  rw [readStanzas_iff] at hStanzas
  induction hStanzas generalizing tail with
  | done =>
      rcases hGap with ⟨ends, rfl, -, hEnds⟩
      rw [List.nil_append,
        readStanzas_newlines fin' behind hEnds]
      cases readStanzas fin' behind <;> rfl
  | @newline t rest stanzas hNewline _ ih =>
      rw [List.cons_append, readStanzas_cons, if_pos hNewline]
      exact ih hGap
        (hClosed.of_suffix (List.suffix_cons t rest))
  | stanza hStart hStanza _ ih =>
      rcases readStanza_append fin' hGap hClosed
          hStanza with
        ⟨more, hMore, hLonger⟩
      have hLater :=
        ih hMore
          (hClosed.of_suffix (readStanza_suffix hStanza))
      rw [List.cons_append] at hLonger ⊢
      rw [readStanzas_of_stanza hStart hLonger, hLater,
        Outcome.map_map]
      rfl

/-
  Behind the line ends at its head, a text
  starts with its title.
-/
theorem Manuscript.ofBody_of_title
    {t : Token}
    {ts rest : List Token}
    (fin : Token)
    (hTokens : ts.dropWhile Token.isNewline = t :: rest) :
    ofBody fin ts =
      (readStanzas fin (readTitle (t :: rest)).2).map
        (mk (readTitle (t :: rest)).1) := by
  unfold ofBody
  rw [hTokens]
  cases hStanzas : readStanzas fin
    (readTitle (t :: rest)).2 <;>
    simp only [hStanzas] <;> rfl

/-
  A manuscript with a title that ends before a gap: behind the
  gap there are only stanzas, even if there are none before it.
-/
theorem Manuscript.ofBody_append
    {m : Manuscript}
    (hGap : Gap tail behind)
    (hClosed : Closed ts)
    (hTitle : m.title ≠ [])
    (hBody : ofBody fin ts = .ok m) :
    (ofBody fin' (ts ++ tail)).mapError Stop.error =
      ((readStanzas fin' behind).mapError Stop.error).map
        fun stanzas =>
        ⟨m.title, m.stanzas ++ stanzas⟩ := by
  cases hTokens : ts.dropWhile Token.isNewline with
  | nil =>
      unfold ofBody at hBody
      rw [hTokens] at hBody
      cases hBody
      exact absurd rfl hTitle
  | cons t rest =>
      have hLonger :
          (ts ++ tail).dropWhile Token.isNewline =
            t :: (rest ++ tail) := by
        rw [List.dropWhile_append, hTokens]
        rfl
      rw [ofBody_of_title fin hTokens] at hBody
      rcases Outcome.map_eq_ok.mp hBody with
        ⟨stanzas, hStanzas, rfl⟩
      have hAfter : Closed (readTitle (t :: rest)).2 := by
        have hDropped :=
          hTokens ▸ List.dropWhile_suffix Token.isNewline
        exact hClosed.of_suffix
          ((readTitle_suffix (t :: rest)).trans hDropped)
      rcases readTitle_append hGap (t :: rest) with
        ⟨more, hRead, hMore⟩
      rw [List.cons_append] at hRead
      have hBoth :
          (readStanzas fin'
              ((readTitle (t :: rest)).2 ++ more)).mapError
              Stop.error =
            ((readStanzas fin' behind).mapError
              Stop.error).map (stanzas ++ ·) := by
        rcases hMore with hGap' | ⟨hNone, ends, rfl, hEnds⟩
        · exact readStanzas_append fin' hGap' hAfter hStanzas
        · rw [hNone, readStanzas] at hStanzas
          cases hStanzas
          rw [hNone, List.nil_append,
            readStanzas_newlines fin' behind hEnds]
          cases readStanzas fin' behind <;> rfl
      rw [ofBody_of_title fin' hLonger, hRead,
        Outcome.mapError_map, hBoth, Outcome.map_map]
      rfl

end LyricScore
