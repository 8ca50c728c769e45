import LyricScore.Proofs.Manuscript.Section

/-
  This file cuts the tokens of a lyric section into pieces,
  without reading them: bracket groups, and tokens by
  themselves.  A group is read from its own tokens, whatever
  stands behind it, so pieces are what lyric lines are read
  as.

  Key definitions include:
    * `takeLyrics`
    * `LyricPiece`, `LyricPiece.tokens`, `LyricPiece.unit`
    * `pieces`
    * `unitLines`, `physicalLines`

  Key theorems include:
    * `takeLyrics_append`
    * `flatMap_tokens_pieces`
    * `readEntries_within`
    * `readLyricLines_pieces`
-/

namespace LyricScore

------------------------------------------------------------
-- Groups are read from their own tokens
------------------------------------------------------------

section Within

variable {fin closing : Token}
variable {inside rest after : List Token}

/-
  Of the tokens before a closing bracket, these are left; and
  they are left whatever follows the bracket.
-/
def LeftWithin
    {α : Type}
    (read :
      Token →
        List Token →
        Except ScoreError (α × List Token))
    (closing : Token)
    (inside : List Token)
    (a : α)
    (left : List Token) : Prop :=
  left <:+ inside ∧
    ∀ fin more,
      read fin (inside ++ closing :: more) =
        .ok (a, left ++ closing :: more)

/-
  A number before a closing bracket is read the same,
  whatever follows the bracket.
-/
theorem takeNumber_within
    {name : DirectiveName}
    {n : Int}
    (hClosing : closing.kind = .closeBracket)
    (hNumber :
      takeNumber fin name (inside ++ closing :: rest) =
        .ok (n, after)) :
    ∃ left,
      after = left ++ closing :: rest ∧
        LeftWithin (fun fin => takeNumber fin name) closing
          inside n left := by
  cases inside with
  | nil =>
      rw [List.nil_append, takeNumber, hClosing,
        if_neg (by decide)] at hNumber
      cases hNumber
  | cons t inside =>
      rw [List.cons_append, takeNumber] at hNumber
      by_cases hKind : t.kind = .number
      · rw [if_pos hKind] at hNumber
        cases hValue : Numeral.read t.text with
        | error e =>
            rw [hValue] at hNumber
            cases hNumber
        | ok m =>
            rw [hValue] at hNumber
            cases hNumber
            refine ⟨inside, rfl, List.suffix_cons t inside,
              fun fin more => ?_⟩
            simp only [List.cons_append, takeNumber,
              if_pos hKind, hValue]
      · rw [if_neg hKind] at hNumber
        cases hNumber

/-
  An accidental before a closing bracket is read the same,
  whatever follows the bracket.
-/
theorem takeAccidental_within
    (hClosing : closing.kind = .closeBracket)
    (inside more : List Token) :
    takeAccidental (inside ++ closing :: more) =
      ((takeAccidental inside).1,
        (takeAccidental inside).2 ++ closing :: more) := by
  cases inside with
  | nil =>
      simp [takeAccidental, hClosing]
  | cons t inside =>
      rw [List.cons_append, takeAccidental, takeAccidental]
      split <;> rfl

theorem takeDot_within
    (hClosing : closing.kind = .closeBracket)
    (inside more : List Token) :
    takeDot (inside ++ closing :: more) =
      ((takeDot inside).1,
        (takeDot inside).2 ++ closing :: more) := by
  cases inside with
  | nil =>
      simp [takeDot, hClosing]
  | cons t inside =>
      rw [List.cons_append, takeDot, takeDot]
      split <;> rfl

theorem takeDot_suffix
    (ts : List Token) :
    (takeDot ts).2 <:+ ts := by
  rcases takeDot_inside ts with ⟨taken, hTaken, -⟩
  exact ⟨taken, hTaken.symm⟩

/-
  An order before a closing bracket is read the same,
  whatever follows the bracket.
-/
theorem readOrder_within
    {name : DirectiveName}
    {order : Order}
    (hClosing : closing.kind = .closeBracket)
    (hOrder :
      readOrder fin name (inside ++ closing :: rest) =
        .ok (order, after)) :
    ∃ left,
      after = left ++ closing :: rest ∧
        LeftWithin (fun fin => readOrder fin name) closing
          inside order left := by
  cases name with
  | beatUnit =>
      rcases Outcome.map_eq_ok.mp hOrder with
        ⟨⟨n, behind⟩, hNumber, hSame⟩
      rcases takeNumber_within hClosing hNumber with
        ⟨left, rfl, hSuffix, hAlways⟩
      simp only [takeDot_within hClosing] at hSame
      cases hSame
      refine ⟨(takeDot left).2, rfl,
        (takeDot_suffix left).trans hSuffix,
        fun fin more => ?_⟩
      refine Outcome.map_eq_ok.mpr ⟨_, hAlways fin more, ?_⟩
      simp only [takeDot_within hClosing]
  | key =>
      simp only [readOrder,
        takeAccidental_within hClosing] at hOrder
      rcases Outcome.map_eq_ok.mp hOrder with
        ⟨⟨n, behind⟩, hNumber, hSame⟩
      rcases takeNumber_within hClosing hNumber with
        ⟨left, rfl, hSuffix, hAlways⟩
      cases hSame
      refine ⟨left, rfl,
        hSuffix.trans (takeAccidental_suffix inside),
        fun fin more => ?_⟩
      simp only [readOrder, takeAccidental_within hClosing]
      exact Outcome.map_eq_ok.mpr ⟨_, hAlways fin more, rfl⟩
  | _ =>
      rcases Outcome.map_eq_ok.mp hOrder with
        ⟨⟨n, behind⟩, hNumber, hSame⟩
      rcases takeNumber_within hClosing hNumber with
        ⟨left, rfl, hSuffix, hAlways⟩
      cases hSame
      exact ⟨left, rfl, hSuffix, fun fin more =>
        Outcome.map_eq_ok.mpr ⟨_, hAlways fin more, rfl⟩⟩

/-
  An entry before a closing bracket is read the same,
  whatever follows the bracket.
-/
theorem readEntry_within
    {t : Token}
    {entry : BracketEntry}
    (hClosing : closing.kind = .closeBracket)
    (hEntry :
      readEntry fin t (inside ++ closing :: rest) =
        .ok (entry, after)) :
    ∃ left,
      after = left ++ closing :: rest ∧
        LeftWithin (fun fin => readEntry fin t) closing
          inside entry left := by
  unfold readEntry at hEntry
  by_cases hKind : t.kind = .identifier
  · rw [if_pos hKind] at hEntry
    cases hName : DirectiveName.ofText? t.text with
    | some name =>
        simp only [hName] at hEntry
        rcases Outcome.map_eq_ok.mp hEntry with
          ⟨⟨order, behind⟩, hOrder, hSame⟩
        rcases readOrder_within hClosing hOrder with
          ⟨left, rfl, hSuffix, hAlways⟩
        cases hSame
        refine ⟨left, rfl, hSuffix, fun fin more => ?_⟩
        simp only [readEntry, if_pos hKind, hName]
        exact Outcome.map_eq_ok.mpr ⟨_, hAlways fin more, rfl⟩
    | none =>
        rw [hName] at hEntry
        cases hEntry
        refine
          ⟨inside, rfl, List.suffix_rfl, fun fin more => ?_⟩
        simp only [readEntry, if_pos hKind, hName]
  · rw [if_neg hKind] at hEntry
    cases hEntry
    refine ⟨inside, rfl, List.suffix_rfl, fun fin more => ?_⟩
    simp only [readEntry, if_neg hKind]

/-
  What is read inside brackets does not depend on what
  follows them.
-/
theorem readEntries_within
    {ts : List Token}
    {entries : List BracketEntry}
    (hEntries :
      readEntries fin ts = .ok (entries, closing, rest)) :
    ∃ inside,
      ts = inside ++ closing :: rest ∧
        (∀ t ∈ inside, t.kind ≠ .closeBracket) ∧
        closing.kind = .closeBracket ∧
        ∀ fin more,
          readEntries fin (inside ++ closing :: more) =
            .ok (entries, closing, more) := by
  rcases readEntries_eq_ok hEntries with
    ⟨⟨inside, rfl, hInside⟩, hClosing⟩
  refine ⟨inside, rfl, hInside, hClosing, ?_⟩
  generalize hLength : inside.length = n
  induction n using Nat.strongRecOn generalizing inside
    entries with
  | ind n ih =>
      intro fin' more
      cases inside with
      | nil =>
          rw [List.nil_append, readEntries_cons,
            if_pos hClosing] at hEntries ⊢
          cases hEntries
          rfl
      | cons t inside =>
          have hOpen : t.kind ≠ .closeBracket :=
            hInside t List.mem_cons_self
          rw [List.cons_append, readEntries_cons,
            if_neg hOpen] at hEntries ⊢
          rcases Stop.andThen_eq_ok.mp hEntries with
            ⟨entry, after, others, hFirst, hOthers, rfl⟩
          rcases readEntry_within hClosing
            (Outcome.mapError_eq_ok.mp hFirst) with
            ⟨left, rfl, hSuffix, hAlways⟩
          have hShorter : left.length < n := by
            have := hSuffix.length_le
            rw [← hLength, List.length_cons]
            omega
          have hLeft : ∀ u ∈ left, u.kind ≠ .closeBracket :=
            fun u hu =>
              hInside u
                (List.mem_cons_of_mem t (hSuffix.subset hu))
          refine Stop.andThen_eq_ok.mpr
            ⟨entry, left ++ closing :: more, others, ?_, ?_,
              rfl⟩
          · exact Outcome.mapError_eq_ok.mpr (hAlways fin' more)
          · exact ih left.length hShorter left hLeft hOthers
              rfl fin' more

end Within

------------------------------------------------------------
-- Pieces
------------------------------------------------------------

/-
  A bracket group with its brackets, or a
  token outside of groups.
-/
inductive LyricPiece where
  | token (t : Token)
  | group (opening : Token) (inside : List Token)
      (closing : Token)
deriving DecidableEq, Repr

/- The entries that the tokens inside brackets are. -/
def entriesWithin
    (inside : List Token)
    (closing : Token) : List BracketEntry :=
  match readEntries closing (inside ++ [closing]) with
  | .ok (entries, _) => entries
  | .error _ => []

namespace LyricPiece

/- The tokens of a piece. -/
def tokens : LyricPiece → List Token
  | token t => [t]
  | group opening inside closing =>
      opening :: (inside ++ [closing])

/- The unit that a piece is read as. -/
def unit : LyricPiece → LyricUnit
  | token t => .mark t
  | group opening inside closing =>
      .group
        ⟨opening, entriesWithin inside closing, closing⟩

end LyricPiece

/- A token that closes no group. -/
def Token.isInside
    (t : Token) : Bool :=
  t.kind ≠ .closeBracket

/-
  The pieces that some tokens are; a bracket that is never
  closed is a token.
-/
def pieces
    (ts : List Token) : List LyricPiece :=
  match ts with
  | [] => []
  | t :: rest =>
    if t.kind = .openBracket then
      match _h : rest.dropWhile Token.isInside with
      | [] => .token t :: pieces rest
      | closing :: after =>
        .group t (rest.takeWhile Token.isInside) closing ::
          pieces after
    else .token t :: pieces rest
termination_by ts.length
decreasing_by
  · simp
  · have hLength :=
      (List.dropWhile_suffix Token.isInside
        (l := rest)).length_le
    rw [_h, List.length_cons] at hLength
    rw [List.length_cons]
    omega
  · simp

section Pieces

variable {fin t closing : Token}
variable {ts inside rest : List Token}

/- A token that opens no brackets is a piece of its own. -/
theorem pieces_token
    (hKind : t.kind ≠ .openBracket)
    (rest : List Token) :
    pieces (t :: rest) = .token t :: pieces rest := by
  rw [pieces, if_neg hKind]

/- Brackets that are closed are one piece. -/
theorem pieces_group
    (hKind : t.kind = .openBracket)
    (hInside : ∀ u ∈ inside, u.kind ≠ .closeBracket)
    (hClosing : closing.kind = .closeBracket)
    (rest : List Token) :
    pieces (t :: (inside ++ closing :: rest)) =
      .group t inside closing :: pieces rest := by
  have hOpen : ∀ u ∈ inside, u.isInside = true :=
    fun u hu => decide_eq_true (hInside u hu)
  have hStop : ¬ closing.isInside = true :=
    fun hOpen => of_decide_eq_true hOpen hClosing
  have hTake :
      (inside ++ closing :: rest).takeWhile Token.isInside =
        inside := by
    rw [List.takeWhile_append_of_pos hOpen,
      List.takeWhile_cons_of_neg hStop, List.append_nil]
  have hDrop :
      (inside ++ closing :: rest).dropWhile Token.isInside =
        closing :: rest := by
    rw [List.dropWhile_append_of_pos hOpen,
      List.dropWhile_cons_of_neg hStop]
  rw [pieces, if_pos hKind, hTake, hDrop]

/- Pieces have all tokens, in order. -/
theorem flatMap_tokens_pieces
    (ts : List Token) :
    (pieces ts).flatMap LyricPiece.tokens = ts := by
  induction ts using pieces.induct with
  | case1 =>
      simp [pieces]
  | case2 t rest hKind hNone ih =>
      rw [pieces, if_pos hKind, hNone]
      simp only
      rw [List.flatMap_cons, ih]
      rfl
  | case3 t rest hKind closing after hSome ih =>
      rw [pieces, if_pos hKind, hSome]
      simp only
      rw [List.flatMap_cons, ih]
      have hAll :
          rest.takeWhile Token.isInside ++
              rest.dropWhile Token.isInside =
            rest :=
        List.takeWhile_append_dropWhile
      rw [hSome] at hAll
      simpa [LyricPiece.tokens] using hAll
  | case4 t rest hKind ih =>
      rw [pieces_token hKind, List.flatMap_cons, ih]
      rfl

------------------------------------------------------------
-- Pieces are what is read
------------------------------------------------------------

/-
  A group that was read goes up to the first token that
  closes brackets.
-/
theorem readGroup_within
    {g : BracketGroup}
    (hGroup : readGroup fin t ts = .ok (g, rest)) :
    ∃ inside closing,
      ts = inside ++ closing :: rest ∧
        (∀ u ∈ inside, u.kind ≠ .closeBracket) ∧
        closing.kind = .closeBracket ∧
        g = ⟨t, entriesWithin inside closing, closing⟩ := by
  rcases readGroup_iff.mp hGroup with ⟨rfl, hEntries⟩
  rcases readEntries_within hEntries with
    ⟨inside, hTokens, hInside, hClosing, hAlways⟩
  refine ⟨inside, g.closing, hTokens, hInside, hClosing, ?_⟩
  rw [entriesWithin, hAlways]

/- A unit that ends a line. -/
def LyricUnit.isNewline : LyricUnit → Bool
  | mark t => t.isNewline
  | group _ => false

/- A unit that was read is the unit of the first piece. -/
theorem readLyricUnit_pieces
    {unit : LyricUnit}
    (hLine : t.kind ≠ .newline)
    (hUnit : readLyricUnit fin t ts = .ok (unit, rest)) :
    unit.isNewline = false ∧
      ∃ taken, t :: ts = taken ++ rest ∧
        ∀ more, (pieces (taken ++ more)).map LyricPiece.unit =
          unit :: (pieces more).map LyricPiece.unit := by
  cases readLyricUnit_iff.mp hUnit with
  | group hBracket hGroup =>
      rcases readGroup_within hGroup with
        ⟨inside, closing, rfl, hInside, hClosing, rfl⟩
      refine ⟨rfl, t :: (inside ++ [closing]), by simp,
        fun more => ?_⟩
      rw [List.cons_append, List.append_assoc,
        List.singleton_append,
        pieces_group hBracket hInside hClosing,
        List.map_cons, LyricPiece.unit]
  | mark hBracket =>
      refine ⟨decide_eq_false hLine, [t], rfl, fun more => ?_⟩
      rw [List.singleton_append, pieces_token hBracket,
        List.map_cons]
      rfl

/-
  The units of a line that was read are
  those of the first pieces.
-/
theorem readLyricLine_pieces
    {units : List LyricUnit}
    (hRead : readLyricLine fin ts = .ok (units, rest)) :
    (∀ u ∈ units, u.isNewline = false) ∧
      ∃ taken, ts = taken ++ rest ∧
        ∀ more, (pieces (taken ++ more)).map LyricPiece.unit =
          units ++ (pieces more).map LyricPiece.unit := by
  rw [readLyricLine_iff] at hRead
  induction hRead with
  | done hEnd =>
      exact ⟨List.forall_mem_nil _, [], rfl,
        fun more => by
          rw [List.nil_append, List.nil_append]⟩
  | unit hNewline hUnit _ ih =>
      rcases readLyricUnit_pieces hNewline hUnit with
        ⟨hFirst, taken, hTaken, hPieces⟩
      rcases ih with ⟨hRest, taken', rfl, hPieces'⟩
      refine ⟨List.forall_mem_cons.mpr ⟨hFirst, hRest⟩,
        taken ++ taken', ?_, fun more => ?_⟩
      · rw [hTaken, List.append_assoc]
      · rw [List.append_assoc, hPieces, hPieces',
          List.cons_append]

------------------------------------------------------------
-- Lyric sections
------------------------------------------------------------

/-
  The tokens of a lyric section: those
  before what follows it.
-/
def takeLyrics
    (inGroup barline : Bool) : List Token → List Token
  | [] => []
  | t :: rest =>
    if inGroup then
      t :: takeLyrics (t.kind ≠ .closeBracket) false rest
    else if t.kind = .newline ∧
        (barline || atNewline rest) then
      []
    else
      t ::
        takeLyrics (t.kind = .openBracket)
          (t.kind = .barline) rest

/-
  What a section takes and what it
  leaves are all the tokens.
-/
theorem takeLyrics_append
    (inGroup barline : Bool)
    (ts : List Token) :
    takeLyrics inGroup barline ts ++
        skipLyrics inGroup barline ts =
      ts := by
  induction ts generalizing inGroup barline with
  | nil =>
      rfl
  | cons t rest ih =>
      rw [takeLyrics, skipLyrics]
      split
      · rw [List.cons_append, ih]
      · split
        · rfl
        · rw [List.cons_append, ih]

/-
  The lines that units are written on: what
  stands between line ends.
-/
def unitLines
    (units : List LyricUnit) : List (List LyricUnit) :=
  (units.splitOnP LyricUnit.isNewline).filter fun line =>
    line ≠ []

/- The written lines of a section. -/
def physicalLines
    (taken : List Token) : List (List LyricUnit) :=
  unitLines ((pieces taken).map LyricPiece.unit)

/- A line end at the start begins no written line. -/
theorem unitLines_newline
    {newline : LyricUnit}
    (hNewline : newline.isNewline = true)
    (units : List LyricUnit) :
    unitLines (newline :: units) = unitLines units := by
  rw [unitLines, List.splitOnP_cons_eq_if_modifyHead,
    if_pos hNewline]
  rfl

/- A line that is not empty is the first of the lines. -/
theorem unitLines_append
    {line units : List LyricUnit}
    (hLine : line ≠ [])
    (hPlain : ∀ u ∈ line, u.isNewline = false)
    (hUnits : ∀ u ∈ units.head?, u.isNewline = true) :
    unitLines (line ++ units) = line :: unitLines units := by
  have hKept : decide (line ≠ []) = true := decide_eq_true hLine
  cases units with
  | nil =>
      rw [List.append_nil, unitLines,
        List.splitOnP_eq_singleton hPlain]
      exact List.filter_cons_of_pos hKept
  | cons newline units =>
      have hNewline := hUnits newline rfl
      rw [unitLines_newline hNewline, unitLines,
        List.splitOnP_append_cons_of_forall_mem hPlain
          newline hNewline]
      exact List.filter_cons_of_pos hKept

/-
  Behind a barline that ends its line,
  nothing of a section is left.
-/
theorem takeLyrics_at_end
    (hRest : rest = [] ∨ atNewline rest = true) :
    takeLyrics false true rest = [] := by
  cases rest with
  | nil =>
      rfl
  | cons t rest =>
      simp only [reduceCtorEq, atNewline, decide_eq_true_eq,
        false_or] at hRest
      rw [takeLyrics, if_neg Bool.false_ne_true,
        if_pos ⟨hRest, rfl⟩]

/-
  What is left of a section behind one of its lines starts
  with a line end.
-/
theorem isNewline_at_end
    {barline : Bool}
    (hRest : rest = [] ∨ atNewline rest = true) :
    ∀ u ∈
      ((pieces (takeLyrics false barline rest)).map
        LyricPiece.unit).head?,
      u.isNewline = true := by
  cases rest with
  | nil =>
      simp [takeLyrics, pieces]
  | cons t rest =>
      simp only [reduceCtorEq, atNewline, decide_eq_true_eq,
        false_or] at hRest
      have hOpen : t.kind ≠ .openBracket := by
        rw [hRest]
        decide
      rw [takeLyrics, if_neg Bool.false_ne_true]
      split
      · simp [pieces]
      · rw [pieces_token hOpen]
        rintro u ⟨⟩
        exact decide_eq_true hRest

/-
  Of a line that is read, the section has all tokens, and
  then goes on.
-/
theorem readLyricLine_takes
    {units : List LyricUnit}
    (barline : Bool)
    (hRead : readLyricLine fin ts = .ok (units, rest)) :
    (pieces (takeLyrics false barline ts)).map
        LyricPiece.unit =
      units ++
        (pieces
          (takeLyrics false
            ((units.getLast?.map LyricUnit.isBarline).getD
              barline) rest)).map LyricPiece.unit := by
  rcases readLyricLine_skips barline hRead with ⟨-, hSkip⟩
  rcases readLyricLine_pieces hRead with
    ⟨-, taken, hTaken, hPieces⟩
  rw [← hPieces]
  refine congrArg (fun us => (pieces us).map LyricPiece.unit) ?_
  rw [← List.append_left_inj (skipLyrics false barline ts),
    takeLyrics_append, hSkip, List.append_assoc,
    takeLyrics_append]
  exact hTaken

/- The first line that is read is the first written line. -/
theorem readLyricLine_physicalLines
    {units : List LyricUnit}
    (hLine : t.kind ≠ .newline)
    (hRead : readLyricLine fin (t :: ts) = .ok (units, rest)) :
    physicalLines (takeLyrics false false (t :: ts)) =
      units ::
        physicalLines
          (takeLyrics false (decide (EndsWithBarline units))
            rest) := by
  have hNonempty : units ≠ [] := by
    rw [readLyricLine_cons, if_neg hLine] at hRead
    rcases Stop.andThen_eq_ok.mp hRead with
      ⟨unit, _, others, -, -, rfl⟩
    exact List.cons_ne_nil unit others
  rw [physicalLines, readLyricLine_takes false hRead,
    getLast?_isBarline]
  exact unitLines_append hNonempty
    (readLyricLine_pieces hRead).1
    (isNewline_at_end (readLyricLine_skips false hRead).1)

/-
  The written lines of a section are the
  lines that are read of it.
-/
theorem readLyricLines_pieces
    {lines : List (List LyricUnit)}
    (hLines : readLyricLines fin ts = .ok (lines, rest)) :
    physicalLines (takeLyrics false false ts) = lines := by
  rw [readLyricLines_iff] at hLines
  induction hLines with
  | done =>
      simp [takeLyrics, physicalLines, pieces, unitLines]
  | gap hNewline hGap =>
      simp [takeLyrics, hNewline, hGap, physicalLines,
        pieces, unitLines]
  | @newline t ts rest lines hNewline hGap _ ih =>
      have hTaken :
          takeLyrics false false (t :: ts) =
            t :: takeLyrics false false ts := by
        simp [takeLyrics, hNewline, hGap]
      have hOpen : t.kind ≠ .openBracket := by
        rw [hNewline]
        decide
      have hMark :
          (LyricPiece.token t).unit.isNewline = true :=
        decide_eq_true hNewline
      rw [hTaken, physicalLines, pieces_token hOpen,
        List.map_cons, unitLines_newline hMark]
      exact ih
  | last hStart hLine hBarline =>
      rw [readLyricLine_physicalLines hStart hLine,
        decide_eq_true hBarline,
        takeLyrics_at_end
          (readLyricLine_skips false hLine).1]
      simp [physicalLines, pieces, unitLines]
  | line hStart hLine hBarline _ ih =>
      rw [readLyricLine_physicalLines hStart hLine,
        decide_eq_false hBarline, ih]

end Pieces

end LyricScore
