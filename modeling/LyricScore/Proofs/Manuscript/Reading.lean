import LyricScore.Proofs.Manuscript.Section

/-
  This file reads tokens one at a time.  A state knows what
  the tokens so far are part of, and a step takes one token;
  nothing is looked at ahead.  The readers of manuscripts fail
  as these steps do: a reader from its start on does what the
  state at its start does, up to the state at its end.

  Key definitions include:
    * `Reading`
    * `Reading.step`
    * `Reading.due?`
    * `Reading.error?`

  Key theorems include:
    * `readEntries_error?`, `readRun_error?`, `readChordEntries_error?`
    * `readLyricLines_error?`, `readPitchLines_error?`
    * `readStanzas_error?`
    * `Manuscript.ofBody_error?`
-/

namespace LyricScore

------------------------------------------------------------
-- Outcomes of readers
------------------------------------------------------------

/- The error of a step, or of what follows it. -/
def ScoreError.orThen?
    {α : Type}
    (x : Except ScoreError α)
    (f : α → Option ScoreError) : Option ScoreError :=
  match x with
  | .error e => some e
  | .ok a => f a

/- The error of a reader that stops, or of what follows it. -/
def Stop.orThen?
    {α : Type}
    (x : Except Stop α)
    (f : α → Option ScoreError) : Option ScoreError :=
  match x with
  | .error s => some s.error
  | .ok a => f a

section Outcomes

variable {α β : Type}

@[simp]
theorem ScoreError.orThen?_ok
    (a : α)
    (f : α → Option ScoreError) :
    orThen? (.ok a) f = f a :=
  rfl

@[simp]
theorem ScoreError.orThen?_error
    (e : ScoreError)
    (f : α → Option ScoreError) :
    orThen? (.error e) f = some e :=
  rfl

@[simp]
theorem Stop.orThen?_ok
    (a : α)
    (f : α → Option ScoreError) :
    orThen? (.ok a) f = f a :=
  rfl

@[simp]
theorem Stop.orThen?_error
    (s : Stop)
    (f : α → Option ScoreError) :
    orThen? (.error s) f = some s.error :=
  rfl

theorem ScoreError.orThen?_map
    (x : Except ScoreError α)
    (g : α → β)
    (f : β → Option ScoreError) :
    orThen? (x.map g) f = orThen? x fun a => f (g a) := by
  cases x <;> rfl

theorem Stop.orThen?_mapError
    (x : Except ScoreError α)
    (f : α → Option ScoreError) :
    orThen? (x.mapError ofError) f =
      ScoreError.orThen? x f := by
  cases x <;> rfl

/-
  A unit and others fail as the unit does,
  or as the others do.
-/
theorem Stop.orThen?_andThen
    (unit : Except Stop (α × List Token))
    (remarks : α → List Remark)
    (others : α → List Token → Except Stop (List α × β))
    (f : List α × β → Option ScoreError) :
    orThen? (andThen unit remarks others) f =
      orThen? unit fun u =>
        orThen? (others u.1 u.2) fun r =>
          f (u.1 :: r.1, r.2) := by
  rcases unit with s | ⟨a, after⟩
  · rfl
  · cases hOthers : others a after with
    | error s =>
        simp only [andThen, orThen?, hOthers, prepend,
          Stop.after]
    | ok more =>
        simp only [andThen, orThen?, hOthers, prepend]

end Outcomes

------------------------------------------------------------
-- States
------------------------------------------------------------

/-
  What the tokens that were read are part of, where a line
  that ended may be the last of its paragraph.  A group
  stands in lyrics or in pitch lines, and a run of letters
  in a pitch line or in a chord.  The number of a
  directive may have an accidental before it; and a run
  has shifts, or already its accidental.
-/
inductive Reading where
  | lead
  | title
  | titleEnd
  | between
  | lyrics (barline : Bool)
  | lyricsEnd
  | pitches
  | pitchesEnd
  | chord
  | group (inLyrics : Bool)
  | order (inLyrics : Bool) (name : DirectiveName)
      (accidental : Bool)
  | run (inChord : Bool) (shift : Int)
  | altered (inChord : Bool)
deriving DecidableEq, Repr

namespace Reading

/- The state behind a group. -/
def behindGroup
    (inLyrics : Bool) : Reading :=
  if inLyrics then lyrics false else pitches

/- The state behind a run. -/
def behindRun
    (inChord : Bool) : Reading :=
  if inChord then chord else pitches

/-
  The letters of a run are due, which some shift or
  accidental needs.
-/
def takeNote
    (inChord needed : Bool)
    (t : Token) : Except ScoreError Reading :=
  match t.letters? with
  | some (_ :: _) => .ok (behindRun inChord)
  | some [] => .error .emptyName
  | none =>
      if needed then .error (.missing .note t)
      else .ok (behindRun inChord)

/- A run goes on, of which the shifts add up to this. -/
def takeRun
    (inChord : Bool)
    (shift : Int)
    (t : Token) : Except ScoreError Reading :=
  if t.isShift then .ok (run inChord (shift + t.octaves))
  else if t.kind = .accidental then .ok (altered inChord)
  else takeNote inChord (shift ≠ 0) t

/-
  The number of a directive is due, or an
  accidental before it.
-/
def takeOrder
    (inLyrics : Bool)
    (name : DirectiveName)
    (accidental : Bool)
    (t : Token) : Except ScoreError Reading :=
  if accidental ∧ t.kind = .accidental then
    .ok (order inLyrics name false)
  else if t.kind = .number then
    match Numeral.read t.text with
    | .ok _ => .ok (group inLyrics)
    | .error e => .error (.number e)
  else .error (.missing (.number name) t)

/- A token inside brackets. -/
def takeInside
    (inLyrics : Bool)
    (t : Token) : Reading :=
  if t.kind = .closeBracket then behindGroup inLyrics
  else if t.kind = .identifier then
    match DirectiveName.ofText? t.text with
    | some name => order inLyrics name (name = .key)
    | none => group inLyrics
  else group inLyrics

/-
  A token of a lyric line, of which the last unit is a
  barline or not.
-/
def takeLyric
    (barline : Bool)
    (t : Token) : Reading :=
  if t.kind = .newline then
    if barline then pitchesEnd else lyricsEnd
  else if t.kind = .openBracket then group true
  else lyrics (t.kind = .barline)

/- A token of a pitch line. -/
def takePitch
    (t : Token) : Except ScoreError Reading :=
  if t.kind = .newline then .ok pitchesEnd
  else if t.kind = .openBracket then .ok (group false)
  else if t.kind = .openParenthesis then .ok chord
  else takeRun false 0 t

/- The state behind a token. -/
def step
    (t : Token) : Reading → Except ScoreError Reading
  | lead => .ok (if t.kind = .newline then lead else title)
  | title => .ok (if t.kind = .newline then titleEnd else title)
  | titleEnd =>
      .ok (if t.kind = .newline then between else title)
  | between =>
      .ok
        (if t.kind = .newline then
            between
          else takeLyric false t)
  | lyrics barline => .ok (takeLyric barline t)
  | lyricsEnd =>
      .ok
        (if t.kind = .newline then
            between
          else takeLyric false t)
  | pitches => takePitch t
  | pitchesEnd =>
      if t.kind = .newline then .ok between else takePitch t
  | chord =>
      if t.kind = .closeParenthesis then .ok pitches
      else takeRun true 0 t
  | group inLyrics => .ok (takeInside inLyrics t)
  | order inLyrics name accidental =>
      takeOrder inLyrics name accidental t
  | run inChord shift => takeRun inChord shift t
  | altered inChord => takeNote inChord true t

/- What is missing if the text ends here. -/
def due? : Reading → Option Expected
  | chord => some .closingParenthesis
  | group _ => some .closingBracket
  | order _ name _ => some (.number name)
  | run inChord shift =>
    if shift ≠ 0 then some .note
    else if inChord then some .closingParenthesis
    else none
  | altered _ => some .note
  | _ => none

/-
  The error that tokens from a state on lead to, where `fin`
  closes the text.
-/
def error?
    (fin : Token)
    (r : Reading) : List Token → Option ScoreError
  | [] => r.due?.map (.missing · fin)
  | t :: ts =>
      ScoreError.orThen? (r.step t) fun next =>
        next.error? fin ts

end Reading

------------------------------------------------------------
-- Groups
------------------------------------------------------------

section Readers

variable (fin : Token)
variable (ts : List Token)

/- A number leads back to the entries of its group. -/
theorem takeNumber_error?
    (inLyrics : Bool)
    (name : DirectiveName) :
    (Reading.order inLyrics name false).error? fin ts =
      ScoreError.orThen? (takeNumber fin name ts) fun r =>
        (Reading.group inLyrics).error? fin r.2 := by
  cases ts with
  | nil =>
      rfl
  | cons t rest =>
      simp only [Reading.error?, Reading.step,
        Reading.takeOrder, takeNumber, Bool.false_eq_true,
        false_and, if_false]
      by_cases hKind : t.kind = .number
      · rw [if_pos hKind, if_pos hKind]
        cases Numeral.read t.text <;> rfl
      · rw [if_neg hKind, if_neg hKind]
        rfl

/-
  The accidental of a key is passed over before its number
  is looked for.
-/
theorem takeAccidental_error?
    (inLyrics : Bool)
    (name : DirectiveName) :
    (Reading.order inLyrics name true).error? fin ts =
      (Reading.order inLyrics name false).error? fin
        (takeAccidental ts).2 := by
  cases ts with
  | nil =>
      rfl
  | cons t rest =>
      by_cases hKind : t.kind = .accidental
      · simp [Reading.error?, Reading.step,
          Reading.takeOrder, takeAccidental, hKind]
      · simp [Reading.error?, Reading.step,
          Reading.takeOrder, takeAccidental, hKind]

/-
  In a group, a dot is passed over even
  where no directive has it.
-/
theorem takeDot_error?
    (inLyrics : Bool) :
    (Reading.group inLyrics).error? fin ts =
      (Reading.group inLyrics).error? fin (takeDot ts).2 := by
  cases ts with
  | nil =>
      rfl
  | cons t rest =>
      by_cases hKind : t.kind = .dot
      · simp [Reading.error?, Reading.step,
          Reading.takeInside, takeDot, hKind]
      · simp [takeDot, hKind]

/-
  The order of a directive fails as its reader does, or else
  what follows fails.
-/
theorem readOrder_error?
    (inLyrics : Bool)
    (name : DirectiveName) :
    (Reading.order inLyrics name (name = .key)).error? fin ts =
      ScoreError.orThen? (readOrder fin name ts) fun r =>
        (Reading.group inLyrics).error? fin r.2 := by
  cases name with
  | key =>
      refine (takeAccidental_error? fin ts inLyrics
        .key).trans ?_
      rw [takeNumber_error?, readOrder, ScoreError.orThen?_map]
  | beatUnit =>
      refine (takeNumber_error? fin ts inLyrics
        .beatUnit).trans ?_
      rw [readOrder, ScoreError.orThen?_map]
      exact congrArg _
        (funext fun r => takeDot_error? fin r.2 inLyrics)
  | _ =>
      refine (takeNumber_error? fin ts inLyrics _).trans ?_
      rw [readOrder, ScoreError.orThen?_map]

/-
  An entry of brackets fails as its reader does, or else
  what follows fails.
-/
theorem readEntry_error?
    (inLyrics : Bool)
    {t : Token}
    (hOpen : t.kind ≠ .closeBracket) :
    (Reading.group inLyrics).error? fin (t :: ts) =
      ScoreError.orThen? (readEntry fin t ts) fun r =>
        (Reading.group inLyrics).error? fin r.2 := by
  simp only [Reading.error?, Reading.step,
    Reading.takeInside, if_neg hOpen, readEntry,
    ScoreError.orThen?_ok]
  split
  · cases hName : DirectiveName.ofText? t.text with
    | some name =>
        refine (readOrder_error? fin ts inLyrics name).trans ?_
        simp only [ScoreError.orThen?_map]
    | none =>
        rfl
  · rfl

/- Entries lead to the state behind their group. -/
theorem readEntries_error?
    (inLyrics : Bool) :
    (Reading.group inLyrics).error? fin ts =
      Stop.orThen? (readEntries fin ts) fun r =>
        (Reading.behindGroup inLyrics).error? fin r.2.2 := by
  induction ts using readEntries.induct fin with
  | case1 =>
      simp only [readEntries]
      rfl
  | case2 t ts hClose =>
      rw [readEntries_cons, if_pos hClose]
      simp only [Reading.error?, Reading.step,
        Reading.takeInside, if_pos hClose,
        ScoreError.orThen?_ok, Stop.orThen?_ok]
  | case3 t ts hOpen e hError =>
      rw [readEntry_error? fin ts inLyrics hOpen,
        readEntries_cons, if_neg hOpen, hError]
      rfl
  | case4 t ts hOpen entry after hEntry ih =>
      rw [readEntry_error? fin ts inLyrics hOpen,
        readEntries_cons, if_neg hOpen,
        Stop.orThen?_andThen, Stop.orThen?_mapError, hEntry]
      exact ih

/-
  A group fails as its reader does, or
  else what follows fails.
-/
theorem readGroup_error?
    (inLyrics : Bool)
    (opening : Token) :
    (Reading.group inLyrics).error? fin ts =
      Stop.orThen? (readGroup fin opening ts) fun r =>
        (Reading.behindGroup inLyrics).error? fin r.2 := by
  rw [readEntries_error?, readGroup]
  cases readEntries fin ts <;> rfl

------------------------------------------------------------
-- Runs and chords
------------------------------------------------------------

/- Shifts add up. -/
theorem takeShifts_error?
    (inChord : Bool)
    (shift : Int) :
    (Reading.run inChord shift).error? fin ts =
      (Reading.run inChord
        (shift + (takeShifts ts).1)).error? fin
        (takeShifts ts).2 := by
  induction ts generalizing shift with
  | nil =>
      simp [takeShifts, totalShift]
  | cons t rest ih =>
      by_cases hShift : t.isShift = true
      · simp only [takeShifts,
          List.takeWhile_cons_of_pos hShift,
          List.dropWhile_cons_of_pos hShift,
          totalShift] at ih ⊢
        simp only [Reading.error?, Reading.step,
          Reading.takeRun, if_pos hShift,
          ScoreError.orThen?_ok]
        rw [ih, Int.add_assoc]
      · simp [takeShifts, hShift, totalShift]

/-
  The letters of a run, behind its
  shifts and its accidental.
-/
def readLetters
    (start : Location)
    (shift : Int)
    (accidental : Option Accidental)
    (ts : List Token) :
      Except ScoreError (List Pitch × List Token) :=
  match ts with
  | [] => readRun.missing fin shift accidental []
  | t :: after =>
    match t.letters? with
    | some (l :: ls) =>
      .ok
        (⟨l, accidental, shift, start⟩ ::
            followers t.line (t.column + 1) ls, after)
    | some [] => .error .emptyName
    | none => readRun.missing fin shift accidental (t :: after)

/- A run is its shifts, its accidental and its letters. -/
theorem readRun_eq_readLetters :
    readRun fin ts =
      readLetters fin (ts.headD fin).location
        (takeShifts ts).1
        (takeAccidental (takeShifts ts).2).1
        (takeAccidental (takeShifts ts).2).2 := by
  simp only [readRun]
  cases (takeAccidental (takeShifts ts).2).2 <;> rfl

/-
  A state that takes letters leads behind their run.  Where
  none are read, the token in their place is passed over.
-/
theorem readLetters_error?
    (inChord : Bool)
    (start : Location)
    (shift : Int)
    (accidental : Option Accidental)
    {r : Reading}
    (hDue :
      r.due? =
        if shift = 0 ∧ accidental = none then
          (Reading.behindRun inChord).due?
        else some .note)
    (hStep :
      ∀ t ∈ ts.head?,
        r.step t =
          Reading.takeNote inChord
            (decide ¬ (shift = 0 ∧ accidental = none)) t) :
    r.error? fin ts =
      ScoreError.orThen?
        (readLetters fin start shift accidental ts) fun r =>
        (Reading.behindRun inChord).error? fin
          (if r.1 = [] then r.2.tail else r.2) := by
  cases ts with
  | nil =>
      by_cases hNothing : shift = 0 ∧ accidental = none
      · simp [Reading.error?, hDue, readLetters,
          readRun.missing, hNothing]
      · simp [Reading.error?, hDue, readLetters,
          readRun.missing, hNothing]
  | cons t after =>
      rw [Reading.error?, hStep t rfl, readLetters,
        Reading.takeNote]
      cases hLetters : t.letters? with
      | none =>
          by_cases hNothing : shift = 0 ∧ accidental = none
          · simp [readRun.missing, hNothing]
          · simp [readRun.missing, hNothing]
      | some letters =>
          cases letters with
          | nil =>
              rfl
          | cons l ls =>
              rfl

/-
  What is due in a run is a letter, or
  what is due behind it.
-/
theorem due?_run
    (inChord : Bool)
    (shift : Int) :
    (Reading.run inChord shift).due? =
      if shift = 0 ∧ (none : Option Accidental) = none then
        (Reading.behindRun inChord).due?
      else some .note := by
  by_cases hShift : shift = 0
  · cases inChord <;>
      simp [Reading.due?, Reading.behindRun, hShift]
  · simp [Reading.due?, hShift]

/-
  A run leads to the state behind it; where none is read, a
  token is passed over.
-/
theorem readRun_error?
    (inChord : Bool) :
    (Reading.run inChord 0).error? fin ts =
      ScoreError.orThen? (readRun fin ts) fun r =>
        (Reading.behindRun inChord).error? fin
          (if r.1 = [] then r.2.tail else r.2) := by
  rw [takeShifts_error?, Int.zero_add, readRun_eq_readLetters]
  generalize (ts.headD fin).location = start
  have hNoShift :
      ∀ t ∈ (takeShifts ts).2.head?, t.isShift = false := by
    intro t hHead
    have hStop := List.head?_dropWhile_not Token.isShift ts
    rw [takeShifts] at hHead
    rw [Option.mem_def.mp hHead] at hStop
    simpa using hStop
  generalize (takeShifts ts).1 = shift
  generalize (takeShifts ts).2 = rest at hNoShift ⊢
  cases rest with
  | nil =>
      refine readLetters_error? fin [] inChord start shift
        none (due?_run inChord shift) ?_
      rintro u ⟨⟩
  | cons t rest =>
      have hStep := hNoShift t rfl
      by_cases hKind : t.kind = .accidental
      · have hTaken :
            takeAccidental (t :: rest) =
              (some (.ofSign t.text), rest) := by
          simp [takeAccidental, hKind]
        rw [hTaken, Reading.error?, Reading.step,
          Reading.takeRun, hStep, if_neg Bool.false_ne_true,
          if_pos hKind]
        refine readLetters_error? fin rest inChord start
          shift _ ?_ fun u _ => ?_
        · simp [Reading.due?]
        · simp [Reading.step]
      · have hTaken :
            takeAccidental (t :: rest) =
              (none, t :: rest) := by
          simp [takeAccidental, hKind]
        rw [hTaken]
        refine readLetters_error? fin _ inChord start shift
          none (due?_run inChord shift) ?_
        rintro u ⟨⟩
        simp [Reading.step, Reading.takeRun, hStep, hKind]

/-
  Where a run may start, tokens are taken as those of a run.
-/
theorem error?_eq_run
    {t : Token}
    {r : Reading}
    {inChord : Bool}
    (hStep : r.step t = Reading.takeRun inChord 0 t)
    (rest : List Token) :
    r.error? fin (t :: rest) =
      (Reading.run inChord 0).error? fin (t :: rest) := by
  rw [Reading.error?, Reading.error?, hStep, Reading.step]

/-
  An entry of a chord fails as its reader does, or else what
  follows fails.
-/
theorem readChordEntry_error?
    {t : Token}
    (hOpen : t.kind ≠ .closeParenthesis) :
    Reading.chord.error? fin (t :: ts) =
      ScoreError.orThen? (readChordEntry fin (t :: ts))
        fun r => Reading.chord.error? fin r.2 := by
  have hStep :
      Reading.chord.step t = Reading.takeRun true 0 t :=
    if_neg hOpen
  rw [error?_eq_run fin hStep, readRun_error?,
    readChordEntry, ScoreError.orThen?_map]
  refine congrArg _ (funext fun r => ?_)
  simp only
  split <;> rfl

theorem readChordEntries_error? :
    Reading.chord.error? fin ts =
      Stop.orThen? (readChordEntries fin ts) fun r =>
        Reading.pitches.error? fin r.2.2 := by
  induction ts using readChordEntries.induct fin with
  | case1 =>
      simp only [readChordEntries]
      rfl
  | case2 t ts hClose =>
      rw [readChordEntries_cons, if_pos hClose]
      simp only [Reading.error?, Reading.step,
        if_pos hClose, ScoreError.orThen?_ok,
        Stop.orThen?_ok]
  | case3 t ts hOpen e hError =>
      rw [readChordEntry_error? fin ts hOpen,
        readChordEntries_cons, if_neg hOpen, hError]
      rfl
  | case4 t ts hOpen entry after hEntry ih =>
      rw [readChordEntry_error? fin ts hOpen,
        readChordEntries_cons, if_neg hOpen,
        Stop.orThen?_andThen, Stop.orThen?_mapError, hEntry]
      exact ih

------------------------------------------------------------
-- Pitch lines
------------------------------------------------------------

/-
  A unit of a pitch line fails as its reader does, or else
  what follows fails.
-/
theorem readPitchUnit_error?
    {t : Token}
    (hLine : t.kind ≠ .newline) :
    Reading.pitches.error? fin (t :: ts) =
      Stop.orThen? (readPitchUnit fin t ts) fun r =>
        Reading.pitches.error? fin r.2 := by
  by_cases hBarline : t.kind = .barline
  · simp [readPitchUnit, Reading.error?, Reading.step,
      Reading.takePitch, Reading.takeRun, Reading.takeNote,
      Reading.behindRun, Token.isShift, Token.letters?,
      hBarline]
  · by_cases hBracket : t.kind = .openBracket
    · have hStep :
          Reading.pitches.step t = .ok (.group false) := by
        simp [Reading.step, Reading.takePitch, hBracket]
      rw [Reading.error?, hStep, readPitchUnit,
        if_neg hBarline, if_pos hBracket]
      refine (readGroup_error? fin ts false t).trans ?_
      cases readGroup fin t ts <;> rfl
    · by_cases hParenthesis : t.kind = .openParenthesis
      · have hStep : Reading.pitches.step t = .ok .chord := by
          simp [Reading.step, Reading.takePitch, hParenthesis]
        rw [Reading.error?, hStep, readPitchUnit,
          if_neg hBarline, if_neg hBracket,
          if_pos hParenthesis]
        refine (readChordEntries_error? fin ts).trans ?_
        cases readChordEntries fin ts <;> rfl
      · have hStep :
            Reading.pitches.step t =
              Reading.takeRun false 0 t := by
          simp [Reading.step, Reading.takePitch, hLine,
            hBracket, hParenthesis]
        rw [error?_eq_run fin hStep, readRun_error?,
          readPitchUnit, if_neg hBarline, if_neg hBracket,
          if_neg hParenthesis]
        cases readRun fin (t :: ts) with
        | error e =>
            rfl
        | ok r =>
            rw [ScoreError.orThen?_ok, Stop.orThen?_ok]
            split <;> rfl

theorem readPitchLine_error? :
    Reading.pitches.error? fin ts =
      Stop.orThen? (readPitchLine fin ts) fun r =>
        Reading.pitches.error? fin r.2 := by
  induction ts using readPitchLine.induct fin with
  | case1 =>
      rw [readPitchLine]
      rfl
  | case2 t ts hNewline =>
      rw [readPitchLine_cons, if_pos hNewline]
      rfl
  | case3 t ts hNewline s hStop =>
      rw [readPitchUnit_error? fin ts hNewline,
        readPitchLine_cons, if_neg hNewline, hStop]
      rfl
  | case4 t ts hNewline unit after hUnit ih =>
      rw [readPitchUnit_error? fin ts hNewline,
        readPitchLine_cons, if_neg hNewline,
        Stop.orThen?_andThen, hUnit]
      exact ih

/- Where a line may go on, or end a paragraph. -/
theorem error?_at_end
    {r onward : Reading}
    {rest : List Token}
    (hEnd : ∀ t, t.kind = .newline → r.step t = .ok .between)
    (hOnward :
      ∀ t, t.kind ≠ .newline → r.step t = onward.step t)
    (hDue : r.due? = onward.due?) :
    r.error? fin rest =
      if atNewline rest then Reading.between.error? fin rest
      else onward.error? fin rest := by
  cases rest with
  | nil =>
      simp [Reading.error?, atNewline, hDue]
  | cons t rest =>
      by_cases hKind : t.kind = .newline
      · have hBetween :
            Reading.between.step t = .ok .between := by
          simp [Reading.step, hKind]
        rw [atNewline, if_pos (decide_eq_true hKind),
          Reading.error?, Reading.error?, hEnd t hKind,
          hBetween]
      · rw [atNewline,
          if_neg fun hNewline =>
            hKind (of_decide_eq_true hNewline),
          Reading.error?, Reading.error?, hOnward t hKind]

/-
  Behind the end of a pitch line, an empty
  line ends the block.
-/
theorem pitchesEnd_error? :
    Reading.pitchesEnd.error? fin ts =
      if atNewline ts then Reading.between.error? fin ts
      else Reading.pitches.error? fin ts :=
  error?_at_end fin (fun _ hKind => if_pos hKind)
    (fun _ hKind => if_neg hKind) rfl

/- Between paragraphs, line ends are passed over. -/
theorem between_error?
    {t : Token}
    (hNewline : t.kind = .newline) :
    Reading.between.error? fin (t :: ts) =
      Reading.between.error? fin ts := by
  rw [Reading.error?, Reading.step, if_pos hNewline,
    ScoreError.orThen?_ok]

theorem readPitchLines_error? :
    Reading.pitches.error? fin ts =
      Stop.orThen? (readPitchLines fin ts) fun r =>
        Reading.between.error? fin r.2 := by
  induction ts using readPitchLines.induct fin with
  | case1 =>
      rw [readPitchLines]
      rfl
  | case2 t ts hNewline hGap =>
      rw [readPitchLines_cons, if_pos hNewline, if_pos hGap,
        Stop.orThen?_ok, between_error? fin ts hNewline,
        Reading.error?, Reading.step, Reading.takePitch,
        if_pos hNewline, ScoreError.orThen?_ok,
        pitchesEnd_error?, if_pos hGap]
  | case3 t ts hNewline hGap ih =>
      rw [readPitchLines_cons, if_pos hNewline, if_neg hGap,
        ← ih, Reading.error?, Reading.step,
        Reading.takePitch, if_pos hNewline,
        ScoreError.orThen?_ok, pitchesEnd_error?,
        if_neg hGap]
  | case4 t ts hNewline s hStop =>
      rw [readPitchLine_error?, readPitchLines_cons,
        if_neg hNewline, hStop]
      rfl
  | case5 t ts hNewline units after hLine ih =>
      rw [readPitchLine_error?, readPitchLines_cons,
        if_neg hNewline, Stop.orThen?_andThen, hLine]
      exact ih

------------------------------------------------------------
-- Lyric lines
------------------------------------------------------------

/-
  A unit of a lyric line fails as its reader does, or else
  what follows fails.
-/
theorem readLyricUnit_error?
    (barline : Bool)
    {t : Token}
    (hLine : t.kind ≠ .newline) :
    (Reading.lyrics barline).error? fin (t :: ts) =
      Stop.orThen? (readLyricUnit fin t ts) fun r =>
        (Reading.lyrics r.1.isBarline).error? fin r.2 := by
  rw [Reading.error?, Reading.step, Reading.takeLyric,
    if_neg hLine, readLyricUnit, ScoreError.orThen?_ok]
  split
  · refine (readGroup_error? fin ts true t).trans ?_
    cases readGroup fin t ts <;> rfl
  · rfl

theorem readLyricLine_error?
    (barline : Bool) :
    (Reading.lyrics barline).error? fin ts =
      Stop.orThen? (readLyricLine fin ts) fun r =>
        (Reading.lyrics
          ((r.1.getLast?.map LyricUnit.isBarline).getD
            barline)).error? fin r.2 := by
  induction ts using readLyricLine.induct fin generalizing
    barline with
  | case1 =>
      rw [readLyricLine]
      rfl
  | case2 t ts hNewline =>
      rw [readLyricLine_cons, if_pos hNewline]
      rfl
  | case3 t ts hNewline s hStop =>
      rw [readLyricUnit_error? fin ts barline hNewline,
        readLyricLine_cons, if_neg hNewline, hStop]
      rfl
  | case4 t ts hNewline unit after hUnit ih =>
      rw [readLyricUnit_error? fin ts barline hNewline,
        readLyricLine_cons, if_neg hNewline,
        Stop.orThen?_andThen, hUnit, Stop.orThen?_ok,
        Stop.orThen?_ok, ih]
      refine congrArg _ (funext fun r => ?_)
      rw [List.getLast?_cons]
      cases r.1.getLast? <;> rfl

/-
  Behind the end of a lyric line, an empty
  line ends the block.
-/
theorem lyricsEnd_error? :
    Reading.lyricsEnd.error? fin ts =
      if atNewline ts then Reading.between.error? fin ts
      else (Reading.lyrics false).error? fin ts := by
  refine error?_at_end fin (fun _ hKind => ?_)
    (fun _ hKind => ?_) rfl
  · rw [Reading.step, if_pos hKind]
  · rw [Reading.step, Reading.step, if_neg hKind]

/-
  Behind a line that ends with a
  barline, pitch lines follow.
-/
theorem lyrics_error?_at_end
    {rest : List Token}
    (hRest : rest = [] ∨ atNewline rest = true) :
    (Reading.lyrics true).error? fin rest =
      Reading.pitches.error? fin rest := by
  cases rest with
  | nil =>
      rfl
  | cons t rest =>
      simp only [reduceCtorEq, atNewline, decide_eq_true_eq,
        false_or] at hRest
      rw [Reading.error?, Reading.error?, Reading.step,
        Reading.step, Reading.takeLyric, Reading.takePitch,
        if_pos hRest, if_pos hRest, if_pos rfl]

/-
  Lyric lines fail as their reader does, or
  else the pitch lines do.
-/
theorem readLyricLines_error? :
    (Reading.lyrics false).error? fin ts =
      Stop.orThen? (readLyricLines fin ts) fun r =>
        Reading.pitches.error? fin r.2 := by
  induction ts using readLyricLines.induct fin with
  | case1 =>
      rw [readLyricLines]
      rfl
  | case2 t ts hNewline hGap =>
      rw [readLyricLines_cons, if_pos hNewline, if_pos hGap,
        Stop.orThen?_ok, Reading.error?, Reading.error?,
        Reading.step, Reading.step, Reading.takeLyric,
        Reading.takePitch, if_pos hNewline, if_pos hNewline,
        if_neg Bool.false_ne_true, ScoreError.orThen?_ok,
        ScoreError.orThen?_ok, lyricsEnd_error?,
        pitchesEnd_error?, if_pos hGap, if_pos hGap]
  | case3 t ts hNewline hGap ih =>
      rw [readLyricLines_cons, if_pos hNewline, if_neg hGap,
        ← ih, Reading.error?, Reading.step,
        Reading.takeLyric, if_pos hNewline,
        if_neg Bool.false_ne_true, ScoreError.orThen?_ok,
        lyricsEnd_error?, if_neg hGap]
  | case4 t ts hNewline s hStop =>
      rw [readLyricLine_error?, readLyricLines_cons,
        if_neg hNewline, hStop]
      rfl
  | case5 t ts hNewline units after hLine hBarline =>
      rw [readLyricLine_error?, readLyricLines_cons,
        if_neg hNewline, Stop.orThen?_andThen, hLine,
        Stop.orThen?_ok, Stop.orThen?_ok, if_pos hBarline,
        Stop.orThen?_ok, getLast?_isBarline,
        decide_eq_true hBarline]
      exact lyrics_error?_at_end fin
        (readLyricLine_skips false hLine).1
  | case6 t ts hNewline units after hLine hBarline ih =>
      rw [readLyricLine_error?, readLyricLines_cons,
        if_neg hNewline, Stop.orThen?_andThen, hLine,
        Stop.orThen?_ok, Stop.orThen?_ok, if_neg hBarline,
        getLast?_isBarline, decide_eq_false hBarline]
      exact ih

------------------------------------------------------------
-- Paragraphs
------------------------------------------------------------

/-
  A stanza fails as its reader does, or
  else what follows fails.
-/
theorem readStanza_error? :
    (Reading.lyrics false).error? fin ts =
      Stop.orThen? (readStanza fin ts) fun r =>
        Reading.between.error? fin r.2 := by
  rw [readLyricLines_error?, readStanza]
  cases readLyricLines fin ts with
  | error s =>
      rfl
  | ok r =>
      rw [Stop.orThen?_ok, readPitchLines_error?]
      simp only
      cases readPitchLines fin r.2 <;> rfl

/- A stanza starts with its lyrics. -/
theorem between_error?_start
    {t : Token}
    (hStart : t.kind ≠ .newline) :
    Reading.between.error? fin (t :: ts) =
      (Reading.lyrics false).error? fin (t :: ts) := by
  rw [Reading.error?, Reading.error?, Reading.step,
    Reading.step, if_neg hStart]

/-
  Stanzas fail as their reader does, and
  nothing follows them.
-/
theorem readStanzas_error? :
    Reading.between.error? fin ts =
      Stop.orThen? (readStanzas fin ts) fun _ => none := by
  induction ts using readStanzas.induct fin with
  | case1 =>
      rw [readStanzas]
      rfl
  | case2 t ts hNewline ih =>
      rw [between_error? fin ts hNewline, readStanzas_cons,
        if_pos hNewline, ih]
  | case3 t ts hStart s hStop =>
      rw [between_error?_start fin ts hStart,
        readStanza_error?, readStanzas_cons, if_neg hStart,
        hStop]
      rfl
  | case4 t ts hStart stanza after hStanza s hStop ih =>
      rw [between_error?_start fin ts hStart,
        readStanza_error?, readStanzas_cons, if_neg hStart]
      simp only [hStanza, hStop, Stop.orThen?_ok] at ih ⊢
      exact ih
  | case5 t ts hStart stanza after hStanza others hOthers ih =>
      rw [between_error?_start fin ts hStart,
        readStanza_error?, readStanzas_cons, if_neg hStart]
      simp only [hStanza, hOthers, Stop.orThen?_ok] at ih ⊢
      exact ih

/-
  Behind the end of a title line, an empty
  line ends the title.
-/
theorem titleEnd_error? :
    Reading.titleEnd.error? fin ts =
      if atNewline ts then Reading.between.error? fin ts
      else Reading.title.error? fin ts := by
  refine error?_at_end fin (fun _ hKind => ?_)
    (fun _ hKind => ?_) rfl
  · rw [Reading.step, if_pos hKind]
  · rw [Reading.step, Reading.step, if_neg hKind, if_neg hKind]

/- In a title line, all tokens up to its end are taken. -/
theorem title_error?_dropWhile :
    Reading.title.error? fin ts =
      Reading.title.error? fin
        (ts.dropWhile fun u => !u.isNewline) := by
  induction ts with
  | nil =>
      rfl
  | cons t ts ih =>
      by_cases hNewline : t.kind = .newline
      · rw [List.dropWhile_cons_of_neg
          (by simp [Token.isNewline, hNewline])]
      · rw [List.dropWhile_cons_of_pos
            (by simp [Token.isNewline, hNewline]), ← ih,
          Reading.error?, Reading.step, if_neg hNewline,
          ScoreError.orThen?_ok]

/- A title does not fail; what follows it may. -/
theorem readTitle_error? :
    Reading.title.error? fin ts =
      Reading.between.error? fin (readTitle ts).2 := by
  induction ts using readTitle.induct with
  | case1 =>
      rw [readTitle]
      rfl
  | case2 t ts hNewline hGap =>
      have hKind : t.kind = .newline :=
        of_decide_eq_true hNewline
      rw [readTitle_cons, if_pos hKind, if_pos hGap,
        Reading.error?, Reading.step, if_pos hKind,
        ScoreError.orThen?_ok, titleEnd_error?, if_pos hGap]
  | case3 t ts hNewline hGap ih =>
      have hKind : t.kind = .newline :=
        of_decide_eq_true hNewline
      rw [readTitle_cons, if_pos hKind, if_neg hGap, ← ih,
        Reading.error?, Reading.step, if_pos hKind,
        ScoreError.orThen?_ok, titleEnd_error?, if_neg hGap]
  | case4 t ts hNewline lines after hTitle ih =>
      have hKind : t.kind ≠ .newline :=
        fun hKind => hNewline (decide_eq_true hKind)
      rw [readTitle_cons, if_neg hKind, ← ih,
        Reading.error?, Reading.step, if_neg hKind,
        ScoreError.orThen?_ok, title_error?_dropWhile]

/- Before the title, line ends are passed over. -/
theorem lead_error?_dropWhile :
    Reading.lead.error? fin ts =
      Reading.lead.error? fin
        (ts.dropWhile Token.isNewline) := by
  induction ts with
  | nil =>
      rfl
  | cons t ts ih =>
      by_cases hNewline : t.kind = .newline
      · rw [List.dropWhile_cons_of_pos
            (by simp [Token.isNewline, hNewline]), ← ih,
          Reading.error?, Reading.step, if_pos hNewline,
          ScoreError.orThen?_ok]
      · rw [List.dropWhile_cons_of_neg
          (by simp [Token.isNewline, hNewline])]

/-
  The readers of a text fail as the steps
  through its tokens do.
-/
theorem Manuscript.ofBody_error? :
    Reading.lead.error? fin ts =
      Stop.orThen? (ofBody fin ts) fun _ => none := by
  rw [lead_error?_dropWhile, ofBody]
  have hStart := List.head?_dropWhile_not Token.isNewline ts
  cases hBody : ts.dropWhile Token.isNewline with
  | nil =>
      rfl
  | cons t rest =>
      rw [hBody] at hStart
      have hKind : t.kind ≠ .newline := by
        simpa [Token.isNewline] using hStart
      have hTitle :
          Reading.lead.error? fin (t :: rest) =
            Reading.title.error? fin (t :: rest) := by
        rw [Reading.error?, Reading.error?, Reading.step,
          Reading.step, if_neg hKind, if_neg hKind]
      rw [hTitle, readTitle_error?, readStanzas_error?]
      simp only
      cases readStanzas fin (readTitle (t :: rest)).2 <;> rfl

end Readers

end LyricScore
