import LyricScore.Manuscript.Bracket
import LyricScore.Score.Basic

/-
  This file defines how the pitch lines of a score are read:
  as barlines, bracket groups, chords and runs of letters.
  A token that is none of these is passed over.

  Key definitions include:
    * `takeShifts`
    * `readRun`
    * `ChordEntry`
    * `readChordEntries`
    * `PitchUnit`
    * `PitchUnit.remarks`
    * `readPitchUnit`
    * `readPitchLine`
    * `readPitchLines`
-/

namespace LyricScore

------------------------------------------------------------
-- Runs of letters
------------------------------------------------------------

/- A token that shifts a pitch by an octave. -/
def Token.isShift
    (t : Token) : Bool :=
  t.kind = .caret || t.kind = .slash

/- By how many octaves a shifting token moves a pitch. -/
def Token.octaves
    (t : Token) : Int :=
  if t.kind = .caret then 1 else -1

/-
  By how many octaves shifting tokens move a pitch together.
-/
def totalShift : List Token → Int
  | [] => 0
  | t :: ts => t.octaves + totalShift ts

/- The shift at the head of some tokens. -/
def takeShifts
    (ts : List Token) : Int × List Token :=
  (totalShift (ts.takeWhile Token.isShift),
    ts.dropWhile Token.isShift)

/-
  The letters of an identifier, if it has
  nothing but letters.
-/
def Token.letters?
    (t : Token) : Option (List Letter) :=
  if t.kind = .identifier then
    t.text.toList.mapM Letter.ofChar?
  else none

/-
  The pitches of the letters after the first: each stands one
  column behind the one before it.
-/
def followers
    (line column : Int) : List Letter → List Pitch
  | [] => []
  | l :: ls =>
      ⟨l, none, 0, ⟨line, column⟩⟩ ::
        followers line (column + 1) ls

/-
  A run of letters: shifts, perhaps an accidental, letters.
  Shift and accidental belong to the first letter, which
  stands where they start.  If no run starts here, no pitch
  is read; shifts that cancel are passed over even so.  Other
  shifts and accidentals need a letter.
-/
def readRun
    (fin : Token)
    (ts : List Token) :
      Except ScoreError (List Pitch × List Token) :=
  let start := (ts.headD fin).location
  let (shift, afterShifts) := takeShifts ts
  let (accidental, rest) := takeAccidental afterShifts
  match rest with
  | [] => missing shift accidental rest
  | t :: after =>
    match t.letters? with
    | some (l :: ls) =>
      .ok
        (⟨l, accidental, shift, start⟩ ::
            followers t.line (t.column + 1) ls, after)
    | some [] => .error .emptyName
    | none => missing shift accidental rest
where
  /- No letter is there. -/
  missing (shift : Int) (accidental : Option Accidental)
    (rest : List Token) :
    Except ScoreError (List Pitch × List Token) :=
    if shift = 0 ∧ accidental = none then .ok ([], rest)
    else .error (.missing .note (rest.headD fin))

/- Shifts are taken from the head of the tokens. -/
theorem length_takeShifts_le
    (ts : List Token) :
    (takeShifts ts).2.length ≤ ts.length :=
  (List.dropWhile_sublist _).length_le

/-
  Where no letter is there, nothing is taken
  behind the modifiers.
-/
theorem readRun.length_missing_le
    {fin : Token}
    {shift : Int}
    {accidental : Option Accidental}
    {ts rest : List Token}
    {ps : List Pitch}
    (h : missing fin shift accidental ts = .ok (ps, rest)) :
    ps = [] ∧ rest = ts := by
  unfold readRun.missing at h
  split at h
  · cases h
    exact ⟨rfl, rfl⟩
  · cases h

/-
  A run takes its letters; where none is,
  nothing is put back.
-/
theorem length_readRun
    {fin : Token}
    {ts rest : List Token}
    {ps : List Pitch}
    (h : readRun fin ts = .ok (ps, rest)) :
    rest.length ≤ ts.length ∧
      (ps ≠ [] → rest.length < ts.length) := by
  have hle :
      (takeAccidental (takeShifts ts).2).2.length ≤
        ts.length :=
    Nat.le_trans (length_takeAccidental_le _)
      (length_takeShifts_le ts)
  unfold readRun at h
  simp only at h
  cases hRest : (takeAccidental (takeShifts ts).2).2 with
  | nil =>
      rw [hRest] at h hle
      rcases readRun.length_missing_le h with ⟨rfl, rfl⟩
      exact ⟨hle, fun h => absurd rfl h⟩
  | cons t after =>
      rw [hRest] at h hle
      simp only [List.length_cons] at hle
      cases hLetters : t.letters? with
      | none =>
          simp only [hLetters] at h
          rcases readRun.length_missing_le h with ⟨rfl, rfl⟩
          exact ⟨by simpa using hle, fun h => absurd rfl h⟩
      | some ls =>
          simp only [hLetters] at h
          cases ls with
          | nil =>
              cases h
          | cons l ls =>
              cases h
              exact ⟨by omega, fun _ => by omega⟩

------------------------------------------------------------
-- Chords
------------------------------------------------------------

/-
  What a chord holds: a run of letters, or a
  token without meaning.
-/
inductive ChordEntry where
  | run (pitches : List Pitch)
  | stray (t : Token)
deriving DecidableEq, Repr

namespace ChordEntry

/- The pitches of an entry. -/
def pitches : ChordEntry → List Pitch
  | run ps => ps
  | stray _ => []

/- What is remarked about an entry. -/
def remarks : ChordEntry → List Remark
  | run _ => []
  | stray t => [.inChord t]

end ChordEntry

/- The next entry of a chord. -/
def readChordEntry
    (fin : Token)
    (ts : List Token) :
      Except ScoreError (ChordEntry × List Token) :=
  (readRun fin ts).map fun (ps, rest) =>
    if ps = [] then (.stray (rest.headD fin), rest.tail)
    else (.run ps, rest)

/- An entry of a chord never puts tokens back. -/
theorem length_readChordEntry_lt
    {fin t : Token}
    {ts rest : List Token}
    {entry : ChordEntry}
    (h : readChordEntry fin (t :: ts) = .ok (entry, rest)) :
    rest.length ≤ ts.length := by
  unfold readChordEntry at h
  cases hRun : readRun fin (t :: ts) with
  | error e =>
      rw [hRun] at h
      cases h
  | ok step =>
      rcases step with ⟨ps, after⟩
      have hlen := length_readRun hRun
      simp only [List.length_cons] at hlen
      rw [hRun] at h
      simp only [Except.map, Except.ok.injEq] at h
      by_cases hne : ps = []
      · rw [if_pos hne] at h
        cases h
        simp only [List.length_tail]
        omega
      · rw [if_neg hne] at h
        cases h
        have := hlen.2 hne
        omega

/-
  The entries up to the closing parenthesis, that
  parenthesis, and what follows it.
-/
def readChordEntries
    (fin : Token)
    (ts : List Token) :
    Except Stop (List ChordEntry × Token × List Token) :=
  match ts with
  | [] => .error ⟨.missing .closingParenthesis fin, []⟩
  | t :: rest =>
    if t.kind = .closeParenthesis then .ok ([], t, rest)
    else
      match _h : readChordEntry fin (t :: rest) with
      | .error e => .error ⟨e, []⟩
      | .ok (entry, after) =>
          Stop.prepend entry entry.remarks
            (readChordEntries fin after)
termination_by ts.length
decreasing_by
  have := length_readChordEntry_lt _h
  simp only [List.length_cons]
  omega

/-
  The entries of a chord take the
  parenthesis that closes it.
-/
theorem length_readChordEntries_lt
    {fin t : Token}
    {ts rest : List Token}
    {entries : List ChordEntry}
    (h : readChordEntries fin ts = .ok (entries, t, rest)) :
    rest.length < ts.length := by
  induction ts using readChordEntries.induct fin
    generalizing entries with
  | case1 => simp [readChordEntries] at h
  | case2 u us hu =>
    rw [readChordEntries, if_pos hu] at h
    cases h
    simp
  | case3 u us hu e he =>
    rw [readChordEntries, if_neg hu, he] at h
    cases h
  | case4 u us hu entry after he ih =>
    rw [readChordEntries, if_neg hu, he] at h
    rcases Stop.prepend_eq_ok h with ⟨others, hOthers, rfl⟩
    have h1 := ih hOthers
    have h2 := length_readChordEntry_lt he
    simp only [List.length_cons]
    omega

------------------------------------------------------------
-- Units of pitch lines
------------------------------------------------------------

/- What a pitch line is written with. -/
inductive PitchUnit where
  | barline (t : Token)
  | group (g : BracketGroup)
  | chord (opening : Token) (entries : List ChordEntry)
  | run (pitches : List Pitch)
  | stray (t : Token)
deriving DecidableEq, Repr

namespace PitchUnit

/- What is remarked about a unit. -/
def remarks : PitchUnit → List Remark
  | barline _ => []
  | group g => g.remarks
  | chord _ entries => entries.flatMap ChordEntry.remarks
  | run _ => []
  | stray t => [.noPitch t]

end PitchUnit

/-
  The unit that starts with the token `t`, which is no line
  end.  If no pitch starts there, the token behind the shifts
  that are passed over is passed over too.
-/
def readPitchUnit
    (fin : Token)
    (t : Token)
    (rest : List Token) :
      Except Stop (PitchUnit × List Token) :=
  if t.kind = .barline then .ok (.barline t, rest)
  else if t.kind = .openBracket then
    match readGroup fin t rest with
    | .error s => .error s
    | .ok (g, after) => .ok (.group g, after)
  else if t.kind = .openParenthesis then
    match readChordEntries fin rest with
    | .error s => .error s
    | .ok (entries, _, after) => .ok (.chord t entries, after)
  else
    match readRun fin (t :: rest) with
    | .error e => .error ⟨e, []⟩
    | .ok (ps, after) =>
        .ok
          (if ps = [] then
              (.stray t, after.tail)
            else (.run ps, after))

/- A unit of a pitch line never puts tokens back. -/
theorem length_readPitchUnit_le
    {fin t : Token}
    {ts rest : List Token}
    {unit : PitchUnit}
    (h : readPitchUnit fin t ts = .ok (unit, rest)) :
    rest.length ≤ ts.length := by
  unfold readPitchUnit at h
  by_cases hBarline : t.kind = .barline
  · rw [if_pos hBarline] at h
    cases h
    exact Nat.le_refl _
  rw [if_neg hBarline] at h
  by_cases hBracket : t.kind = .openBracket
  · rw [if_pos hBracket] at h
    cases hGroup : readGroup fin t ts with
    | error s =>
        rw [hGroup] at h
        cases h
    | ok step =>
        rw [hGroup] at h
        cases h
        exact Nat.le_of_lt (length_readGroup_lt hGroup)
  rw [if_neg hBracket] at h
  by_cases hParenthesis : t.kind = .openParenthesis
  · rw [if_pos hParenthesis] at h
    cases hEntries : readChordEntries fin ts with
    | error s =>
        rw [hEntries] at h
        cases h
    | ok step =>
        rw [hEntries] at h
        cases h
        exact Nat.le_of_lt (length_readChordEntries_lt hEntries)
  rw [if_neg hParenthesis] at h
  cases hRun : readRun fin (t :: ts) with
  | error e =>
      rw [hRun] at h
      cases h
  | ok step =>
      rcases step with ⟨ps, after⟩
      have hlen := length_readRun hRun
      simp only [List.length_cons] at hlen
      simp only [hRun, Except.ok.injEq] at h
      by_cases hne : ps = []
      · rw [if_pos hne] at h
        cases h
        simp only [List.length_tail]
        omega
      · rw [if_neg hne] at h
        cases h
        have := hlen.2 hne
        omega

/-
  The units up to the end of the line,
  and what follows them.
-/
def readPitchLine
    (fin : Token)
    (ts : List Token) :
      Except Stop (List PitchUnit × List Token) :=
  match ts with
  | [] => .ok ([], [])
  | t :: rest =>
    if t.kind = .newline then .ok ([], t :: rest)
    else
      match _h : readPitchUnit fin t rest with
      | .error s => .error s
      | .ok (unit, after) =>
          Stop.prepend unit unit.remarks
            (readPitchLine fin after)
termination_by ts.length
decreasing_by
  have := length_readPitchUnit_le _h
  simp only [List.length_cons]
  omega

theorem length_readPitchLine_le
    {fin : Token}
    {ts rest : List Token}
    {units : List PitchUnit}
    (h : readPitchLine fin ts = .ok (units, rest)) :
    rest.length ≤ ts.length := by
  induction ts using readPitchLine.induct fin generalizing
    units with
  | case1 =>
    rw [readPitchLine] at h
    cases h
    exact Nat.le_refl _
  | case2 t us ht =>
    rw [readPitchLine, if_pos ht] at h
    cases h
    exact Nat.le_refl _
  | case3 t us ht s hs =>
    rw [readPitchLine, if_neg ht, hs] at h
    cases h
  | case4 t us ht unit after hu ih =>
    rw [readPitchLine, if_neg ht, hu] at h
    rcases Stop.prepend_eq_ok h with ⟨others, hOthers, rfl⟩
    have h1 := ih hOthers
    have h2 := length_readPitchUnit_le hu
    simp only [List.length_cons]
    omega

/- A line that is not empty takes its first token. -/
theorem length_readPitchLine_lt
    {fin t : Token}
    {ts rest : List Token}
    {units : List PitchUnit}
    (ht : t.kind ≠ .newline)
    (h : readPitchLine fin (t :: ts) = .ok (units, rest)) :
    rest.length < (t :: ts).length := by
  rw [readPitchLine, if_neg ht] at h
  cases hUnit : readPitchUnit fin t ts with
  | error s =>
      rw [hUnit] at h
      cases h
  | ok step =>
      rw [hUnit] at h
      rcases Stop.prepend_eq_ok h with ⟨others, hOthers, rfl⟩
      have h1 := length_readPitchLine_le hOthers
      have h2 := length_readPitchUnit_le hUnit
      simp only [List.length_cons]
      omega

------------------------------------------------------------
-- Pitch lines of a block
------------------------------------------------------------

/- The head of some tokens is a line end. -/
def atNewline : List Token → Bool
  | [] => false
  | t :: _ => t.kind = .newline

/-
  The written lines up to an empty line or the end of the
  text, and what follows them, the empty line included.
-/
def readPitchLines
    (fin : Token)
    (ts : List Token) :
    Except Stop (List (List PitchUnit) × List Token) :=
  match ts with
  | [] => .ok ([], [])
  | t :: rest =>
    if _ht : t.kind = .newline then
      if atNewline rest then .ok ([], t :: rest)
      else readPitchLines fin rest
    else
      match _h : readPitchLine fin (t :: rest) with
      | .error s => .error s
      | .ok (units, after) =>
        Stop.prepend units (units.flatMap PitchUnit.remarks)
          (readPitchLines fin after)
termination_by ts.length
decreasing_by
  · simp
  · exact length_readPitchLine_lt _ht _h

end LyricScore
