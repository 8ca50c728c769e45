import Mathlib.Data.List.Basic
import LyricScore.Proofs.Manuscript.Reading
import LyricScore.Proofs.Numeral
import LyricScore.Score.Parse

/-
  This file proves where a text that is no score fails: at
  the first token that no score can have there.  The tokens
  before it have a completion that is a score, whatever the
  error; and no tokens behind it make a difference.

  One exception is shifts that cancel at the end of a chord:
  the parenthesis that should complete it is passed over.

  Key definitions include:
    * `Reading.after`
    * `Completes`
    * `Manuscript.Bounded`

  Key theorems include:
    * `Reading.error?_append`, `Reading.exists_after_of_missing`
    * `Reading.after_completion`, `Reading.run_iff_isShift`
    * `Manuscript.Bounded.ofTokens_eq_error_iff`
    * `Manuscript.Bounded.exists_ofTokens_iff`
    * `Score.errors_at_earliest_token`
-/

namespace LyricScore

------------------------------------------------------------
-- Runs of the states
------------------------------------------------------------

namespace Reading

variable {fin t found : Token}
variable {ts us : List Token}
variable {r next : Reading}
variable {what : Expected}

/- The state behind some tokens. -/
def after
    (r : Reading) : List Token → Except ScoreError Reading
  | [] => .ok r
  | t :: ts => r.step t >>= fun next => next.after ts

theorem after_append :
    r.after (ts ++ us) =
      r.after ts >>= fun next => next.after us := by
  induction ts generalizing r with
  | nil =>
      rfl
  | cons t ts ih =>
      rw [List.cons_append, after, after]
      cases r.step t with
      | error e =>
          rfl
      | ok next =>
          exact ih

/-
  Tokens fail as the later of them do from the
  state behind the earlier.
-/
theorem error?_append
    (hAfter : r.after ts = .ok next) :
    r.error? fin (ts ++ us) = next.error? fin us := by
  induction ts generalizing r with
  | nil =>
      cases hAfter
      rfl
  | cons t ts ih =>
      obtain ⟨second, hStep, hAfter⟩ :=
        Outcome.bind_eq_ok.mp hAfter
      rw [List.cons_append, error?, hStep,
        ScoreError.orThen?_ok]
      exact ih hAfter

------------------------------------------------------------
-- What is missing
------------------------------------------------------------

/-
  Only a letter that is needed can be missing, where its
  token should be.
-/
theorem takeNote_missing
    {inChord needed : Bool}
    (hMissing :
      takeNote inChord needed t =
        .error (.missing what found)) :
    needed = true ∧ what = .note ∧ found = t := by
  unfold takeNote at hMissing
  split at hMissing
  · cases hMissing
  · cases hMissing
  · by_cases hNeeded : needed = true
    · rw [if_pos hNeeded] at hMissing
      cases hMissing
      exact ⟨hNeeded, rfl, rfl⟩
    · rw [if_neg hNeeded] at hMissing
      cases hMissing

/-
  In a run only the letter of shifts that do
  not cancel can be missing.
-/
theorem takeRun_missing
    {inChord : Bool}
    {shift : Int}
    (hMissing :
      takeRun inChord shift t =
        .error (.missing what found)) :
    shift ≠ 0 ∧ what = .note ∧ found = t := by
  unfold takeRun at hMissing
  split at hMissing
  · cases hMissing
  · split at hMissing
    · cases hMissing
    · obtain ⟨hNeeded, hNote⟩ := takeNote_missing hMissing
      exact ⟨of_decide_eq_true hNeeded, hNote⟩

/- In an order only its number can be missing. -/
theorem takeOrder_missing
    {inLyrics accidental : Bool}
    {name : DirectiveName}
    (hMissing :
      takeOrder inLyrics name accidental t =
        .error (.missing what found)) :
    what = .number name ∧ found = t := by
  unfold takeOrder at hMissing
  split at hMissing
  · cases hMissing
  · split at hMissing
    · split at hMissing <;> cases hMissing
    · cases hMissing
      exact ⟨rfl, rfl⟩

/- A step fails at its own token, for want of what is due. -/
theorem step_missing
    (hMissing : r.step t = .error (.missing what found)) :
    r.due? = some what ∧ found = t := by
  have hNoShift {inChord : Bool} :
      takeRun inChord 0 t ≠ .error (.missing what found) :=
    fun hRun => (takeRun_missing hRun).1 rfl
  have hPitch : takePitch t ≠ .error (.missing what found) := by
    intro hRun
    unfold takePitch at hRun
    split at hRun
    · cases hRun
    · split at hRun
      · cases hRun
      · split at hRun
        · cases hRun
        · exact hNoShift hRun
  cases r with
  | pitches =>
      exact absurd hMissing hPitch
  | pitchesEnd =>
      rw [step] at hMissing
      split at hMissing
      · cases hMissing
      · exact absurd hMissing hPitch
  | chord =>
      rw [step] at hMissing
      split at hMissing
      · cases hMissing
      · exact absurd hMissing hNoShift
  | order inLyrics name accidental =>
      obtain ⟨rfl, rfl⟩ := takeOrder_missing hMissing
      exact ⟨rfl, rfl⟩
  | run inChord shift =>
      obtain ⟨hShift, rfl, rfl⟩ := takeRun_missing hMissing
      exact ⟨if_pos hShift, rfl⟩
  | altered inChord =>
      obtain ⟨-, rfl, rfl⟩ := takeNote_missing hMissing
      exact ⟨rfl, rfl⟩
  | _ =>
      cases hMissing

/-
  Tokens for want of something lead to a state in which it is
  due, and there the text ends or a token is something else.
-/
theorem exists_after_of_missing
    (hError : r.error? fin ts = some (.missing what found)) :
    ∃ before next,
      r.after before = .ok next ∧
        next.due? = some what ∧
        (before = ts ∧ found = fin ∨
          ∃ behind,
            ts = before ++ found :: behind ∧
              next.step found =
                .error (.missing what found)) := by
  induction ts generalizing r with
  | nil =>
      obtain ⟨due, hDue, hFound⟩ :=
        Option.map_eq_some_iff.mp hError
      cases hFound
      exact ⟨[], r, rfl, hDue, .inl ⟨rfl, rfl⟩⟩
  | cons t ts ih =>
      rw [error?] at hError
      cases hStep : r.step t with
      | error e =>
          rw [hStep] at hError
          cases hError
          obtain ⟨hDue, rfl⟩ := step_missing hStep
          exact ⟨[], r, rfl, hDue, .inr ⟨ts, rfl, hStep⟩⟩
      | ok second =>
          rw [hStep] at hError
          obtain ⟨before, next, hAfter, hDue, hEnds⟩ :=
            ih hError
          refine ⟨t :: before, next, ?_, hDue, ?_⟩
          · rw [after, hStep]
            exact hAfter
          · rcases hEnds with
              ⟨rfl, rfl⟩ | ⟨behind, rfl, hMissing⟩
            · exact .inl ⟨rfl, rfl⟩
            · exact .inr ⟨behind, rfl, hMissing⟩

end Reading

------------------------------------------------------------
-- Completions
------------------------------------------------------------

/-
  The tokens that complete a text in which
  something is missing.
-/
inductive Completes : Expected → List Token → Prop where
  | number
      (name : DirectiveName)
      {n bracket : Token}
      (hNumber : n.kind = .number)
      (hSome : n.text.toList ≠ [])
      (hAscii :
        ∀ c ∈ n.text.toList, DecimalDigit.isAscii c = true)
      (hShort : n.text.toList.length ≤ Numeral.digitLimit)
      (hBracket : bracket.kind = .closeBracket) :
      Completes (.number name) [n, bracket]
  | note
      {letter parenthesis : Token}
      (hIdentifier : letter.kind = .identifier)
      (hLetter : letter.text = "c")
      (hParenthesis : parenthesis.kind = .closeParenthesis) :
      Completes .note [letter, parenthesis]
  | closingParenthesis
      {parenthesis : Token}
      (hParenthesis : parenthesis.kind = .closeParenthesis) :
      Completes .closingParenthesis [parenthesis]
  | closingBracket
      {bracket : Token}
      (hBracket : bracket.kind = .closeBracket) :
      Completes .closingBracket [bracket]

/- A completion does not close the text. -/
theorem Completes.opened
    {what : Expected}
    {tail : List Token}
    (hCompletes : Completes what tail) :
    ∀ t ∈ tail, Manuscript.closes t = false := by
  cases hCompletes <;> simp_all [Manuscript.closes]

namespace Reading

variable {t : Token}
variable {ts tail : List Token}
variable {r next : Reading}
variable {what : Expected}

/-
  A run needs a letter, or the end of its chord if its
  shifts cancel.
-/
theorem due?_of_run
    {inChord : Bool}
    {shift : Int}
    (hDue : (run inChord shift).due? = some what) :
    what = .note ∨
      what = .closingParenthesis ∧
        inChord = true ∧
        shift = 0 := by
  rw [due?] at hDue
  by_cases hShift : shift ≠ 0
  · rw [if_pos hShift] at hDue
    cases hDue
    exact .inl rfl
  · rw [if_neg hShift] at hDue
    cases inChord with
    | false =>
        cases hDue
    | true =>
        cases hDue
        exact .inr ⟨rfl, rfl, Decidable.not_not.mp hShift⟩

/-
  Behind a run, no parenthesis is due,
  or one ends the chord.
-/
theorem due?_after_parenthesis
    (inChord : Bool)
    (hParenthesis : t.kind = .closeParenthesis) :
    ∃ next,
      (behindRun inChord).after [t] = .ok next ∧
        next.due? = none := by
  have hLetters : t.letters? = none := by
    simp [Token.letters?, hParenthesis]
  refine ⟨pitches, ?_, rfl⟩
  cases inChord
  · simp [after, behindRun, step, takePitch, takeRun,
      takeNote, Token.isShift, hParenthesis, hLetters]
  · simp [after, behindRun, step, hParenthesis]

/- A letter ends a run that needs one. -/
theorem step_letter
    (hDue : r.due? = some .note)
    (hIdentifier : t.kind = .identifier)
    (hLetter : t.text = "c") :
    ∃ inChord, r.step t = .ok (behindRun inChord) := by
  have hLetters : t.letters? = some [.c] := by
    simp only [Token.letters?, hIdentifier, hLetter, if_true]
    decide
  cases r with
  | run inChord shift =>
      exact ⟨inChord,
        by
          simp [step, takeRun, takeNote, Token.isShift,
            hIdentifier, hLetters]⟩
  | altered inChord =>
      exact ⟨inChord, by simp [step, takeNote, hLetters]⟩
  | _ =>
      cases hDue

/- A number ends the order that needs one. -/
theorem step_number
    {name : DirectiveName}
    (hDue : r.due? = some (.number name))
    (hNumber : t.kind = .number)
    (hRead : ∃ n, Numeral.read t.text = .ok n) :
    ∃ inLyrics, r.step t = .ok (group inLyrics) := by
  obtain ⟨n, hRead⟩ := hRead
  cases r with
  | order inLyrics name accidental =>
      exact ⟨inLyrics,
        by simp [step, takeOrder, hNumber, hRead]⟩
  | run inChord shift =>
      rcases due?_of_run hDue with hNote | ⟨hClosing, -⟩
      · cases hNote
      · cases hClosing
  | _ =>
      cases hDue

/- A bracket ends a group. -/
theorem due?_after_bracket
    (inLyrics : Bool)
    (hBracket : t.kind = .closeBracket) :
    ∃ next,
      (group inLyrics).after [t] = .ok next ∧
        next.due? = none := by
  refine ⟨behindGroup inLyrics, ?_, by cases inLyrics <;> rfl⟩
  simp [after, step, takeInside, hBracket]

/-
  What a run in a chord lacks is the parenthesis only if its
  shifts cancel.
-/
theorem eq_of_due?_closingParenthesis
    (hDue : r.due? = some .closingParenthesis) :
    r = chord ∨ r = run true 0 := by
  cases r with
  | chord =>
      exact .inl rfl
  | run inChord shift =>
      rcases due?_of_run hDue with hNote | ⟨-, rfl, rfl⟩
      · cases hNote
      · exact .inr rfl
  | _ =>
      cases hDue

/- A completion leads to where a text may end. -/
theorem after_completion
    (hDue : r.due? = some what)
    (hCompletes : Completes what tail)
    (hOpen : r ≠ run true 0) :
    ∃ next, r.after tail = .ok next ∧ next.due? = none := by
  cases hCompletes with
  | number name hNumber hSome hAscii hShort hBracket =>
      obtain ⟨inLyrics, hStep⟩ :=
        step_number hDue hNumber
          (Numeral.exists_read_of_ascii hSome hAscii hShort)
      rw [after, hStep]
      exact due?_after_bracket inLyrics hBracket
  | note hIdentifier hLetter hParenthesis =>
      obtain ⟨inChord, hStep⟩ :=
        step_letter hDue hIdentifier hLetter
      rw [after, hStep]
      exact due?_after_parenthesis inChord hParenthesis
  | closingParenthesis hParenthesis =>
      have hChord :=
        (eq_of_due?_closingParenthesis hDue).resolve_right
          hOpen
      rw [hChord]
      exact due?_after_parenthesis true hParenthesis
  | closingBracket hBracket =>
      cases r with
      | group inLyrics =>
          exact due?_after_bracket inLyrics hBracket
      | run inChord shift =>
          rcases due?_of_run hDue with hNote | ⟨hClosing, -⟩
          · cases hNote
          · cases hClosing
      | _ =>
          cases hDue

/- Behind shifts that cancel, a parenthesis is passed over. -/
theorem after_swallowed
    (hCompletes : Completes .closingParenthesis tail) :
    (run true 0).after tail = .ok chord := by
  cases hCompletes with
  | closingParenthesis hParenthesis =>
      simp [after, step, takeRun, takeNote, behindRun,
        Token.isShift, Token.letters?, hParenthesis]

/-
  A step for a letter leads behind the run; if one is
  needed, the step takes it.
-/
theorem takeNote_cases
    {inChord needed : Bool}
    (hTake : takeNote inChord needed t = .ok next) :
    next = behindRun inChord ∧
      (needed = true → t.kind = .identifier) := by
  unfold takeNote at hTake
  cases hLetters : t.letters? with
  | none =>
      simp only [hLetters] at hTake
      by_cases hNeeded : needed = true
      · rw [if_pos hNeeded] at hTake
        cases hTake
      · rw [if_neg hNeeded] at hTake
        cases hTake
        exact ⟨rfl, fun hIs => absurd hIs hNeeded⟩
  | some letters =>
      have hKind : t.kind = .identifier := by
        unfold Token.letters? at hLetters
        split at hLetters
        · assumption
        · cases hLetters
      cases letters with
      | nil =>
          simp only [hLetters] at hTake
          cases hTake
      | cons l ls =>
          simp only [hLetters] at hTake
          cases hTake
          exact ⟨rfl, fun _ => hKind⟩

/-
  A step of a run is a shift, or leads to its
  accidental or behind it.
-/
theorem takeRun_cases
    {inChord : Bool}
    {shift : Int}
    (hTake : takeRun inChord shift t = .ok next) :
    t.isShift = true ∧
        next = run inChord (shift + t.octaves) ∨
      ¬ t.isShift = true ∧
        (next = altered inChord ∨
          next = behindRun inChord) := by
  unfold takeRun at hTake
  by_cases hShift : t.isShift = true
  · rw [if_pos hShift] at hTake
    cases hTake
    exact .inl ⟨hShift, rfl⟩
  · rw [if_neg hShift] at hTake
    refine .inr ⟨hShift, ?_⟩
    split at hTake
    · cases hTake
      exact .inl rfl
    · exact .inr (takeNote_cases hTake).1

/- A run that has ended is not the start of one in a chord. -/
theorem behindRun_ne_run
    (inChord : Bool) :
    behindRun inChord ≠ run true 0 := by
  cases inChord <;> exact nofun

/-
  Where a step of a run leaves a parenthesis due, it is a
  shift only if shifts cancel.
-/
theorem isShift_of_takeRun
    {inChord : Bool}
    {shift : Int}
    (hTake : takeRun inChord shift t = .ok next)
    (hDue : next.due? = some .closingParenthesis) :
    next = run true 0 ↔ t.isShift = true := by
  rcases takeRun_cases hTake with
    ⟨hShift, rfl⟩ | ⟨hShift, rfl | rfl⟩
  · have hOpen :=
      (eq_of_due?_closingParenthesis hDue).resolve_left
        nofun
    exact iff_of_true hOpen hShift
  · cases hDue
  · exact iff_of_false (behindRun_ne_run inChord) hShift

/-
  If a parenthesis is due, shifts that cancel were read just
  if the token is a shift.
-/
theorem isShift_of_takePitch
    (hTake : takePitch t = .ok next)
    (hDue : next.due? = some .closingParenthesis) :
    next = run true 0 ↔ t.isShift = true := by
  unfold takePitch at hTake
  split at hTake
  · cases hTake
    cases hDue
  · split at hTake
    · cases hTake
      cases hDue
    · by_cases hParenthesis : t.kind = .openParenthesis
      · rw [if_pos hParenthesis] at hTake
        cases hTake
        exact iff_of_false nofun
          (by simp [Token.isShift, hParenthesis])
      · rw [if_neg hParenthesis] at hTake
        exact isShift_of_takeRun hTake hDue

/- Neither lyrics nor brackets lead into a chord. -/
theorem due?_takeLyric
    (barline : Bool) :
    (takeLyric barline t).due? ≠ some .closingParenthesis := by
  unfold takeLyric
  split
  · split <;> exact nofun
  · split <;> exact nofun

/- Inside of brackets no parenthesis is due. -/
theorem due?_takeInside
    (inLyrics : Bool) :
    (takeInside inLyrics t).due? ≠
      some .closingParenthesis := by
  unfold takeInside
  split
  · cases inLyrics <;> exact nofun
  · split
    · split <;> exact nofun
    · exact nofun

/- Within an order no parenthesis is due. -/
theorem due?_of_takeOrder
    {inLyrics accidental : Bool}
    {name : DirectiveName}
    (hTake : takeOrder inLyrics name accidental t = .ok next) :
    next.due? ≠ some .closingParenthesis := by
  unfold takeOrder at hTake
  split at hTake
  · cases hTake
    exact nofun
  · split at hTake
    · split at hTake
      · cases hTake
        exact nofun
      · cases hTake
    · cases hTake

/-
  Where a step leaves a parenthesis due, it is a shift only
  if shifts cancel.
-/
theorem isShift_of_step
    (hStep : r.step t = .ok next)
    (hDue : next.due? = some .closingParenthesis) :
    next = run true 0 ↔ t.isShift = true := by
  cases r with
  | pitches =>
      exact isShift_of_takePitch hStep hDue
  | pitchesEnd =>
      rw [step] at hStep
      split at hStep
      · cases hStep
        cases hDue
      · exact isShift_of_takePitch hStep hDue
  | chord =>
      rw [step] at hStep
      split at hStep
      · cases hStep
        cases hDue
      · exact isShift_of_takeRun hStep hDue
  | run inChord shift =>
      exact isShift_of_takeRun hStep hDue
  | altered inChord =>
      obtain ⟨rfl, hIdentifier⟩ := takeNote_cases hStep
      exact iff_of_false (behindRun_ne_run inChord)
        (by simp [Token.isShift, hIdentifier rfl])
  | order inLyrics name accidental =>
      exact absurd hDue (due?_of_takeOrder hStep)
  | group inLyrics =>
      cases hStep
      exact absurd hDue (due?_takeInside inLyrics)
  | lyrics barline =>
      cases hStep
      exact absurd hDue (due?_takeLyric barline)
  | between =>
      cases hStep
      split at hDue
      · cases hDue
      · exact absurd hDue (due?_takeLyric false)
  | lyricsEnd =>
      cases hStep
      split at hDue
      · cases hDue
      · exact absurd hDue (due?_takeLyric false)
  | _ =>
      cases hStep
      split at hDue <;> cases hDue

/-
  Where a parenthesis is due, the last token is a shift only
  if shifts cancel.
-/
theorem run_iff_isShift
    (hAfter : lead.after ts = .ok r)
    (hDue : r.due? = some .closingParenthesis) :
    r = run true 0 ↔ ts.getLast?.any Token.isShift = true := by
  rcases List.eq_nil_or_concat ts with rfl | ⟨before, t, rfl⟩
  · cases hAfter
    cases hDue
  · rw [List.concat_eq_append, after_append] at hAfter
    obtain ⟨second, -, hLast⟩ := Outcome.bind_eq_ok.mp hAfter
    obtain ⟨third, hStep, hDone⟩ := Outcome.bind_eq_ok.mp hLast
    cases hDone
    rw [List.concat_eq_append, List.getLast?_concat,
      Option.any_some]
    exact isShift_of_step hStep hDue

end Reading

------------------------------------------------------------
-- Texts
------------------------------------------------------------

namespace Manuscript

/-
  Tokens before the first closing token, that token, and the
  tokens behind it, of which the last closes a text, too.
-/
structure Bounded
    (body : List Token)
    (fin : Token)
    (rest : List Token) : Prop where
  opened : ∀ t ∈ body, closes t = false
  closed : closes fin = true
  ends : (body ++ fin :: rest).getLast?.any closes = true

variable {fin : Token}
variable {ts before body rest : List Token}

/- A list that ends with a closing token has a first one. -/
theorem exists_bounded
    (hBefore : ∀ t ∈ before, closes t = false)
    (hEnds : (before ++ ts).getLast?.any closes = true) :
    ∃ body fin rest,
      ts = body ++ fin :: rest ∧
        Bounded (before ++ body) fin rest := by
  have hSome : ∃ last ∈ ts, closes last = true := by
    cases hLast : (before ++ ts).getLast? with
    | none =>
        rw [hLast] at hEnds
        cases hEnds
    | some last =>
        rw [hLast] at hEnds
        refine ⟨last, ?_, hEnds⟩
        refine (List.mem_append.mp
          (List.mem_of_getLast? hLast)).resolve_left
          fun hMember => ?_
        exact Bool.eq_false_iff.mp (hBefore last hMember) hEnds
  obtain ⟨fin, hFind⟩ :=
    Option.isSome_iff_exists.mp
      (List.find?_isSome.mpr hSome)
  obtain ⟨hFin, body, rest, rfl, hBody⟩ :=
    List.find?_eq_some_iff_append.mp hFind
  refine ⟨body, fin, rest, rfl, ⟨?_, hFin, ?_⟩⟩
  · intro t hMember
    rcases List.mem_append.mp hMember with hMember | hMember
    · exact hBefore t hMember
    · exact Bool.not_eq_true' _ ▸ hBody t hMember
  · rwa [List.append_assoc]

namespace Bounded

/- What is bounded is read up to the token that closes it. -/
theorem read_eq
    (hBounded : Bounded body fin rest) :
    read (body ++ fin :: rest) = ofBody fin body := by
  have hOpened : ∀ t ∈ body, (!closes t) = true := by
    intro t hMember
    rw [hBounded.opened t hMember]
    rfl
  have hFind :
      (body ++ fin :: rest).find? closes = some fin :=
    List.find?_eq_some_iff_append.mpr
      ⟨hBounded.closed, body, rest, rfl, hOpened⟩
  have hBody :
      (body ++ fin :: rest).takeWhile (fun t => !closes t) =
        body := by
    rw [List.takeWhile_append_of_pos hOpened,
      List.takeWhile_cons_of_neg
        (by simp [hBounded.closed]), List.append_nil]
  rw [read, hFind, hBody]
  exact if_pos hBounded.ends

/- A text fails as the steps through its body do. -/
theorem ofTokens_eq_error_iff
    {e : ScoreError}
    (hBounded : Bounded body fin rest) :
    Score.ofTokens (body ++ fin :: rest) = .error e ↔
      Reading.lead.error? fin body = some e := by
  rw [Score.ofTokens, hBounded.read_eq, ofBody_error?]
  cases ofBody fin body <;> simp

/-
  A text is a score if the steps through
  its body do not fail.
-/
theorem exists_ofTokens_iff
    (hBounded : Bounded body fin rest) :
    (∃ s, Score.ofTokens (body ++ fin :: rest) = .ok s) ↔
      Reading.lead.error? fin body = none := by
  rw [Score.ofTokens, hBounded.read_eq, ofBody_error?]
  cases ofBody fin body <;> simp

end Bounded

end Manuscript

------------------------------------------------------------
-- The first token that fails
------------------------------------------------------------

namespace Score

variable {fin found : Token}
variable {ts us before tail : List Token}
variable {what : Expected}
variable {r next : Reading}

open Manuscript (closes Bounded exists_bounded)

/-
  A text in which something is missing ends
  with a closing token.
-/
theorem ends_of_missing
    (hError : ofTokens ts = .error (.missing what found)) :
    ts.getLast?.any closes = true := by
  unfold ofTokens Manuscript.read at hError
  cases hFind : ts.find? closes with
  | none =>
      simp only [hFind] at hError
      cases hError
  | some fin =>
      simp only [hFind] at hError
      by_cases hEnds : ts.getLast?.any closes = true
      · exact hEnds
      · rw [if_neg hEnds] at hError
        cases hError

/- A step that fails ends every text alike. -/
theorem missing_of_step
    (hOpened : ∀ t ∈ before ++ [found], closes t = false)
    (hAfter : Reading.lead.after before = .ok r)
    (hStep : r.step found = .error (.missing what found))
    (hEnds :
      (before ++ found :: us).getLast?.any closes = true) :
    ofTokens (before ++ found :: us) =
      .error (.missing what found) := by
  rw [List.append_cons] at hEnds ⊢
  obtain ⟨body, fin, rest, rfl, hBounded⟩ :=
    exists_bounded hOpened hEnds
  rw [← List.append_assoc, hBounded.ofTokens_eq_error_iff,
    ← List.append_cons, Reading.error?_append hAfter,
    Reading.error?, hStep, ScoreError.orThen?_error]

/-
  An error for want of something divides the text: behind the
  tokens before the error, that is due; and all texts that
  start with them and with the token of the error fail alike.
-/
theorem exists_before_missing
    (hError : ofTokens ts = .error (.missing what found)) :
    ∃ before behind r,
      ts = before ++ found :: behind ∧
        (∀ t ∈ before, closes t = false) ∧
        Reading.lead.after before = .ok r ∧
        r.due? = some what ∧
        ∀ us,
          (before ++ found :: us).getLast?.any closes =
              true →
            ofTokens (before ++ found :: us) =
              .error (.missing what found) := by
  have hEnds := ends_of_missing hError
  rw [← List.nil_append ts] at hEnds
  obtain ⟨body, fin, rest, rfl, hBounded⟩ :=
    exists_bounded (List.forall_mem_nil _) hEnds
  rw [List.nil_append] at hBounded
  rw [hBounded.ofTokens_eq_error_iff] at hError
  obtain
      ⟨before, r, hAfter, hDue,
        ⟨rfl, rfl⟩ | ⟨behind, rfl, hStep⟩⟩ :=
    Reading.exists_after_of_missing hError
  · refine ⟨before, rest, r, rfl, hBounded.opened, hAfter,
      hDue, fun us hEnds => ?_⟩
    have hAlike : Bounded before found us :=
      ⟨hBounded.opened, hBounded.closed, hEnds⟩
    rw [hAlike.ofTokens_eq_error_iff]
    exact hError
  · have hOpened :
        ∀ t ∈ before ++ [found], closes t = false := by
      intro t hMember
      refine hBounded.opened t ?_
      rw [List.append_cons]
      exact List.mem_append_left _ hMember
    refine ⟨before, behind ++ fin :: rest, r, ?_, ?_,
      hAfter, hDue, fun us hEnds => ?_⟩
    · rw [List.append_assoc, List.cons_append]
    · exact fun t hMember =>
        hOpened t (List.mem_append_left _ hMember)
    · exact missing_of_step hOpened hAfter hStep hEnds

/-
  The tokens before an error with a completion: what is due
  behind them is due in a text of them.
-/
theorem error?_of_completion
    (hAfter : Reading.lead.after before = .ok r)
    (hTail : r.after tail = .ok next) :
    Reading.lead.error? fin (before ++ tail) =
      next.due?.map (.missing · fin) := by
  rw [Reading.error?_append hAfter, ← List.append_nil tail,
    Reading.error?_append hTail, Reading.error?]

/-
  Tokens before an error, what completes them and a token
  that closes are bounded.
-/
theorem bounded_completion
    (hOpened : ∀ t ∈ before, closes t = false)
    (hCompletes : Completes what tail)
    (hFin : fin.kind = .endOfText) :
    Bounded (before ++ tail) fin [] := by
  have hCloses : closes fin = true := decide_eq_true hFin
  refine ⟨fun t hMember => ?_, hCloses, ?_⟩
  · rcases List.mem_append.mp hMember with hMember | hMember
    · exact hOpened t hMember
    · exact hCompletes.opened t hMember
  · rw [List.getLast?_concat, Option.any_some]
    exact hCloses

/-
  If something is missing in a text, it is missing before one
  of its tokens.  Every text that has this token, and the same
  tokens before it, fails alike; and the tokens before it are
  a score if a completion follows them.  The exception is a
  parenthesis behind shifts that cancel in a chord, which does
  not complete it.
-/
theorem errors_at_earliest_token
    (hError : ofTokens ts = .error (.missing what found)) :
    ∃ i,
      ts[i]? = some found ∧
        (∀ us,
          us.getLast?.any closes = true →
            us.take (i + 1) = ts.take (i + 1) →
            ofTokens us = .error (.missing what found)) ∧
        ∀ tail fin,
          Completes what tail → fin.kind = .endOfText →
            if what = .closingParenthesis ∧
                (ts.take i).getLast?.any Token.isShift then
              ofTokens (ts.take i ++ tail ++ [fin]) =
                .error (.missing .closingParenthesis fin)
            else
              ∃ s,
                ofTokens (ts.take i ++ tail ++ [fin]) =
                  .ok s := by
  obtain
      ⟨before, behind, r, rfl, hOpened, hAfter, hDue,
        hAlike⟩ :=
    exists_before_missing hError
  have hBefore :
      (before ++ found :: behind).take before.length =
        before :=
    List.take_left
  refine
    ⟨before.length, by simp, fun us hEnds hShared => ?_,
      fun tail fin hCompletes hFin => ?_⟩
  · have hStart :
        (before ++ found :: behind).take
            (before.length + 1) =
          before ++ [found] := by
      rw [List.append_cons]
      exact List.take_left' (by simp)
    rw [hStart] at hShared
    have hSplit := List.take_append_drop (before.length + 1) us
    rw [hShared, ← List.append_cons] at hSplit
    rw [← hSplit] at hEnds ⊢
    exact hAlike _ hEnds
  · rw [hBefore]
    have hBounded := bounded_completion hOpened hCompletes hFin
    by_cases hSwallowed :
        what = .closingParenthesis ∧
          before.getLast?.any Token.isShift = true
    · rw [if_pos hSwallowed]
      obtain ⟨rfl, hShift⟩ := hSwallowed
      rw [(Reading.run_iff_isShift hAfter hDue).mpr
        hShift] at hAfter
      rw [hBounded.ofTokens_eq_error_iff,
        error?_of_completion hAfter
          (Reading.after_swallowed hCompletes)]
      rfl
    · rw [if_neg hSwallowed]
      have hRun : r ≠ .run true 0 := by
        rintro rfl
        cases hDue
        exact hSwallowed
          ⟨rfl, (Reading.run_iff_isShift hAfter rfl).mp rfl⟩
      obtain ⟨next, hTail, hDone⟩ :=
        Reading.after_completion hDue hCompletes hRun
      rw [hBounded.exists_ofTokens_iff,
        error?_of_completion hAfter hTail, hDone]
      rfl

end Score

/- A text whose key has a sign, but no number. -/
def halfKey : String :=
  "T\n\nla|\n[K#]c|\n"

/-
  A sharp and a bracket complete the
  tokens before its error.
-/
theorem halfKey_fails_at_bracket :
    Score.ofTokens (tokenize halfKey) =
        .error
          (.missing (.number .key)
            ⟨.closeBracket, "]", 4, 4, 5⟩) ∧
      ∃ i,
        (tokenize halfKey)[i]? =
            some ⟨.closeBracket, "]", 4, 4, 5⟩ ∧
          (∀ us,
            us.getLast?.any Manuscript.closes = true →
              us.take (i + 1) =
                (tokenize halfKey).take (i + 1) →
              Score.ofTokens us =
                .error
                  (.missing (.number .key)
                    ⟨.closeBracket, "]", 4, 4, 5⟩)) ∧
          ∃ s,
            Score.ofTokens
                ((tokenize halfKey).take i ++
                  [⟨.number, "1", 4, 4, 5⟩,
                    ⟨.closeBracket, "]", 4, 5, 6⟩] ++
                  [⟨.endOfText, "", 4, 6, 6⟩]) =
              .ok s := by
  have hError :
      Score.ofTokens (tokenize halfKey) =
        .error
          (.missing (.number .key)
            ⟨.closeBracket, "]", 4, 4, 5⟩) := by
    have hRead :
        Manuscript.read (tokenize halfKey) =
          .error
            ⟨.missing (.number .key)
                ⟨.closeBracket, "]", 4, 4, 5⟩, []⟩ := by
      decide +kernel
    rw [Score.ofTokens, hRead]
  have hCompletes :
      Completes (.number .key)
        [⟨.number, "1", 4, 4, 5⟩,
          ⟨.closeBracket, "]", 4, 5, 6⟩] :=
    .number .key rfl (by decide)
      (List.all_eq_true.mp (by decide)) (by decide) rfl
  obtain ⟨i, hFound, hAlike, hCompleted⟩ :=
    Score.errors_at_earliest_token hError
  have hScore :=
    hCompleted _ ⟨.endOfText, "", 4, 6, 6⟩ hCompletes rfl
  rw [if_neg fun hSwallowed => nomatch hSwallowed.1] at hScore
  exact ⟨hError, i, hFound, hAlike, hScore⟩

/-
  The exception: a parenthesis behind shifts that cancel
  does not end the chord.
-/
example :
    (Score.parse "T\n\nla|\n(c^/)").map Score.title =
      .error
        (.missing .closingParenthesis
          ⟨.endOfText, "", 4, 6, 6⟩) := by
  decide +kernel

end LyricScore
