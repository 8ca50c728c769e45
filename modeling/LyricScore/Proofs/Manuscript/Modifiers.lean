import Mathlib.Data.List.TakeWhile
import LyricScore.Proofs.Manuscript.Step
import LyricScore.Proofs.Outcome
import LyricScore.Proofs.Token.Step

/-
  This file tells what becomes of modifiers: the shifts and
  the accidental that stand before the letters of a run.
  Modifiers without letters are an error at the token behind
  them, with one exception: shifts up and down that cancel are
  passed over, and so is the token behind them, whatever it is.

  Key definitions include:
    * `modifiers`, `behindModifiers`
    * `StartsWithNote`
    * `Cancels`

  Key theorems include:
    * `modifiers_append`
    * `readRun_of_note`
    * `readRun_cases`
    * `readRun_eq_ok`
-/

namespace LyricScore

------------------------------------------------------------
-- Modifiers
------------------------------------------------------------

/-
  The modifiers at the head of some tokens: shifts, and
  perhaps an accidental.
-/
def modifiers
    (ts : List Token) : List Token :=
  ts.takeWhile Token.isShift ++
    ((ts.dropWhile Token.isShift).takeWhile fun t =>
      t.kind = .accidental).take 1

/- The tokens behind the modifiers. -/
def behindModifiers
    (ts : List Token) : List Token :=
  (takeAccidental (ts.dropWhile Token.isShift)).2

/- The first token is an identifier of note letters. -/
def StartsWithNote
    (ts : List Token) : Prop :=
  ∃ t ∈ ts.head?, ∃ l ls, t.letters? = some (l :: ls)

/-
  Modifiers that come to nothing: shifts
  alone, as many up as down.
-/
structure Cancels
    (ms : List Token) : Prop where
  some_shift : ms ≠ []
  only_shifts : ∀ t ∈ ms, t.isShift = true
  no_octave : totalShift ms = 0

instance
    (ts : List Token) :
    Decidable (StartsWithNote ts) :=
  match ts with
  | [] => isFalse fun ⟨_, hHead, _⟩ => nomatch hHead
  | t :: _ =>
    match hText : t.letters? with
    | some (l :: ls) => isTrue ⟨t, rfl, l, ls, hText⟩
    | some [] =>
        isFalse fun ⟨_, hHead, _, _, hLetters⟩ => by
          cases hHead
          cases hText.symm.trans hLetters
    | none =>
        isFalse fun ⟨_, hHead, _, _, hLetters⟩ => by
          cases hHead
          cases hText.symm.trans hLetters

instance
    (ms : List Token) :
    Decidable (Cancels ms) :=
  decidable_of_iff
    (ms ≠ [] ∧
      (∀ t ∈ ms, t.isShift = true) ∧
      totalShift ms = 0)
    ⟨fun h => ⟨h.1, h.2.1, h.2.2⟩,
      fun h => ⟨h.some_shift, h.only_shifts, h.no_octave⟩⟩

/-
  At most one accidental is taken, and the tokens are not
  changed by that.
-/
theorem takeAccidental_append
    (ts : List Token) :
    (ts.takeWhile fun t => t.kind = .accidental).take 1 ++
        (takeAccidental ts).2 =
      ts := by
  cases ts with
  | nil =>
      rfl
  | cons t rest =>
      by_cases hKind : t.kind = .accidental <;>
        simp [takeAccidental, hKind]

/-
  Nothing is lost: modifiers and what stands
  behind them are the tokens.
-/
theorem modifiers_append
    (ts : List Token) :
    modifiers ts ++ behindModifiers ts = ts := by
  rw [modifiers, behindModifiers, List.append_assoc,
    takeAccidental_append, List.takeWhile_append_dropWhile]

/- An accidental was taken if it is among the modifiers. -/
theorem takeAccidental_eq_none_iff
    (ts : List Token) :
    (takeAccidental ts).1 = none ↔
      (ts.takeWhile fun t => t.kind = .accidental).take 1 =
        [] := by
  cases ts with
  | nil =>
      simp [takeAccidental]
  | cons t rest =>
      by_cases hKind : t.kind = .accidental <;>
        simp [takeAccidental, hKind]

/- A token with a text is no name without letters. -/
theorem Token.letters?_ne_nil
    {t : Token}
    (hText : t.HasText) :
    t.letters? ≠ some [] := by
  unfold letters?
  by_cases hKind : t.kind = .identifier
  · rw [if_pos hKind]
    intro hLetters
    have hChars : t.text.toList = [] := by
      cases hList : t.text.toList with
      | nil =>
          rfl
      | cons c cs =>
          rw [hList, List.mapM_cons] at hLetters
          simp only [Option.bind_eq_bind,
            Option.bind_eq_some_iff] at hLetters
          rcases hLetters with ⟨l, -, ls, -, hCons⟩
          cases hCons
    exact hText hKind (String.toList_eq_nil_iff.mp hChars)
  · rw [if_neg hKind]
    nofun

/-
  A token that modifies nothing has no
  modifiers at its head.
-/
theorem modifiers_of_plain
    {t : Token}
    {rest : List Token}
    (hShift : t.isShift = false)
    (hKind : t.kind ≠ .accidental) :
    modifiers (t :: rest) = [] := by
  simp [modifiers, hShift, hKind]

/- Shifts are passed over with the other modifiers. -/
theorem behindModifiers_of_shifts
    {shifts : List Token}
    (rest : List Token)
    (hShifts : ∀ t ∈ shifts, t.isShift = true) :
    behindModifiers (shifts ++ rest) =
      behindModifiers rest := by
  rw [behindModifiers, behindModifiers,
    List.dropWhile_append_of_pos hShifts]

/- An accidental is neither a shift nor a name. -/
theorem Token.not_isShift_of_accidental
    {t : Token}
    (hKind : t.kind = .accidental) :
    t.isShift = false := by
  simp [isShift, hKind]

------------------------------------------------------------
-- Runs
------------------------------------------------------------

section Runs

variable {fin : Token}
variable {ts : List Token}

/-
  Letters behind the modifiers are read, and
  the modifiers with them.
-/
theorem readRun_of_note
    {name : Token}
    {rest : List Token}
    {l : Letter}
    {ls : List Letter}
    (hBehind : behindModifiers ts = name :: rest)
    (hLetters : name.letters? = some (l :: ls)) :
    readRun fin ts =
      .ok
        (⟨l,
              (takeAccidental
                (ts.dropWhile Token.isShift)).1,
              totalShift (ts.takeWhile Token.isShift),
              (ts.headD fin).location⟩ ::
            followers name.line (name.column + 1) ls,
          rest) := by
  unfold behindModifiers at hBehind
  simp only [readRun, takeShifts, hBehind, hLetters]

/- Without letters no pitch is read. -/
theorem readRun_of_no_note
    (hText : ∀ t ∈ ts, t.HasText)
    (hNote : ¬ StartsWithNote (behindModifiers ts)) :
    readRun fin ts =
      readRun.missing fin
        (totalShift (ts.takeWhile Token.isShift))
        (takeAccidental (ts.dropWhile Token.isShift)).1
        (behindModifiers ts) := by
  have hBehind :
      (takeAccidental (ts.dropWhile Token.isShift)).2 =
        behindModifiers ts :=
    rfl
  simp only [readRun, takeShifts, hBehind]
  cases hList : behindModifiers ts with
  | nil =>
      rfl
  | cons name rest =>
      have hMember : name ∈ ts := by
        rw [← modifiers_append ts, hList]
        simp
      have hName := Token.letters?_ne_nil (hText name hMember)
      cases hLetters : name.letters? with
      | none =>
          simp only [hLetters]
      | some letters =>
          cases letters with
          | nil =>
              exact absurd hLetters hName
          | cons l ls =>
              refine absurd ⟨name, ?_, l, ls, hLetters⟩ hNote
              rw [hList]
              rfl

/-
  Modifiers cancel if they are shifts without an accidental
  and leave no octave.
-/
theorem cancels_modifiers_iff
    (hModifiers : modifiers ts ≠ []) :
    Cancels (modifiers ts) ↔
      totalShift (ts.takeWhile Token.isShift) = 0 ∧
        (takeAccidental (ts.dropWhile Token.isShift)).1 =
          none := by
  rw [takeAccidental_eq_none_iff]
  constructor
  · intro hCancels
    have hNone :
        ((ts.dropWhile Token.isShift).takeWhile fun t =>
            t.kind = .accidental).take 1 =
          [] := by
      rw [List.eq_nil_iff_forall_not_mem]
      intro t hMember
      have hKind : t.kind = .accidental := by
        simpa using
          List.mem_takeWhile_imp
            (List.mem_of_mem_take hMember)
      have hShift :=
        hCancels.only_shifts t
          (List.mem_append_right _ hMember)
      rw [Token.not_isShift_of_accidental hKind] at hShift
      cases hShift
    have hTotal := hCancels.no_octave
    rw [modifiers, hNone, List.append_nil] at hTotal
    exact ⟨hTotal, hNone⟩
  · rintro ⟨hTotal, hNone⟩
    have hShifts :
        modifiers ts = ts.takeWhile Token.isShift := by
      rw [modifiers, hNone, List.append_nil]
    refine ⟨hModifiers, ?_, ?_⟩
    · intro t hMember
      rw [hShifts] at hMember
      exact List.mem_takeWhile_imp hMember
    · rw [hShifts]
      exact hTotal

/-
  Modifiers that are not there, or
  cancel, hold no accidental.
-/
theorem takeAccidental_eq_none_of_nothing
    (hNothing : modifiers ts = [] ∨ Cancels (modifiers ts)) :
    (takeAccidental (ts.dropWhile Token.isShift)).1 = none := by
  rcases hNothing with hEmpty | hCancels
  · exact (takeAccidental_eq_none_iff _).mpr
      (List.append_eq_nil_iff.mp hEmpty).2
  · exact ((cancels_modifiers_iff hCancels.some_shift).mp
      hCancels).2

/- They shift a pitch by no octave. -/
theorem totalShift_of_nothing
    (hNothing : modifiers ts = [] ∨ Cancels (modifiers ts)) :
    totalShift (ts.takeWhile Token.isShift) = 0 := by
  rcases hNothing with hEmpty | hCancels
  · rw [(List.append_eq_nil_iff.mp hEmpty).1]
    rfl
  · exact ((cancels_modifiers_iff hCancels.some_shift).mp
      hCancels).1

/- Behind them stands a token that modifies nothing. -/
theorem behindModifiers_of_nothing
    (hNothing : modifiers ts = [] ∨ Cancels (modifiers ts)) :
    behindModifiers ts = ts.dropWhile Token.isShift ∧
      ∀ t ∈ (behindModifiers ts).head?,
        t.isShift = false ∧ t.kind ≠ .accidental := by
  have hNone := takeAccidental_eq_none_of_nothing hNothing
  have hHead := List.head?_dropWhile_not Token.isShift ts
  unfold behindModifiers
  cases hList : ts.dropWhile Token.isShift with
  | nil =>
      exact ⟨rfl, nofun⟩
  | cons t rest =>
      rw [hList] at hNone hHead
      have hKind : t.kind ≠ .accidental := by
        intro hKind
        rw [takeAccidental, if_pos hKind] at hNone
        cases hNone
      rw [takeAccidental, if_neg hKind]
      refine ⟨rfl, fun u hu => ?_⟩
      cases hu
      exact ⟨by simpa using hHead, hKind⟩

/-
  What reading a run comes to, for any tokens: pitches,
  if letters stand behind the modifiers.  Otherwise
  nothing is taken where no modifiers are; modifiers
  that cancel are passed over; and all others are an
  error at the token behind them.
-/
theorem readRun_cases
    (fin : Token)
    (hText : ∀ t ∈ ts, t.HasText) :
    (StartsWithNote (behindModifiers ts) ∧
        ∃ p ps,
          readRun fin ts =
            .ok (p :: ps, (behindModifiers ts).tail)) ∨
      ¬ StartsWithNote (behindModifiers ts) ∧
        (modifiers ts = [] ∧ readRun fin ts = .ok ([], ts) ∨
          Cancels (modifiers ts) ∧
            readRun fin ts = .ok ([], behindModifiers ts) ∨
          modifiers ts ≠ [] ∧
            ¬ Cancels (modifiers ts) ∧
            readRun fin ts =
              .error
                (.missing .note
                  ((behindModifiers ts).headD fin))) := by
  by_cases hNote : StartsWithNote (behindModifiers ts)
  · left
    refine ⟨hNote, ?_⟩
    rcases hNote with ⟨name, hHead, l, ls, hLetters⟩
    cases hBehind : behindModifiers ts with
    | nil =>
        rw [hBehind] at hHead
        cases hHead
    | cons first rest =>
        rw [hBehind] at hHead
        cases hHead
        exact ⟨_, _, readRun_of_note hBehind hLetters⟩
  · right
    refine ⟨hNote, ?_⟩
    rw [readRun_of_no_note hText hNote, readRun.missing]
    by_cases hModifiers : modifiers ts = []
    · left
      have hParts := List.append_eq_nil_iff.mp hModifiers
      have hNothing :
          totalShift (ts.takeWhile Token.isShift) = 0 ∧
            (takeAccidental
                (ts.dropWhile Token.isShift)).1 =
              none := by
        rw [hParts.1, takeAccidental_eq_none_iff]
        exact ⟨rfl, hParts.2⟩
      have hBehind : behindModifiers ts = ts := by
        have hAll := modifiers_append ts
        rwa [hModifiers, List.nil_append] at hAll
      rw [if_pos hNothing, hBehind]
      exact ⟨hModifiers, rfl⟩
    · right
      have hIff := cancels_modifiers_iff hModifiers
      by_cases hCancels : Cancels (modifiers ts)
      · left
        rw [if_pos (hIff.mp hCancels)]
        exact ⟨hCancels, rfl⟩
      · right
        rw [if_neg (hIff.not.mp hCancels)]
        exact ⟨hModifiers, hCancels, rfl⟩

/-
  Nothing is read without letters unless the
  modifiers come to nothing.
-/
theorem readRun.missing_eq_ok
    {ps : List Pitch}
    {rest : List Token}
    (hMissing :
      missing fin (totalShift (ts.takeWhile Token.isShift))
          (takeAccidental (ts.dropWhile Token.isShift)).1
          (behindModifiers ts) =
        .ok (ps, rest)) :
    ps = [] ∧
      rest = behindModifiers ts ∧
      (modifiers ts = [] ∨ Cancels (modifiers ts)) := by
  unfold missing at hMissing
  by_cases hNothing :
      totalShift (ts.takeWhile Token.isShift) = 0 ∧
        (takeAccidental (ts.dropWhile Token.isShift)).1 =
          none
  · rw [if_pos hNothing] at hMissing
    cases hMissing
    refine ⟨rfl, rfl, ?_⟩
    by_cases hModifiers : modifiers ts = []
    · exact .inl hModifiers
    · exact .inr
        ((cancels_modifiers_iff hModifiers).mpr hNothing)
  · rw [if_neg hNothing] at hMissing
    cases hMissing

/-
  What was read where a run may start: the letters
  behind the modifiers, or nothing, and then there are
  no modifiers or they cancel.
-/
theorem readRun_eq_ok
    {rest : List Token}
    {ps : List Pitch}
    (hRun : readRun fin ts = .ok (ps, rest)) :
    (∃ name l ls,
        behindModifiers ts = name :: rest ∧
          name.letters? = some (l :: ls) ∧
          ps =
            ⟨l,
                (takeAccidental
                  (ts.dropWhile Token.isShift)).1,
                totalShift (ts.takeWhile Token.isShift),
                (ts.headD fin).location⟩ ::
              followers name.line (name.column + 1) ls) ∨
      ps = [] ∧
        rest = behindModifiers ts ∧
        ¬ StartsWithNote rest ∧
        (modifiers ts = [] ∨ Cancels (modifiers ts)) := by
  have hBehind :
      (takeAccidental (ts.dropWhile Token.isShift)).2 =
        behindModifiers ts :=
    rfl
  simp only [readRun, takeShifts, hBehind] at hRun
  cases hName : behindModifiers ts with
  | nil =>
      simp only [hName] at hRun
      rw [← hName] at hRun
      rcases readRun.missing_eq_ok hRun with
        ⟨rfl, hRest, hNothing⟩
      rw [hName] at hRest
      subst hRest
      refine .inr ⟨rfl, rfl, ?_, hNothing⟩
      rintro ⟨_, ⟨⟩, _⟩
  | cons name after =>
      simp only [hName] at hRun
      cases hLetters : name.letters? with
      | none =>
          simp only [hLetters] at hRun
          rw [← hName] at hRun
          rcases readRun.missing_eq_ok hRun with
            ⟨rfl, hRest, hNothing⟩
          rw [hName] at hRest
          subst hRest
          refine .inr ⟨rfl, rfl, ?_, hNothing⟩
          rintro ⟨t, hHead, l, ls, hNote⟩
          cases hHead
          cases hLetters.symm.trans hNote
      | some letters =>
          simp only [hLetters] at hRun
          cases letters with
          | nil =>
              cases hRun
          | cons l ls =>
              cases hRun
              exact .inl ⟨name, l, ls, rfl, hLetters, rfl⟩

end Runs

end LyricScore
