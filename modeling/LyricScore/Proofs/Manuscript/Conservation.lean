import Mathlib.Algebra.Ring.Int.Defs
import LyricScore.Proofs.Manuscript.Modifiers
import LyricScore.Proofs.Manuscript.Section

/-
  This file compares a pitch section with the units that are
  read from it.  Barlines, chords, letters, shifts and
  accidentals of the section are those of the units, and every
  modifier is followed by a letter, unless modifiers that
  cancel stand before something else.

  Key definitions include:
    * `PitchMark`
    * `PitchPlace.marks`, `PitchPlace.octaves`
    * `PitchPlace.Followed`, `PitchPlace.Dangles`
    * `PitchPlace.Swallows`
    * `Writes`, `Spans`
    * `Stanza.WrittenAs`

  Key theorems include:
    * `Spans.trans`
    * `spans_run`, `spans_silence`
    * `readPitchUnit_spans`
    * `readPitchLines_writes`
    * `readStanzas_writes`
    * `Manuscript.read_writes`
-/

namespace LyricScore

------------------------------------------------------------
-- What places say
------------------------------------------------------------

/-
  What a pitch section says, besides
  modifiers and directives.
-/
inductive PitchMark where
  | barline
  | opening
  | closing
  | letter (l : Letter)
deriving DecidableEq, Repr

/- The letters of an identifier, as marks. -/
def Token.letterMarks
    (t : Token) : List PitchMark :=
  (t.letters?.getD []).map .letter

namespace PitchPlace

/-
  What a place says.  Brackets hold directives, and
  parentheses hold letters.
-/
def marks
    (p : PitchPlace) : List PitchMark :=
  match p.nesting with
  | .line =>
      if p.token.kind = .barline then [.barline]
      else if p.token.kind = .openParenthesis then
        [.opening]
      else p.token.letterMarks
  | .group => []
  | .chord =>
      if p.token.kind = .closeParenthesis then [.closing]
      else p.token.letterMarks

/-
  A place of a shift or an accidental that
  may belong to a pitch.
-/
def IsOfKind
    (kind : TokenKind)
    (p : PitchPlace) : Prop :=
  p.nesting ≠ .group ∧ p.token.kind = kind

instance
    (kind : TokenKind) :
    DecidablePred (IsOfKind kind) := by
  intro p
  unfold IsOfKind
  infer_instance

/- By how many octaves a place moves a pitch. -/
def octaves
    (p : PitchPlace) : Int :=
  if p.nesting = .group then 0
  else if p.token.isShift then p.token.octaves
  else 0

/-
  If modifiers start at a place, a
  letter stands behind them.
-/
def Followed
    (p : PitchPlace) : Prop :=
  p.nesting ≠ .group →
    modifiers p.onward ≠ [] →
    StartsWithNote (behindModifiers p.onward)

/-
  Modifiers that cancel start at a place, and no letter
  stands behind them.
-/
def Dangles
    (p : PitchPlace) : Prop :=
  p.nesting ≠ .group ∧
    Cancels (modifiers p.onward) ∧
    ¬ StartsWithNote (behindModifiers p.onward)

end PitchPlace

/-
  A token that has a meaning at its place, besides letters
  and modifiers.
-/
def Nesting.Minds
    (n : Nesting)
    (t : Token) : Prop :=
  match n with
  | line =>
      t.kind = .newline ∨
        t.kind = .barline ∨
        t.kind = .openBracket ∨
        t.kind = .openParenthesis
  | group => False
  | chord => t.kind = .closeParenthesis

/-
  Modifiers that cancel start at a place, and a token with a
  meaning is behind them.
-/
def PitchPlace.Swallows
    (p : PitchPlace) : Prop :=
  Cancels (modifiers p.onward) ∧
    ∃ t ∈ (behindModifiers p.onward).head?,
      p.nesting.Minds t

instance
    (n : Nesting)
    (t : Token) :
    Decidable (n.Minds t) := by
  unfold Nesting.Minds
  cases n <;> infer_instance

instance
    (p : PitchPlace) :
    Decidable p.Swallows := by
  unfold PitchPlace.Swallows
  infer_instance

instance
    (p : PitchPlace) :
    Decidable p.Dangles := by
  unfold PitchPlace.Dangles
  infer_instance

------------------------------------------------------------
-- What lists of places say
------------------------------------------------------------

/-
  Some places say these marks, and shift and alter pitches so
  often; and their modifiers are followed by letters, unless
  some of them dangle.
-/
structure Writes
    (ps : List PitchPlace)
    (marks : List PitchMark)
    (octaves : Int)
    (accidentals : Nat) : Prop where
  marks_eq : ps.flatMap PitchPlace.marks = marks
  octaves_eq : (ps.map PitchPlace.octaves).sum = octaves
  accidentals_eq :
    ps.countP (PitchPlace.IsOfKind .accidental) =
      accidentals
  followed : (∃ p ∈ ps, p.Dangles) ∨ ∀ p ∈ ps, p.Followed

namespace Writes

variable {ps qs : List PitchPlace}
variable {ms ns : List PitchMark}
variable {i j : Int}
variable {a b : Nat}

theorem nil :
    Writes [] [] 0 0 :=
  ⟨rfl, rfl, rfl, .inr nofun⟩

theorem append
    (hFirst : Writes ps ms i a)
    (hThen : Writes qs ns j b) :
    Writes (ps ++ qs) (ms ++ ns) (i + j) (a + b) where
  marks_eq := by
    rw [List.flatMap_append, hFirst.marks_eq, hThen.marks_eq]
  octaves_eq := by
    rw [List.map_append, List.sum_append, hFirst.octaves_eq,
      hThen.octaves_eq]
  accidentals_eq := by
    rw [List.countP_append, hFirst.accidentals_eq,
      hThen.accidentals_eq]
  followed := by
    rcases hFirst.followed with ⟨p, hp, hDangles⟩ | hFirst
    · exact .inl ⟨p, List.mem_append_left _ hp, hDangles⟩
    · rcases hThen.followed with ⟨p, hp, hDangles⟩ | hThen
      · exact .inl ⟨p, List.mem_append_right _ hp, hDangles⟩
      · exact .inr (List.forall_mem_append.mpr ⟨hFirst, hThen⟩)

end Writes

/-
  From some tokens to later ones the places of a section say
  these marks, and shift and alter pitches so often.
-/
def Spans
    (n : Nesting)
    (ts : List Token)
    (m : Nesting)
    (rest : List Token)
    (marks : List PitchMark)
    (octaves : Int)
    (accidentals : Nat) : Prop :=
  ∃ ps,
    takePitches n ts =
        (ps ++ (takePitches m rest).1,
          (takePitches m rest).2) ∧
      Writes ps marks octaves accidentals

/-
  No place of a section swallows a token that has a meaning.
-/
def Keeps
    (n : Nesting)
    (ts : List Token) : Prop :=
  ∀ p ∈ (takePitches n ts).1, ¬ p.Swallows

namespace Spans

variable {n m l : Nesting}
variable {ts us rest : List Token}
variable {ms ns : List PitchMark}
variable {i j : Int}
variable {a b : Nat}

theorem refl
    (n : Nesting)
    (ts : List Token) :
    Spans n ts n ts [] 0 0 :=
  ⟨[], rfl, .nil⟩

theorem trans
    (hFirst : Spans n ts m us ms i a)
    (hThen : Spans m us l rest ns j b) :
    Spans n ts l rest (ms ++ ns) (i + j) (a + b) := by
  rcases hFirst with ⟨ps, hTake, hFirst⟩
  rcases hThen with ⟨qs, hMore, hThen⟩
  refine ⟨ps ++ qs, ?_, hFirst.append hThen⟩
  rw [hTake, hMore, List.append_assoc]

/- What is kept in a section is kept in its rest. -/
theorem keeps
    (hSpans : Spans n ts m rest ms i a)
    (hKeeps : Keeps n ts) :
    Keeps m rest := by
  rcases hSpans with ⟨ps, hTake, -⟩
  intro p hp
  refine hKeeps p ?_
  rw [hTake]
  exact List.mem_append_right ps hp

/- A section says what its parts say. -/
theorem writes
    (hSpans : Spans n ts m rest ms i a)
    (hRest : Writes (takePitches m rest).1 ns j b) :
    (takePitches n ts).2 = (takePitches m rest).2 ∧
      Writes (takePitches n ts).1 (ms ++ ns) (i + j)
        (a + b) := by
  rcases hSpans with ⟨ps, hTake, hFirst⟩
  rw [hTake]
  exact ⟨rfl, hFirst.append hRest⟩

/- A single token that does not end the section. -/
theorem step
    {t : Token}
    (hEnd : ¬ n.EndsAt t rest)
    (hPlace : Writes [⟨n, t, rest⟩] ms i a) :
    Spans n (t :: rest) (n.after t) rest ms i a := by
  refine ⟨[⟨n, t, rest⟩], ?_, hPlace⟩
  rw [takePitches, if_neg hEnd]
  rfl

end Spans

------------------------------------------------------------
-- Single places
------------------------------------------------------------

section Places

variable {n : Nesting}
variable {t : Token}
variable {ts rest : List Token}

/- A token of a group says nothing. -/
theorem writes_in_group
    (t : Token)
    (rest : List Token) :
    Writes [⟨.group, t, rest⟩] [] 0 0 :=
  ⟨rfl, rfl, rfl, .inr fun p hp hGroup => by
    cases List.mem_singleton.mp hp
    exact absurd rfl hGroup⟩

/- A token that modifies nothing says its marks only. -/
theorem writes_of_plain
    (n : Nesting)
    (rest : List Token)
    (hShift : t.isShift = false)
    (hKind : t.kind ≠ .accidental) :
    Writes [⟨n, t, rest⟩] (PitchPlace.marks ⟨n, t, rest⟩) 0
      0 where
  marks_eq := by
    simp
  octaves_eq := by
    simp [PitchPlace.octaves, hShift]
  accidentals_eq := by
    simp [PitchPlace.IsOfKind, hKind]
  followed := by
    refine .inr fun p hp _ hModifiers => absurd ?_ hModifiers
    cases List.mem_singleton.mp hp
    exact modifiers_of_plain hShift hKind

/- A token that is no modifier says the marks of its kind. -/
theorem writes_of_kind
    {kind : TokenKind}
    (n : Nesting)
    (rest : List Token)
    (hKind : t.kind = kind)
    (hPlain :
      kind ≠ .caret ∧ kind ≠ .slash ∧ kind ≠ .accidental) :
    Writes [⟨n, t, rest⟩] (PitchPlace.marks ⟨n, t, rest⟩) 0 0 :=
  writes_of_plain n rest
    (by simp [Token.isShift, hKind, hPlain])
    (by simp [hKind, hPlain])

/- An accidental that a letter follows. -/
theorem writes_accidental
    (hNesting : n ≠ .group)
    (hKind : t.kind = .accidental)
    (hNote : StartsWithNote rest) :
    Writes [⟨n, t, rest⟩] [] 0 1 where
  marks_eq := by
    cases n <;>
      simp [PitchPlace.marks, Token.letterMarks,
        Token.letters?, hKind]
  octaves_eq := by
    simp [PitchPlace.octaves,
      Token.not_isShift_of_accidental hKind]
  accidentals_eq := by
    simp [PitchPlace.IsOfKind, hKind, hNesting]
  followed := by
    refine .inr fun p hp _ _ => ?_
    cases List.mem_singleton.mp hp
    simpa [behindModifiers, PitchPlace.onward,
      Token.not_isShift_of_accidental hKind, takeAccidental,
      hKind]
      using hNote

/- A shift is no token of another kind. -/
theorem Token.kind_of_isShift
    (hShift : t.isShift = true) :
    t.kind ≠ .newline ∧
      t.kind ≠ .barline ∧
      t.kind ≠ .openBracket ∧
      t.kind ≠ .openParenthesis ∧
      t.kind ≠ .closeBracket ∧
      t.kind ≠ .closeParenthesis ∧
      t.kind ≠ .accidental ∧
      t.kind ≠ .identifier := by
  unfold isShift at hShift
  cases hKind : t.kind <;> simp_all

/-
  A token without meaning says nothing, and leaves what
  stands behind it where it is.
-/
theorem spans_stray
    (hNesting : n ≠ .group)
    (hMinds : ¬ n.Minds t)
    (hShift : t.isShift = false)
    (hKind : t.kind ≠ .accidental)
    (hLetters : t.letterMarks = []) :
    Spans n (t :: rest) n rest [] 0 0 := by
  have hPlace := writes_of_plain n rest hShift hKind
  cases n with
  | line =>
      simp only [Nesting.Minds, not_or] at hMinds
      have hStep :=
        Spans.step (fun hEnd => hMinds.1 hEnd.2.1) hPlace
      simpa [Nesting.after, PitchPlace.marks, hMinds,
        hLetters]
        using hStep
  | group =>
      exact absurd rfl hNesting
  | chord =>
      simp only [Nesting.Minds] at hMinds
      have hEnd : ¬ Nesting.chord.EndsAt t rest :=
        Nesting.not_endsAt_of_ne_line (by decide)
      have hStep := Spans.step hEnd hPlace
      simpa [Nesting.after, PitchPlace.marks, hMinds,
        hLetters]
        using hStep

end Places

------------------------------------------------------------
-- Runs
------------------------------------------------------------

section Runs

variable {n : Nesting}
variable {shifts ts rest : List Token}

/-
  The places of tokens that neither open nor close anything.
-/
def flatPlaces
    (n : Nesting) : List Token → List Token → List PitchPlace
  | [], _ => []
  | t :: ts, rest => ⟨n, t, ts ++ rest⟩ :: flatPlaces n ts rest

/-
  Shifts are taken where they stand,
  before what follows them.
-/
theorem takePitches_shifts
    (n : Nesting)
    (rest : List Token)
    (hShifts : ∀ t ∈ shifts, t.isShift = true) :
    takePitches n (shifts ++ rest) =
      (flatPlaces n shifts rest ++ (takePitches n rest).1,
        (takePitches n rest).2) := by
  induction shifts with
  | nil =>
      rfl
  | cons t shifts ih =>
      rw [List.forall_mem_cons] at hShifts
      rcases Token.kind_of_isShift hShifts.1 with
        ⟨hNewline, -, hBracket, hParenthesis, hCloseBracket,
          hCloseParenthesis, -⟩
      have hAfter : n.after t = n := by
        cases n <;>
          simp [Nesting.after, hBracket, hParenthesis,
            hCloseBracket, hCloseParenthesis]
      have hEnd : ¬ n.EndsAt t (shifts ++ rest) :=
        Nesting.not_endsAt_of_kind hNewline
      rw [List.cons_append, takePitches, if_neg hEnd,
        hAfter, ih hShifts.2]
      rfl

/-
  From the place of a shift on there are shifts, and what is
  behind them all.
-/
theorem exists_shifts_onward
    {p : PitchPlace}
    (hShifts : ∀ t ∈ shifts, t.isShift = true)
    (hp : p ∈ flatPlaces n shifts rest) :
    ∃ later,
      p.onward = later ++ rest ∧
        ∀ t ∈ later, t.isShift = true := by
  induction shifts with
  | nil =>
      cases hp
  | cons t shifts ih =>
      rcases List.mem_cons.mp hp with rfl | hp
      · exact ⟨t :: shifts, rfl, hShifts⟩
      · exact ih (List.forall_mem_cons.mp hShifts).2 hp

/- Shifts say nothing but by how much they shift. -/
theorem writes_shifts
    (rest : List Token)
    (hNesting : n ≠ .group)
    (hShifts : ∀ t ∈ shifts, t.isShift = true)
    (hFollowed :
      (∃ p ∈ flatPlaces n shifts rest, p.Dangles) ∨
        ∀ p ∈ flatPlaces n shifts rest, p.Followed) :
    Writes (flatPlaces n shifts rest) [] (totalShift shifts)
      0 := by
  refine ⟨?_, ?_, ?_, hFollowed⟩
  all_goals clear hFollowed
  all_goals induction shifts with
  | nil =>
      rfl
  | cons t shifts ih =>
      rw [List.forall_mem_cons] at hShifts
      rcases Token.kind_of_isShift hShifts.1 with
        ⟨-, hBarline, -, hParenthesis, -, hClose,
          hAccidental, hName⟩
      have hMarks : t.letterMarks = [] := by
        simp [Token.letterMarks, Token.letters?, hName]
      cases n <;>
        simp_all [flatPlaces, PitchPlace.marks,
          PitchPlace.octaves, PitchPlace.IsOfKind,
          totalShift]

/- Shifts that a letter follows. -/
theorem spans_shifts
    (hNesting : n ≠ .group)
    (hShifts : ∀ t ∈ shifts, t.isShift = true)
    (hNote : StartsWithNote (behindModifiers rest)) :
    Spans n (shifts ++ rest) n rest [] (totalShift shifts)
      0 := by
  refine ⟨_, takePitches_shifts n rest hShifts,
    writes_shifts rest hNesting hShifts (.inr ?_)⟩
  intro p hp _ _
  rcases exists_shifts_onward hShifts hp with
    ⟨later, hOnward, hLater⟩
  rw [hOnward, behindModifiers_of_shifts rest hLater]
  exact hNote

/- The letters of a run. -/
theorem spans_letters
    {name : Token}
    {letters : List Letter}
    (hNesting : n ≠ .group)
    (hLetters : name.letters? = some letters) :
    Spans n (name :: rest) n rest (letters.map .letter) 0
      0 := by
  have hKind : name.kind = .identifier := by
    unfold Token.letters? at hLetters
    split at hLetters
    · assumption
    · cases hLetters
  have hMarks : name.letterMarks = letters.map .letter := by
    rw [Token.letterMarks, hLetters]
    rfl
  have hEnd : ¬ n.EndsAt name rest :=
    Nesting.not_endsAt_of_kind (by simp [hKind])
  have hStep :=
    Spans.step hEnd
      (writes_of_kind n rest hKind (by decide))
  cases n with
  | line =>
      simpa [Nesting.after, PitchPlace.marks, hKind, hMarks]
        using hStep
  | group =>
      exact absurd rfl hNesting
  | chord =>
      simpa [Nesting.after, PitchPlace.marks, hKind, hMarks]
        using hStep

/- An accidental that a letter follows. -/
theorem spans_accidental
    {t : Token}
    (hNesting : n ≠ .group)
    (hKind : t.kind = .accidental)
    (hNote : StartsWithNote rest) :
    Spans n (t :: rest) n rest [] 0 1 := by
  have hEnd : ¬ n.EndsAt t rest :=
    Nesting.not_endsAt_of_kind (by simp [hKind])
  have hStep :=
    Spans.step hEnd (writes_accidental hNesting hKind hNote)
  cases n with
  | line =>
      simpa [Nesting.after, hKind] using hStep
  | group =>
      exact absurd rfl hNesting
  | chord =>
      simpa [Nesting.after, hKind] using hStep

/- A run of letters with the modifiers before it. -/
theorem spans_run
    {name : Token}
    {l : Letter}
    {ls : List Letter}
    (hNesting : n ≠ .group)
    (hBehind : behindModifiers ts = name :: rest)
    (hLetters : name.letters? = some (l :: ls)) :
    Spans n ts n rest ((l :: ls).map .letter)
      (totalShift (ts.takeWhile Token.isShift))
      (if (takeAccidental
            (ts.dropWhile Token.isShift)).1.isSome then
          1
        else 0) := by
  have hNote : StartsWithNote (name :: rest) :=
    ⟨name, rfl, l, ls, hLetters⟩
  have hShifts :
      ∀ t ∈ ts.takeWhile Token.isShift, t.isShift = true :=
    fun t ht => List.mem_takeWhile_imp ht
  have hBehindAll :=
    behindModifiers_of_shifts (ts.dropWhile Token.isShift)
      hShifts
  rw [List.takeWhile_append_dropWhile, hBehind] at hBehindAll
  have hFirst :=
    spans_shifts hNesting hShifts (hBehindAll ▸ hNote)
  rw [List.takeWhile_append_dropWhile] at hFirst
  have hLast := @spans_letters n rest name _ hNesting hLetters
  have hAccidental :
      (takeAccidental (ts.dropWhile Token.isShift)).2 =
        name :: rest :=
    hBehind
  cases hList : ts.dropWhile Token.isShift with
  | nil =>
      rw [hList] at hAccidental
      cases hAccidental
  | cons t us =>
      rw [hList] at hAccidental hFirst
      by_cases hKind : t.kind = .accidental
      · rw [takeAccidental, if_pos hKind] at hAccidental
        cases hAccidental
        have hMiddle := spans_accidental hNesting hKind hNote
        simpa [takeAccidental, hKind] using
          hFirst.trans (hMiddle.trans hLast)
      · rw [takeAccidental, if_neg hKind] at hAccidental
        cases hAccidental
        simpa [takeAccidental, hKind] using hFirst.trans hLast

/-
  Behind modifiers that cancel no token has a meaning, or
  they would swallow it.
-/
theorem not_minds_behindModifiers
    (hHead : ∀ t ∈ ts.head?, ¬ n.Minds t)
    (hKeeps : Keeps n ts)
    (hNothing : modifiers ts = [] ∨ Cancels (modifiers ts)) :
    ∀ t ∈ (behindModifiers ts).head?, ¬ n.Minds t := by
  intro t ht hMinds
  have hAll := modifiers_append ts
  rcases hNothing with hEmpty | hCancels
  · rw [hEmpty, List.nil_append] at hAll
    rw [hAll] at ht
    exact hHead t ht hMinds
  · cases hModifiers : modifiers ts with
    | nil =>
        exact hCancels.some_shift hModifiers
    | cons u us =>
        rw [hModifiers, List.cons_append] at hAll
        have hShift : u.isShift = true :=
          hCancels.only_shifts u (by simp [hModifiers])
        have hEnd : ¬ n.EndsAt u (us ++ behindModifiers ts) :=
          fun hEnd => (Token.kind_of_isShift hShift).1 hEnd.2.1
        have hMember :
            ⟨n, u, us ++ behindModifiers ts⟩ ∈
              (takePitches n ts).1 := by
          rw [← hAll, takePitches, if_neg hEnd, hAll]
          exact List.mem_cons_self
        refine hKeeps _ hMember ⟨?_, t, ?_, hMinds⟩
        · rw [PitchPlace.onward, hAll]
          exact hCancels
        · rw [PitchPlace.onward, hAll]
          exact ht

/-
  Tokens that are passed over where no run starts: modifiers
  that cancel, if there are any, and the token behind them.
-/
theorem spans_silence
    (hNesting : n ≠ .group)
    (hHead : ∀ t ∈ ts.head?, ¬ n.Minds t)
    (hKeeps : Keeps n ts)
    (hNote : ¬ StartsWithNote (behindModifiers ts))
    (hNothing : modifiers ts = [] ∨ Cancels (modifiers ts)) :
    Spans n ts n (behindModifiers ts).tail [] 0 0 := by
  have hMinds := not_minds_behindModifiers hHead hKeeps hNothing
  rcases behindModifiers_of_nothing hNothing with
    ⟨hBehind, hPlain⟩
  have hShifts :
      ∀ t ∈ ts.takeWhile Token.isShift, t.isShift = true :=
    fun t ht => List.mem_takeWhile_imp ht
  have hAll :
      ts.takeWhile Token.isShift ++ behindModifiers ts =
        ts := by
    rw [hBehind, List.takeWhile_append_dropWhile]
  have hFollowed :
      (∃ p ∈ flatPlaces n (ts.takeWhile Token.isShift)
          (behindModifiers ts),
          p.Dangles) ∨
        ∀ p ∈ flatPlaces n (ts.takeWhile Token.isShift)
          (behindModifiers ts),
          p.Followed := by
    cases hList : ts.takeWhile Token.isShift with
    | nil =>
        exact .inr (by simp [flatPlaces])
    | cons t us =>
        rw [hList] at hAll
        refine .inl
          ⟨⟨n, t, us ++ behindModifiers ts⟩,
            List.mem_cons_self, hNesting, ?_⟩
        rw [PitchPlace.onward, ← List.cons_append, hAll]
        have hModifiers : modifiers ts ≠ [] := by
          simp [modifiers, hList]
        exact ⟨hNothing.resolve_left hModifiers, hNote⟩
  have hFirst : Spans n ts n (behindModifiers ts) [] 0 0 := by
    refine ⟨_, ?_,
      totalShift_of_nothing hNothing ▸
        writes_shifts (behindModifiers ts) hNesting hShifts
          hFollowed⟩
    rw [← takePitches_shifts n (behindModifiers ts) hShifts,
      hAll]
  cases hList : behindModifiers ts with
  | nil =>
      rw [hList] at hFirst
      exact hFirst
  | cons t rest =>
      rw [hList] at hFirst hMinds hPlain hNote
      rcases hPlain t rfl with ⟨hShift, hKind⟩
      have hLetters : t.letterMarks = [] := by
        unfold Token.letterMarks
        cases hText : t.letters? with
        | none =>
            rfl
        | some ls =>
            cases ls with
            | nil =>
                rfl
            | cons l ls =>
                exact absurd ⟨t, rfl, l, ls, hText⟩ hNote
      exact hFirst.trans
        (spans_stray hNesting (hMinds t rfl) hShift hKind
          hLetters)

end Runs

------------------------------------------------------------
-- Units
------------------------------------------------------------

/- The letters of pitches, as marks. -/
def pitchMarks
    (ps : List Pitch) : List PitchMark :=
  ps.map fun p => .letter p.letter

/- By how many octaves pitches are shifted together. -/
def totalOctaves
    (ps : List Pitch) : Int :=
  (ps.map Pitch.shift).sum

/- How many pitches have an accidental. -/
def accidentalCount
    (ps : List Pitch) : Nat :=
  ps.countP fun p => p.accidental.isSome

theorem pitchMarks_append
    (ps qs : List Pitch) :
    pitchMarks (ps ++ qs) = pitchMarks ps ++ pitchMarks qs :=
  List.map_append

theorem totalOctaves_append
    (ps qs : List Pitch) :
    totalOctaves (ps ++ qs) =
      totalOctaves ps + totalOctaves qs := by
  rw [totalOctaves, List.map_append, List.sum_append]
  rfl

theorem accidentalCount_append
    (ps qs : List Pitch) :
    accidentalCount (ps ++ qs) =
      accidentalCount ps + accidentalCount qs :=
  List.countP_append

/- The pitches of a unit. -/
def PitchUnit.pitches : PitchUnit → List Pitch
  | barline _ => []
  | group _ => []
  | chord _ entries => entries.flatMap ChordEntry.pitches
  | run ps => ps
  | stray _ => []

/- What a unit says. -/
def PitchUnit.marks : PitchUnit → List PitchMark
  | barline _ => [.barline]
  | group _ => []
  | chord _ entries =>
      .opening ::
          pitchMarks (entries.flatMap ChordEntry.pitches) ++
        [.closing]
  | run ps => pitchMarks ps
  | stray _ => []

section Units

variable {fin t : Token}
variable {n m : Nesting}
variable {ts rest : List Token}

/-
  From some tokens to later ones a section says these marks
  and has these pitches.
-/
def SpansPitches
    (n : Nesting)
    (ts : List Token)
    (m : Nesting)
    (rest : List Token)
    (marks : List PitchMark)
    (ps : List Pitch) : Prop :=
  Spans n ts m rest marks (totalOctaves ps) (accidentalCount ps)

/-
  Pitches on the way to a place come before those behind it.
-/
theorem SpansPitches.trans
    {l : Nesting}
    {us : List Token}
    {ms ns : List PitchMark}
    {ps qs : List Pitch}
    (hFirst : SpansPitches n ts m us ms ps)
    (hThen : SpansPitches m us l rest ns qs) :
    SpansPitches n ts l rest (ms ++ ns) (ps ++ qs) := by
  rw [SpansPitches, totalOctaves_append, accidentalCount_append]
  exact Spans.trans hFirst hThen

/- Only the first letter of a run is shifted and altered. -/
theorem followers_plain
    (line column : Int)
    (ls : List Letter) :
    pitchMarks (followers line column ls) = ls.map .letter ∧
      totalOctaves (followers line column ls) = 0 ∧
        accidentalCount (followers line column ls) = 0 := by
  induction ls generalizing column with
  | nil =>
      exact ⟨rfl, rfl, rfl⟩
  | cons l ls ih =>
      rcases ih (column + 1) with
        ⟨hMarks, hOctaves, hAccidentals⟩
      simp_all [followers, pitchMarks, totalOctaves,
        accidentalCount]

/-
  Of a run, the first pitch has the
  shift and the accidental.
-/
theorem marks_of_run
    (p : Pitch)
    (line column : Int)
    (ls : List Letter) :
    pitchMarks (p :: followers line column ls) =
        (p.letter :: ls).map .letter ∧
      totalOctaves (p :: followers line column ls) =
        p.shift ∧
      accidentalCount (p :: followers line column ls) =
          if p.accidental.isSome then 1 else 0 := by
  rcases followers_plain line column ls with
    ⟨hMarks, hOctaves, hAccidentals⟩
  refine ⟨?_, ?_, ?_⟩
  · rw [List.map_cons, ← hMarks]
    rfl
  · rw [totalOctaves, List.map_cons, List.sum_cons,
      ← totalOctaves, hOctaves, Int.add_zero]
  · rw [accidentalCount, List.countP_cons,
      ← accidentalCount, hAccidentals, Nat.zero_add]

/-
  Where a run may start, the section
  says what is read there.
-/
theorem readRun_spans
    {ps : List Pitch}
    (hNesting : n ≠ .group)
    (hHead : ∀ t ∈ ts.head?, ¬ n.Minds t)
    (hKeeps : Keeps n ts)
    (hRun : readRun fin ts = .ok (ps, rest)) :
    SpansPitches n ts n
      (if ps = [] then rest.tail else rest) (pitchMarks ps)
      ps := by
  rcases readRun_eq_ok hRun with
    ⟨name, l, ls, hBehind, hLetters, rfl⟩ |
      ⟨rfl, rfl, hNote, hNothing⟩
  · rw [if_neg (List.cons_ne_nil _ _), SpansPitches,
      (marks_of_run _ _ _ _).1, (marks_of_run _ _ _ _).2.1,
      (marks_of_run _ _ _ _).2.2]
    exact spans_run hNesting hBehind hLetters
  · exact spans_silence hNesting hHead hKeeps hNote hNothing

/-
  The entry of a chord that does not start
  with a closing parenthesis.
-/
theorem readChordEntry_spans
    {entry : ChordEntry}
    (hOpen : t.kind ≠ .closeParenthesis)
    (hKeeps : Keeps .chord (t :: ts))
    (hEntry :
      readChordEntry fin (t :: ts) = .ok (entry, rest)) :
    SpansPitches .chord (t :: ts) .chord rest
      (pitchMarks entry.pitches) entry.pitches := by
  rcases Outcome.map_eq_ok.mp hEntry with
    ⟨⟨ps, after⟩, hRun, hRest⟩
  have hHead :
      ∀ u ∈ (t :: ts).head?, ¬ Nesting.chord.Minds u := by
    intro u hu hMinds
    cases hu
    exact hOpen hMinds
  have hSpans := readRun_spans (by decide) hHead hKeeps hRun
  simp only at hRest
  by_cases hEmpty : ps = []
  · rw [if_pos hEmpty] at hRest
    cases hRest
    rw [hEmpty, if_pos rfl] at hSpans
    exact hSpans
  · rw [if_neg hEmpty] at hRest
    cases hRest
    rw [if_neg hEmpty] at hSpans
    exact hSpans

/- The entries of a chord and its closing parenthesis. -/
theorem readChordEntries_spans
    {entries : List ChordEntry}
    {closing : Token}
    (hKeeps : Keeps .chord ts)
    (hEntries :
      readChordEntries fin ts =
        .ok (entries, closing, rest)) :
    SpansPitches .chord ts .line rest
      (pitchMarks (entries.flatMap ChordEntry.pitches) ++
        [.closing])
      (entries.flatMap ChordEntry.pitches) := by
  rw [readChordEntries_iff] at hEntries
  induction hEntries with
  | @close closing rest hClosing =>
      have hEnd : ¬ Nesting.chord.EndsAt closing rest :=
        Nesting.not_endsAt_of_ne_line (by decide)
      have hStep :=
        Spans.step hEnd
          (writes_of_kind .chord rest hClosing (by decide))
      rw [Nesting.after, if_pos hClosing, PitchPlace.marks,
        if_pos hClosing] at hStep
      exact hStep
  | entry hOpen hEntry _ ih =>
      have hFirst := readChordEntry_spans hOpen hKeeps hEntry
      have hThen := ih (hFirst.keeps hKeeps)
      rw [List.flatMap_cons, pitchMarks_append,
        List.append_assoc]
      exact hFirst.trans hThen

/- What brackets hold is no part of what a section says. -/
theorem spans_inside
    {closing : Token}
    (hInside : TakenInside ts (closing :: rest))
    (hClosing : closing.kind = .closeBracket) :
    Spans .group ts .line rest [] 0 0 := by
  rcases hInside with ⟨taken, rfl, hTaken⟩
  induction taken with
  | nil =>
      have hEnd : ¬ Nesting.group.EndsAt closing rest :=
        Nesting.not_endsAt_of_ne_line (by decide)
      have hStep :=
        Spans.step hEnd (writes_in_group closing rest)
      simpa [Nesting.after, hClosing] using hStep
  | cons t taken ih =>
      rw [List.forall_mem_cons] at hTaken
      have hEnd :
          ¬ Nesting.group.EndsAt t
            (taken ++ closing :: rest) :=
        Nesting.not_endsAt_of_ne_line (by decide)
      have hStep := Spans.step hEnd (writes_in_group t _)
      rw [Nesting.after, if_neg hTaken.1] at hStep
      exact hStep.trans (ih hTaken.2)

/- A line minds no token at which a run may start. -/
theorem not_minds_of_start
    (ts : List Token)
    (hLine : t.kind ≠ .newline)
    (hBarline : t.kind ≠ .barline)
    (hBracket : t.kind ≠ .openBracket)
    (hParenthesis : t.kind ≠ .openParenthesis) :
    ∀ u ∈ (t :: ts).head?, ¬ Nesting.line.Minds u := by
  intro u hu hMinds
  cases hu
  rcases hMinds with hKind | hKind | hKind | hKind
  · exact hLine hKind
  · exact hBarline hKind
  · exact hBracket hKind
  · exact hParenthesis hKind

/- A unit says what stands on its tokens. -/
theorem readPitchUnit_spans
    {unit : PitchUnit}
    (hLine : t.kind ≠ .newline)
    (hKeeps : Keeps .line (t :: ts))
    (hUnit : readPitchUnit fin t ts = .ok (unit, rest)) :
    SpansPitches .line (t :: ts) .line rest unit.marks
      unit.pitches := by
  have hEnd : ¬ Nesting.line.EndsAt t ts :=
    Nesting.not_endsAt_of_kind hLine
  cases readPitchUnit_iff.mp hUnit with
  | barline hBarline =>
      have hStep :=
        Spans.step hEnd
          (writes_of_kind .line ts hBarline (by decide))
      simp only [Nesting.after, PitchPlace.marks,
        hBarline] at hStep
      exact hStep
  | group hBracket hGroup =>
      have hStep :=
        Spans.step hEnd
          (writes_of_kind .line ts hBracket (by decide))
      rcases readGroup_eq_ok hGroup with ⟨hInside, hClosing⟩
      simp [Nesting.after, PitchPlace.marks, hBracket,
        Token.letterMarks, Token.letters?] at hStep
      exact hStep.trans (spans_inside hInside hClosing)
  | chord hParenthesis hEntries =>
      have hStep :=
        Spans.step hEnd
          (writes_of_kind .line ts hParenthesis (by decide))
      simp only [Nesting.after, PitchPlace.marks,
        hParenthesis] at hStep
      have hBoth :=
        hStep.trans
          (readChordEntries_spans (hStep.keeps hKeeps)
            hEntries)
      rw [Int.zero_add, Nat.zero_add] at hBoth
      exact hBoth
  | stray hBarline hBracket hParenthesis hRun =>
      have hHead :=
        not_minds_of_start ts hLine hBarline hBracket
          hParenthesis
      have hSpans := readRun_spans (by decide) hHead hKeeps hRun
      rw [if_pos rfl] at hSpans
      exact hSpans
  | run hBarline hBracket hParenthesis hRun hPitches =>
      have hHead :=
        not_minds_of_start ts hLine hBarline hBracket
          hParenthesis
      have hSpans := readRun_spans (by decide) hHead hKeeps hRun
      rw [if_neg hPitches] at hSpans
      exact hSpans

/- A written line says what stands on its tokens. -/
theorem readPitchLine_spans
    {units : List PitchUnit}
    (hKeeps : Keeps .line ts)
    (hRead : readPitchLine fin ts = .ok (units, rest)) :
    SpansPitches .line ts .line rest
      (units.flatMap PitchUnit.marks)
      (units.flatMap PitchUnit.pitches) := by
  rw [readPitchLine_iff] at hRead
  induction hRead with
  | done hEnd =>
      exact .refl .line _
  | unit hNewline hUnit _ ih =>
      have hFirst := readPitchUnit_spans hNewline hKeeps hUnit
      exact hFirst.trans (ih (hFirst.keeps hKeeps))

/-
  Pitch lines are read to the end of their section, and say
  what it says.
-/
theorem readPitchLines_writes
    {lines : List (List PitchUnit)}
    (hKeeps : Keeps .line ts)
    (hLines : readPitchLines fin ts = .ok (lines, rest)) :
    (takePitches .line ts).2 = rest ∧
      Writes (takePitches .line ts).1
        (lines.flatten.flatMap PitchUnit.marks)
        (totalOctaves
          (lines.flatten.flatMap PitchUnit.pitches))
        (accidentalCount
          (lines.flatten.flatMap PitchUnit.pitches)) := by
  rw [readPitchLines_iff] at hLines
  induction hLines with
  | done =>
      exact ⟨rfl, .nil⟩
  | gap hNewline hGap =>
      rw [takePitches, if_pos ⟨rfl, hNewline, hGap⟩]
      exact ⟨rfl, .nil⟩
  | @newline t ts rest lines hNewline hGap _ ih =>
      have hEnd : ¬ Nesting.line.EndsAt t ts :=
        fun hEnd => hGap hEnd.2.2
      have hStep :=
        Spans.step hEnd
          (writes_of_kind .line ts hNewline (by decide))
      simp [Nesting.after, PitchPlace.marks, hNewline,
        Token.letterMarks, Token.letters?] at hStep
      rcases ih (hStep.keeps hKeeps) with ⟨hRest, hWrites⟩
      rcases hStep.writes hWrites with ⟨hSame, hAll⟩
      rw [List.nil_append, Int.zero_add, Nat.zero_add] at hAll
      exact ⟨hSame.trans hRest, hAll⟩
  | last _ _ hLast =>
      exact hLast.elim
  | line hStart hLine _ _ ih =>
      have hFirst := readPitchLine_spans hKeeps hLine
      rcases ih (hFirst.keeps hKeeps) with ⟨hRest, hWrites⟩
      rcases hFirst.writes hWrites with ⟨hSame, hAll⟩
      rw [List.flatten_cons, List.flatMap_append,
        List.flatMap_append, totalOctaves_append,
        accidentalCount_append]
      exact ⟨hSame.trans hRest, hAll⟩

end Units

------------------------------------------------------------
-- Stanzas
------------------------------------------------------------

section Stanzas

variable {fin : Token}
variable {ts rest : List Token}

/- What is written below some lyrics says this. -/
def Stanza.WrittenAs
    (s : Stanza)
    (ps : List PitchPlace) : Prop :=
  Writes ps (s.pitches.flatten.flatMap PitchUnit.marks)
    (totalOctaves
      (s.pitches.flatten.flatMap PitchUnit.pitches))
    (accidentalCount
      (s.pitches.flatten.flatMap PitchUnit.pitches))

/-
  The pitch lines of a stanza are written
  as its section says.
-/
theorem readStanza_writes
    {stanza : Stanza}
    (hKeeps : Keeps .line (skipLyrics false false ts))
    (hStanza : readStanza fin ts = .ok (stanza, rest)) :
    (takePitches .line (skipLyrics false false ts)).2 =
        rest ∧
      stanza.WrittenAs
        (takePitches .line
          (skipLyrics false false ts)).1 := by
  rcases readStanza_eq_ok.mp hStanza with
    ⟨between, hLyrics, hPitches⟩
  rw [readLyricLines_skips hLyrics] at hKeeps ⊢
  exact readPitchLines_writes hKeeps hPitches

/-
  The pitch section at some index and the stanza there say the
  same, as long as no section up to there swallows a token.
-/
theorem readStanzas_writes
    {stanzas : List Stanza}
    (index : Nat)
    (hKeeps :
      ∀ ps ∈ (pitchSections ts).take (index + 1),
        ∀ p ∈ ps, ¬ p.Swallows)
    (hStanzas : readStanzas fin ts = .ok stanzas) :
    Option.Rel Stanza.WrittenAs stanzas[index]?
      (pitchSections ts)[index]? := by
  rw [readStanzas_iff] at hStanzas
  induction hStanzas generalizing index with
  | done =>
      rw [pitchSections]
      exact .none
  | newline hNewline _ ih =>
      rw [pitchSections_cons, if_pos hNewline] at hKeeps ⊢
      exact ih index hKeeps
  | stanza hStart hStanza _ ih =>
      rw [pitchSections_cons, if_neg hStart] at hKeeps ⊢
      rw [List.take_succ_cons, List.forall_mem_cons] at hKeeps
      rcases readStanza_writes hKeeps.1 hStanza with
        ⟨hAfter, hWrites⟩
      rw [hAfter] at hKeeps ⊢
      cases index with
      | zero =>
          exact .some hWrites
      | succ index =>
          exact ih index hKeeps.2

/- What the stanzas of a manuscript say. -/
theorem Manuscript.read_writes
    {m : Manuscript}
    (index : Nat)
    (hKeeps :
      ∀ ps ∈ (pitchSections ts).take (index + 1),
        ∀ p ∈ ps, ¬ p.Swallows)
    (hRead : read ts = .ok m) :
    Option.Rel Stanza.WrittenAs m.stanzas[index]?
      (pitchSections ts)[index]? := by
  rcases exists_readStanzas hRead with ⟨fin, -, hStanzas⟩
  exact readStanzas_writes index hKeeps hStanzas

end Stanzas

end LyricScore
