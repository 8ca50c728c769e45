import Mathlib.Algebra.Order.Group.Abs
import Mathlib.Algebra.Order.Group.Int
import Mathlib.Data.List.Basic
import LyricScore.Pitch.Melody
import LyricScore.Proofs.Pitch.Calls

/-
  This file tells which tones a melody finds over any calls.
  Tones are compared by their degrees, in steps of the scale.
  A letter has one tone within three steps of another, and one
  that lies one to seven steps above it; no octave is counted
  and no case is split to say which they are.

  Key definitions include:
    * `Tone.IsNear`, `Tone.IsHigher`, `Tone.IsOnly`
    * `Climbs`
    * `MelodyCall`, `MelodyCall.Obeys`
    * `Melody.call`
    * `lastTone`

  Key theorems include:
    * `Tone.isNear_iff`, `Tone.isHigher_iff`
    * `midiNumber_lt_of_degree_lt`
    * `Climbs.pairwise_degree`
    * `Melody.answers_follow_rule`
-/

namespace LyricScore

------------------------------------------------------------
-- Degrees
------------------------------------------------------------

namespace Letter

theorem index_le
    (l : Letter) :
    l.index ≤ 6 := by
  cases l <;> decide

theorem semitones_le
    (l : Letter) :
    l.semitones ≤ 11 := by
  cases l <;> decide

theorem semitones_lt_of_index_lt
    {l l' : Letter}
    (hIndex : l.index < l'.index) :
    l.semitones < l'.semitones := by
  revert hIndex
  cases l <;> cases l' <;> decide

end Letter

/- A natural tone of a higher degree has a higher number. -/
theorem midiNumber_lt_of_degree_lt
    {t u : Tone}
    (hDegree : t.degree < u.degree) :
    midiNumber t (some .natural) <
      midiNumber u (some .natural) := by
  have hIndex := t.letter.index_le
  have hIndexU := u.letter.index_le
  have hSemitones := t.letter.semitones_le
  simp only [Tone.degree] at hDegree
  simp only [midiNumber, alteration, Option.map_some,
    Option.getD_some, Accidental.semitones]
  by_cases hOctave : t.octave = u.octave
  · have hLetter : t.letter.semitones < u.letter.semitones :=
      Letter.semitones_lt_of_index_lt (by omega)
    omega
  · omega

namespace Tone

/- A tone of a letter within three steps of another tone. -/
def IsNear
    (previous : Tone)
    (letter : Letter)
    (t : Tone) : Prop :=
  t.letter = letter ∧ |t.degree - previous.degree| ≤ 3

/-
  A tone of a letter one to seven steps above another tone.
-/
def IsHigher
    (lower : Tone)
    (letter : Letter)
    (t : Tone) : Prop :=
  t.letter = letter ∧
    1 ≤ t.degree - lower.degree ∧
    t.degree - lower.degree ≤ 7

/- The one tone there is of a kind. -/
def IsOnly
    (kind : Tone → Prop)
    (t : Tone) : Prop :=
  ∀ u, kind u ↔ u = t

/-
  Two tones of one letter less than seven
  steps apart are the same.
-/
theorem eq_of_degree_apart
    {t u : Tone}
    (hLetter : t.letter = u.letter)
    (hBelow : t.degree < u.degree + 7)
    (hAbove : u.degree < t.degree + 7) :
    t = u := by
  rcases t with ⟨l, octave⟩
  rcases u with ⟨l', octave'⟩
  cases hLetter
  simp only [degree] at hBelow hAbove
  have hOctave : octave = octave' := by omega
  rw [hOctave]

/- The nearest tone of a letter is near. -/
theorem isNear_nearest
    (previous : Tone)
    (letter : Letter) :
    previous.IsNear letter (previous.nearest letter) := by
  have hPrevious := previous.letter.index_le
  have hLetter := letter.index_le
  simp only [IsNear, nearest, abs_le]
  split
  · refine ⟨rfl, ?_⟩
    simp only [degree]
    omega
  · split <;>
    · refine ⟨rfl, ?_⟩
      simp only [degree]
      omega

/- The tone of a letter above another is higher. -/
theorem isHigher_above
    (lower : Tone)
    (letter : Letter) :
    lower.IsHigher letter (lower.above letter) := by
  have hLower := lower.letter.index_le
  have hLetter := letter.index_le
  unfold IsHigher above
  split <;>
  · refine ⟨rfl, ?_⟩
    simp only [degree]
    omega

/- Just one tone of a letter is near. -/
theorem isNear_iff
    {previous t : Tone}
    {letter : Letter} :
    previous.IsNear letter t ↔ t = previous.nearest letter := by
  have hNearest := previous.isNear_nearest letter
  constructor
  · intro hNear
    rw [IsNear, abs_le] at hNear hNearest
    exact eq_of_degree_apart (hNear.1.trans hNearest.1.symm)
      (by omega) (by omega)
  · rintro rfl
    exact hNearest

/- Just one tone of a letter is the next higher. -/
theorem isHigher_iff
    {lower t : Tone}
    {letter : Letter} :
    lower.IsHigher letter t ↔ t = lower.above letter := by
  have hAbove := lower.isHigher_above letter
  constructor
  · intro hHigher
    rw [IsHigher] at hHigher hAbove
    exact eq_of_degree_apart (hHigher.1.trans hAbove.1.symm)
      (by omega) (by omega)
  · rintro rfl
    exact hAbove

/- An octave has seven degrees. -/
theorem degree_shift
    (t : Tone)
    (octaves : Int) :
    (t.shift octaves).degree = t.degree + 7 * octaves := by
  simp only [shift, degree]
  omega

end Tone

------------------------------------------------------------
-- Calls
------------------------------------------------------------

/- What is asked of a melody. -/
inductive MelodyCall where
  | pitch (letter : Letter) (shift : Int)
  | chord (pitches : List Pitch)
  | setReferenceOctave (octave : Int)
deriving DecidableEq, Repr

namespace Melody

/- The tones that a call finds, and the melody behind it. -/
def call
    (m : Melody) : MelodyCall → List WrittenTone × Melody
  | .pitch letter shift =>
    let (tone, m) := m.pitch letter shift
    ([⟨tone, none⟩], m)
  | .chord pitches => m.chord pitches
  | .setReferenceOctave octave =>
      ([], m.setReferenceOctave octave)

end Melody

------------------------------------------------------------
-- The rule
------------------------------------------------------------

/-
  Tones of pitches above a lower one: each is the only one of
  its letter one to seven steps above the tone before it,
  raised by its own shift.
-/
inductive Climbs :
  Tone → List Pitch → List WrittenTone → Prop where
  | nil {lower : Tone} : Climbs lower [] []
  | cons
      {lower t : Tone}
      {p : Pitch}
      {ps : List Pitch}
      {ts : List WrittenTone}
      (hOnly : Tone.IsOnly (lower.IsHigher p.letter) t)
      (hRest : Climbs (t.shift p.shift) ps ts) :
      Climbs lower (p :: ps)
        (⟨t.shift p.shift, p.accidental⟩ :: ts)

/-
  The tones of a call, where `previous` is the tone before.  A
  single letter, and the first of a chord, is the only one of
  its letter within three steps of it, raised by its shift.
-/
def MelodyCall.Obeys
    (previous : Tone) : MelodyCall → List WrittenTone → Prop
  | pitch letter shift, tones =>
    ∃ t,
      Tone.IsOnly (previous.IsNear letter) t ∧
        tones = [⟨t.shift shift, none⟩]
  | chord [], tones => tones = []
  | chord (p :: ps), tones =>
    ∃ t more,
      Tone.IsOnly (previous.IsNear p.letter) t ∧
        Climbs (t.shift p.shift) ps more ∧
        tones = ⟨t.shift p.shift, p.accidental⟩ :: more
  | setReferenceOctave _, tones => tones = []

/-
  The last of the tones that were found, or the one before
  if there is none.
-/
def lastTone
    (previous : Tone)
    (found : List (List WrittenTone)) : Tone :=
  (found.flatten.getLast?.map WrittenTone.tone).getD previous

/-
  The last tone of answers is that of the
  last answer with tones.
-/
theorem lastTone_cons
    (previous : Tone)
    (tones : List WrittenTone)
    (found : List (List WrittenTone)) :
    lastTone previous (tones :: found) =
      lastTone (lastTone previous [tones]) found := by
  simp only [lastTone, List.flatten_cons, List.flatten_nil,
    List.append_nil, List.getLast?_append]
  cases found.flatten.getLast? <;> rfl

------------------------------------------------------------
-- Chords
------------------------------------------------------------

/- The tones of a chord climb. -/
theorem climbs_climb
    (lower : Tone)
    (ps : List Pitch) :
    Climbs lower ps (Melody.climb lower ps) := by
  induction ps generalizing lower with
  | nil =>
      exact .nil
  | cons p ps ih =>
      exact .cons (fun _ => Tone.isHigher_iff) (ih _)

namespace Climbs

variable {lower : Tone}
variable {ps : List Pitch}
variable {ts : List WrittenTone}

/-
  Where no pitch is lowered, all tones lie above the first
  and each above the last.
-/
theorem pairwise_degree
    (hClimbs : Climbs lower ps ts)
    (hUp : ∀ p ∈ ps, 0 ≤ p.shift) :
    (∀ t ∈ ts, lower.degree < t.tone.degree) ∧
      ts.Pairwise fun t u => t.tone.degree < u.tone.degree := by
  induction hClimbs with
  | nil =>
      exact ⟨by simp, .nil⟩
  | @cons lower t p ps ts hOnly _ ih =>
      rcases ih fun q hMember =>
          hUp q (.tail p hMember) with
        ⟨hAbove, hRest⟩
      have hShift := hUp p List.mem_cons_self
      have hHigher := ((hOnly t).mpr rfl).2.1
      have hDegree := t.degree_shift p.shift
      refine ⟨?_, .cons hAbove hRest⟩
      intro u hMember
      rcases List.mem_cons.mp hMember with rfl | hMember
      · simp only
        omega
      · have hTop := hAbove u hMember
        omega

end Climbs

------------------------------------------------------------
-- Runs
------------------------------------------------------------

namespace Melody

variable (m : Melody)
variable (c : MelodyCall)
variable (cs : List MelodyCall)

/- An answer follows the rule from the tone before it. -/
theorem obeys_call :
    c.Obeys m.previous (m.call c).1 := by
  cases c with
  | pitch letter shift =>
      exact ⟨_, fun _ => Tone.isNear_iff, rfl⟩
  | chord pitches =>
      cases pitches with
      | nil =>
          rfl
      | cons p ps =>
          exact ⟨_, _, fun _ => Tone.isNear_iff,
            climbs_climb _ ps, rfl⟩
  | setReferenceOctave octave =>
      rfl

/-
  The tone before is the last that was found, whatever was
  called since.
-/
theorem previous_call :
    (m.call c).2.previous =
      lastTone m.previous [(m.call c).1] := by
  cases c with
  | chord pitches =>
      cases pitches with
      | nil =>
          rfl
      | cons p ps =>
          simp only [call, chord, lastTone,
            List.flatten_cons, List.flatten_nil,
            List.append_nil]
          rw [List.getLast?_eq_some_getLast
            (List.cons_ne_nil _ _)]
          rfl
  | _ =>
      rfl

/-
  The tone that a melody remembers is the
  last one that it answered.
-/
theorem previous_stateBehind :
    (stateBehind call m cs).previous =
      lastTone m.previous (answersTo call m cs) := by
  induction cs generalizing m with
  | nil =>
      rfl
  | cons c cs ih =>
      rw [answersTo, lastTone_cons, ← previous_call]
      exact ih _

/-
  A chord ascends if none of its pitches but
  the first is lowered.
-/
theorem pairwise_chord
    (p : Pitch)
    {ps : List Pitch}
    (hUp : ∀ q ∈ ps, 0 ≤ q.shift) :
    (m.chord (p :: ps)).1.Pairwise fun t u =>
      t.tone.degree < u.tone.degree := by
  rcases (climbs_climb _ ps).pairwise_degree hUp with
    ⟨hAbove, hRest⟩
  exact .cons hAbove hRest

/-
  The rule of relative pitch over any calls on a new melody.
  Each call obeys it with the last tone that the calls before
  it have found, at first the C of octave 4; that tone is the
  one before for the melody as well.  A chord of which only
  the first pitch may be lowered ascends strictly, step by
  step of the scale and by the numbers of its natural tones.
-/
theorem answers_follow_rule
    (calls : List MelodyCall) :
    let found := answersTo call {} calls
    found.length = calls.length ∧
      (∀ k : Nat,
        (stateBehind call {} (calls.take k)).previous =
          lastTone ⟨.c, 4⟩ (found.take k)) ∧
      (∀ (k : Nat) (c : MelodyCall)
        (tones : List WrittenTone),
        calls[k]? = some c →
          found[k]? = some tones →
          c.Obeys (lastTone ⟨.c, 4⟩ (found.take k)) tones) ∧
      ∀ (k : Nat) (p : Pitch) (ps : List Pitch)
        (tones : List WrittenTone),
        calls[k]? = some (.chord (p :: ps)) →
          found[k]? = some tones →
          (∀ q ∈ ps, 0 ≤ q.shift) →
          (tones.Pairwise fun t u =>
              t.tone.degree < u.tone.degree) ∧
            tones.Pairwise fun t u =>
              midiNumber t.tone (some .natural) <
                midiNumber u.tone (some .natural) := by
  intro found
  have hPrevious (k : Nat) :
      (stateBehind call {} (calls.take k)).previous =
        lastTone ⟨.c, 4⟩ (found.take k) := by
    rw [previous_stateBehind, answersTo_take]
  have hFound {k : Nat} {c : MelodyCall}
      {tones : List WrittenTone}
      (hCall : calls[k]? = some c)
      (hTones : found[k]? = some tones) :
      ((stateBehind call {} (calls.take k)).call c).1 =
        tones := by
    rw [getElem?_answersTo, hCall] at hTones
    exact Option.some.inj hTones
  refine ⟨length_answersTo call _ calls, hPrevious, ?_, ?_⟩
  · intro k c tones hCall hTones
    rw [← hPrevious, ← hFound hCall hTones]
    exact obeys_call _ c
  · intro k p ps tones hCall hTones hUp
    have hAscends :
        tones.Pairwise fun t u =>
          t.tone.degree < u.tone.degree := by
      rw [← hFound hCall hTones]
      exact pairwise_chord _ p hUp
    exact ⟨hAscends, hAscends.imp midiNumber_lt_of_degree_lt⟩

/-
  A descending letter that falls below the octave, a chord
  that goes on above it with a letter twice, an empty chord
  and a change of the octave on the center line.
-/
def winding : List MelodyCall :=
  [.pitch .b 0,
    .chord
      [{ letter := .g }, { letter := .g },
        { letter := .c, shift := 1 }], .chord [],
    .setReferenceOctave 2, .pitch .f (-1)]

/-
  The second call is answered by the rule: each tone is
  higher than the one before.
-/
theorem winding_follows_rule :
    ∃ tones,
      winding[1]? =
          some
            (.chord
              [{ letter := .g }, { letter := .g },
                { letter := .c, shift := 1 }]) ∧
        (answersTo call {} winding)[1]? = some tones ∧
        tones.map
            (fun t => midiNumber t.tone (some .natural)) =
          [55, 67, 84] ∧
        (MelodyCall.chord
            [{ letter := .g }, { letter := .g },
              { letter := .c, shift := 1 }]).Obeys
          ⟨.b, 3⟩ tones ∧
        (tones.Pairwise fun t u =>
          midiNumber t.tone (some .natural) <
            midiNumber u.tone (some .natural)) ∧
        (stateBehind call {} winding).previous = ⟨.f, 5⟩ := by
  rcases answers_follow_rule winding with
    ⟨-, hPrevious, hObeys, hAscends⟩
  have hCall :
      winding[1]? =
        some
          (.chord
            [{ letter := .g }, { letter := .g },
              { letter := .c, shift := 1 }]) :=
    rfl
  have hTones :
      (answersTo call {} winding)[1]? =
        some
          [⟨⟨.g, 3⟩, none⟩, ⟨⟨.g, 4⟩, none⟩,
            ⟨⟨.c, 6⟩, none⟩] := by
    decide
  have hLast :
      lastTone ⟨.c, 4⟩
          ((answersTo call {} winding).take 1) =
        ⟨.b, 3⟩ := by
    decide
  have hObeyed := hObeys 1 _ _ hCall hTones
  rw [hLast] at hObeyed
  refine ⟨_, hCall, hTones, by decide, hObeyed,
    (hAscends 1 _ _ _ hCall hTones ?_).2, ?_⟩
  · decide
  · rw [← List.take_of_length_le (l := winding) (i := 5)
        (by decide), hPrevious]
    decide

end Melody

end LyricScore
