import Mathlib.Tactic.Ring
import LyricScore.Proofs.Drawing.Extent

/-
  This file relates the height at which a letter is drawn to
  the number of its tone.  A semitone is a twelfth of the
  spacing of octave lines, for every letter and accidental;
  only the letter F, with whatever accidental, lies four fifths
  of a semitone below its place.  So what sounds higher is
  drawn higher, across every octave.

  Key definitions include:
    * `Letter.sag`
    * `Voice.rank`

  Key theorems include:
    * `offset?_eq`
    * `pitchHeight_eq`
    * `pitchHeight_lt_iff`
    * `Voice.drawn_higher_of_higher`
-/

namespace LyricScore

------------------------------------------------------------
-- Offsets
------------------------------------------------------------

/- Tenths are the rational number that they say. -/
theorem tenths_eq_div
    (n : Int) :
    (tenths n : Rat) = n / 10 := by
  have hDecimal :
      (Coordinate.ofDecimal n.natAbs 1 : Rat) =
        n.natAbs / 10 := by
    show mkRat n.natAbs 10 = n.natAbs / 10
    rw [Rat.mkRat_eq_div]
    norm_num
  unfold tenths
  rw [hDecimal]
  by_cases hNegative : n < 0
  · rw [if_pos hNegative]
    have hAbs : ((n.natAbs : Int) : Rat) = -n := by
      exact_mod_cast Int.ofNat_natAbs_of_nonpos hNegative.le
    rw [← Int.cast_natCast, hAbs]
    ring
  · rw [if_neg hNegative]
    have hAbs : ((n.natAbs : Int) : Rat) = n := by
      exact_mod_cast Int.natAbs_of_nonneg (not_lt.mp hNegative)
    rw [← Int.cast_natCast, hAbs]

/-
  How far a letter lies below its place, in
  tenths of a semitone.
-/
def Letter.sag : Letter → Int
  | .f => 8
  | _ => 0

/- A letter lies less than a semitone below its place. -/
theorem Letter.sag_mem
    (l : Letter) :
    0 ≤ l.sag ∧ l.sag < 10 := by
  cases l <;> decide

/-
  The whole table of offsets: twelve steps below the top lies
  the natural C, and every semitone above it is a step less.
-/
theorem offset?_eq
    (l : Letter)
    (a : Accidental) :
    offset? l.name a =
      some
        (120 - 10 * (l.semitones + a.semitones) +
          l.sag) := by
  cases a <;> cases l <;> rfl

------------------------------------------------------------
-- Heights
------------------------------------------------------------

/-
  The place of a voice among all heights, in
  tenths of a semitone.
-/
def Voice.rank
    (v : Voice) : Int :=
  10 * v.midiNumber - v.tone.letter.sag

/-
  A voice is drawn as many semitones above the center line as
  its rank is above that of the natural G there.
-/
theorem pitchHeight_eq
    (center spacing : Rat)
    (reference : Int)
    (v : Voice) :
    pitchHeight center v.tone.octave v.tone.letter.name
        v.accidental reference spacing =
      .ok
        (center -
          (v.rank - 10 * midiNumber ⟨.g, reference⟩ none) /
            120 * spacing) := by
  have hOctaves :
      (Coordinate.ofInt? (v.tone.octave - reference) :
          Option Rat) =
        some ((v.tone.octave - reference : Int) : Rat) :=
    rfl
  have hNumber :
      v.midiNumber =
        (v.tone.octave + 1) * 12 + v.tone.letter.semitones +
          v.accidental.semitones :=
    rfl
  have hCenter :
      midiNumber ⟨.g, reference⟩ none =
        (reference + 1) * 12 + 7 := by
    show (reference + 1) * 12 + 7 + 0 = (reference + 1) * 12 + 7
    rw [add_zero]
  simp only [pitchHeight, offset?_eq, hOctaves,
    tenths_eq_div, Coordinate.nat_eq_cast, Voice.rank,
    hNumber, hCenter, Except.ok.injEq]
  push_cast
  ring

/-
  Of two voices the one of the greater rank is drawn higher.
-/
theorem pitchHeight_lt_iff
    (center : Rat)
    {spacing : Rat}
    (hSpacing : 0 < spacing)
    (reference : Int)
    (v w : Voice) :
    ∃ y z,
      pitchHeight center v.tone.octave v.tone.letter.name
            v.accidental reference spacing =
          .ok y ∧
        pitchHeight center w.tone.octave w.tone.letter.name
            w.accidental reference spacing =
          .ok z ∧
        (y < z ↔ w.rank < v.rank) := by
  refine ⟨_, _, pitchHeight_eq center spacing reference v,
    pitchHeight_eq center spacing reference w, ?_⟩
  rw [sub_lt_sub_iff_left, mul_lt_mul_iff_left₀ hSpacing,
    div_lt_div_iff_of_pos_right (by norm_num),
    sub_lt_sub_iff_right, Int.cast_lt]

namespace Voice

/- No letter sags as far as a semitone. -/
theorem rank_lt_of_midiNumber_lt
    {v w : Voice}
    (hHigher : w.midiNumber < v.midiNumber) :
    w.rank < v.rank := by
  have hSag := v.tone.letter.sag_mem
  have hOther := w.tone.letter.sag_mem
  unfold rank
  omega

/-
  What sounds higher is drawn higher: heights are
  numbered downwards, and the greater of two numbers of
  tones has the lesser height, whatever the letters,
  octaves and accidentals are, wherever the center line
  lies and whichever octave is on it.
-/
theorem drawn_higher_of_higher
    (center : Rat)
    {spacing : Rat}
    (hSpacing : 0 < spacing)
    (reference : Int)
    {v w : Voice}
    (hHigher : w.midiNumber < v.midiNumber) :
    ∃ y z,
      pitchHeight center v.tone.octave v.tone.letter.name
            v.accidental reference spacing =
          .ok y ∧
        pitchHeight center w.tone.octave w.tone.letter.name
            w.accidental reference spacing =
          .ok z ∧
        y < z := by
  rcases pitchHeight_lt_iff center hSpacing reference
    v w with
    ⟨y, z, hHere, hThere, hOrder⟩
  exact ⟨y, z, hHere, hThere,
    hOrder.mpr (rank_lt_of_midiNumber_lt hHigher)⟩

/-
  The E with two flats is above the B with two sharps of the
  octave below.
-/
theorem doubleFlat_e_above_doubleSharp_b :
    let e : Voice := ⟨⟨.e, 5⟩, .doubleFlat⟩
    let b : Voice := ⟨⟨.b, 4⟩, .doubleSharp⟩
    b.midiNumber < e.midiNumber ∧
      ∃ y z,
        pitchHeight (85 : Rat) 5 "e" .doubleFlat 4 35 =
            .ok y ∧
          pitchHeight (85 : Rat) 4 "b" .doubleSharp 4 35 =
            .ok z ∧
          y < z := by
  intro e b
  have hHigher : b.midiNumber < e.midiNumber := by
    decide
  exact ⟨hHigher,
    drawn_higher_of_higher 85 (by norm_num) 4 hHigher⟩

end Voice

end LyricScore
