import Mathlib.Algebra.Order.Field.Rat
import Mathlib.Tactic.Linarith
import Mathlib.Tactic.NormNum
import LyricScore.Proofs.Timing.Rounding
import LyricScore.Timing.BeatUnit

/-
  This file relates the length of a quarter, in microseconds,
  to the tempo it comes from.  It is the rounded quotient of a
  minute and the quarters in it, capped from above only: a
  tempo that is fast enough leaves nothing of a quarter.

  Key definitions include:
    * `quartersPerMinute`

  Key theorems include:
    * `BeatUnit.quarters_pos`
    * `roundHalfUp_near`
    * `microsecondsPerQuarter_near`
    * `microsecondsPerQuarter_eq_zero_iff`
-/

namespace LyricScore

/- Every note value has a length. -/
theorem BeatUnit.quarters_pos
    (code : String) :
    0 < BeatUnit.quarters code := by
  unfold BeatUnit.quarters
  cases hLookup : BeatUnit.lengths.lookup code with
  | none =>
      simp
  | some length =>
      rcases List.lookup_eq_some_iff.mp hLookup with
        ⟨before, after, hSplit, -⟩
      have hMember : (code, length) ∈ BeatUnit.lengths := by
        simp [hSplit]
      have hLengths :
          ∀ entry ∈ BeatUnit.lengths, 0 < entry.2 := by
        decide +kernel
      exact hLengths _ hMember

/- No whole number is nearer than the rounded one. -/
theorem roundHalfUp_near
    (q : Rat) :
    (roundHalfUp q : Rat) - 1 / 2 ≤ q ∧
      q < roundHalfUp q + 1 / 2 := by
  rcases floor_bounds (q + 1 / 2) with ⟨hBelow, hAbove⟩
  unfold roundHalfUp
  constructor <;> linarith

theorem roundHalfUp_nonneg
    {q : Rat}
    (hNonneg : 0 ≤ q) :
    0 ≤ roundHalfUp q := by
  unfold roundHalfUp
  rw [Rat.le_floor_iff]
  simp only [Int.cast_zero]
  linarith

/- What is less than a half rounds to nothing. -/
theorem roundHalfUp_eq_zero_iff
    {q : Rat}
    (hNonneg : 0 ≤ q) :
    roundHalfUp q = 0 ↔ q < 1 / 2 := by
  rcases roundHalfUp_near q with ⟨hBelow, hAbove⟩
  constructor
  · intro hZero
    rw [hZero] at hAbove
    simpa using hAbove
  · intro hLt
    have hLower : (-1 : Rat) < roundHalfUp q := by
      linarith
    have hUpper : (roundHalfUp q : Rat) < 1 := by
      linarith
    norm_cast at hLower hUpper
    omega

/-
  The quarters in a minute of `bpm` beats,
  but of one beat at least.
-/
def quartersPerMinute
    (bpm : Int)
    (code : String) : Rat :=
  (max bpm 1 : Int) * BeatUnit.quarters code

/- Every tempo has some quarters in a minute. -/
theorem quartersPerMinute_pos
    (bpm : Int)
    (code : String) :
    0 < quartersPerMinute bpm code := by
  have hBeats : (0 : Rat) < (max bpm 1 : Int) := by
    exact_mod_cast
      lt_of_lt_of_le Int.one_pos (le_max_right bpm 1)
  exact mul_pos hBeats (BeatUnit.quarters_pos code)

/-
  A tempo is the rounded quotient, or the greatest there is.
-/
theorem microsecondsPerQuarter_eq
    (bpm : Int)
    (code : String) :
    microsecondsPerQuarter bpm code =
      min
        (roundHalfUp
          (60000000 / quartersPerMinute bpm code))
        maxTempo := by
  have hBeats : (if bpm < 1 then 1 else bpm) = max bpm 1 := by
    split <;> omega
  unfold microsecondsPerQuarter quartersPerMinute
  simp only [hBeats]
  split <;> omega

/-
  A quarter lasts at least no time, and at most as long as a
  tempo can tell.
-/
theorem microsecondsPerQuarter_mem
    (bpm : Int)
    (code : String) :
    0 ≤ microsecondsPerQuarter bpm code ∧
      microsecondsPerQuarter bpm code ≤ maxTempo := by
  have hQuotient : 0 ≤ 60000000 / quartersPerMinute bpm code :=
    div_nonneg (by norm_num) (quartersPerMinute_pos bpm code).le
  have hRounded := roundHalfUp_nonneg hQuotient
  have hCap : 0 ≤ maxTempo := by
    decide
  rw [microsecondsPerQuarter_eq]
  omega

/-
  A quarter that is not capped lasts as long as the tempo
  says, but for rounding.
-/
theorem microsecondsPerQuarter_near
    {bpm : Int}
    {code : String}
    (hUncapped : microsecondsPerQuarter bpm code ≠ maxTempo) :
    |(microsecondsPerQuarter bpm code : Rat) -
      60000000 / quartersPerMinute bpm code| ≤
      1 / 2 := by
  have hRounded :
      microsecondsPerQuarter bpm code =
        roundHalfUp
          (60000000 / quartersPerMinute bpm code) := by
    rw [microsecondsPerQuarter_eq] at hUncapped ⊢
    omega
  rcases roundHalfUp_near
      (60000000 / quartersPerMinute bpm code) with
    ⟨hBelow, hAbove⟩
  rw [hRounded, abs_le]
  constructor <;> linarith

/-
  Nothing is left of a quarter if a minute has more than 120
  million of them.
-/
theorem microsecondsPerQuarter_eq_zero_iff
    {bpm : Int}
    {code : String} :
    microsecondsPerQuarter bpm code = 0 ↔
      120000000 < quartersPerMinute bpm code := by
  have hQuarters := quartersPerMinute_pos bpm code
  have hQuotient : 0 ≤ 60000000 / quartersPerMinute bpm code :=
    div_nonneg (by norm_num) hQuarters.le
  have hCap : 0 < maxTempo := by
    decide
  calc
    microsecondsPerQuarter bpm code = 0 ↔
      roundHalfUp (60000000 / quartersPerMinute bpm code) =
        0 := by
        have hRounded := roundHalfUp_nonneg hQuotient
        rw [microsecondsPerQuarter_eq]
        omega
    _ ↔ 60000000 / quartersPerMinute bpm code < 1 / 2 :=
      roundHalfUp_eq_zero_iff hQuotient
    _ ↔ 120000000 < quartersPerMinute bpm code := by
        rw [div_lt_iff₀ hQuarters]
        constructor <;> intro hLt <;> linarith

end LyricScore
