import Mathlib.Algebra.Order.Field.Rat
import Mathlib.Tactic.Linarith
import LyricScore.Timing.Rounding

/-
  This file tells rounding by what it is for: the whole number
  that is nearest, and the even one of two that are equally
  near.  What comes later never rounds to an earlier number.

  Key theorems include:
    * `roundHalfEven_near`
    * `roundHalfEven_mono`
-/

namespace LyricScore

theorem floor_bounds
    (q : Rat) :
    (q.floor : Rat) ≤ q ∧ q < q.floor + 1 := by
  have hAbove := Rat.lt_floor_add_one q
  push_cast at hAbove
  exact ⟨Rat.floor_le q, hAbove⟩

/- No whole number is nearer than the rounded one. -/
theorem roundHalfEven_near
    (q : Rat) :
    (roundHalfEven q : Rat) - 1 / 2 ≤ q ∧
      q ≤ roundHalfEven q + 1 / 2 := by
  rcases floor_bounds q with ⟨hBelow, hAbove⟩
  unfold roundHalfEven
  simp only
  split
  · constructor <;> linarith
  · split
    · push_cast
      constructor <;> linarith
    · split
      · constructor <;> linarith
      · push_cast
        constructor <;> linarith

/-
  Rounding keeps order.  Were two numbers rounded the other
  way round, they would be so near that they are the same.
-/
theorem roundHalfEven_mono
    {p q : Rat}
    (hLe : p ≤ q) :
    roundHalfEven p ≤ roundHalfEven q := by
  by_contra hNotLe
  have hApart :
      (roundHalfEven q : Rat) + 1 ≤ roundHalfEven p := by
    exact_mod_cast Int.not_le.mp hNotLe
  have hLower := (roundHalfEven_near p).1
  have hUpper := (roundHalfEven_near q).2
  have hSame : p = q := by linarith
  rw [hSame] at hNotLe
  exact hNotLe (Int.le_refl _)

end LyricScore
