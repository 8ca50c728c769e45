import Mathlib.Algebra.Order.Field.Rat
import Mathlib.Tactic.Linarith
import LyricScore.Proofs.Drawing.Figure

/-
  This file tells how far the commands of a block reach when
  it is drawn with exact fractions: they are moved down
  together until none reaches above the top, and the size of
  the block holds all of them.

  Key definitions include:
    * `DrawCommand.LiesInside`
    * `DrawCommand.IsShaped`
    * `BlockLayout.unmoved`

  Key theorems include:
    * `DrawCommand.top_moved`
    * `DrawCommand.IsShaped.liesInside`
    * `BlockLayout.moved_finish`
    * `BlockLayout.liesInside_finish`
-/

namespace LyricScore

------------------------------------------------------------
-- Exact fractions
------------------------------------------------------------

namespace Coordinate

theorem nat_eq_cast
    (n : Nat) :
    (nat n : Rat) = n := by
  show mkRat n 1 = n
  simp [Rat.mkRat_one]

theorem greater_eq_max
    (a b : Rat) :
    greater a b = max a b := by
  show (if decide (a < b) = true then b else a) = max a b
  rw [max_def_lt]
  simp only [decide_eq_true_eq]

theorem less_eq_min
    (a b : Rat) :
    less a b = min a b := by
  show (if decide (b < a) = true then b else a) = min a b
  rw [min_comm, min_def_lt]
  simp only [decide_eq_true_eq]

/- The greatest of several numbers is below none of them. -/
theorem le_greatest
    (a : Rat)
    (others : List Rat) :
    a ≤ greatest a others ∧
      ∀ x ∈ others, x ≤ greatest a others := by
  induction others generalizing a with
  | nil =>
      exact ⟨le_refl a, by simp⟩
  | cons x others ih =>
      have hStep :
          greatest a (x :: others) =
            greatest (max a x) others := by
        rw [← greater_eq_max]
        rfl
      rcases ih (max a x) with ⟨hFirst, hOthers⟩
      rw [hStep, List.forall_mem_cons]
      exact ⟨(le_max_left a x).trans hFirst,
        (le_max_right a x).trans hFirst, hOthers⟩

/- The least of several numbers is above none of them. -/
theorem least_le
    (a : Rat)
    (others : List Rat) :
    least a others ≤ a ∧ ∀ x ∈ others, least a others ≤ x := by
  induction others generalizing a with
  | nil =>
      exact ⟨le_refl a, by simp⟩
  | cons x others ih =>
      have hStep :
          least a (x :: others) =
            least (min a x) others := by
        rw [← less_eq_min]
        rfl
      rcases ih (min a x) with ⟨hFirst, hOthers⟩
      rw [hStep, List.forall_mem_cons]
      exact ⟨hFirst.trans (min_le_left a x),
        hFirst.trans (min_le_right a x), hOthers⟩

end Coordinate

theorem LayoutSettings.positive_iff
    {x : Rat} :
    Positive x ↔ 0 < x := by
  show decide (Coordinate.nat 0 < x) = true ↔ 0 < x
  rw [Coordinate.nat_eq_cast]
  simp

theorem LayoutSettings.notNegative_iff
    {x : Rat} :
    NotNegative x ↔ 0 ≤ x := by
  show decide (Coordinate.nat 0 ≤ x) = true ↔ 0 ≤ x
  rw [Coordinate.nat_eq_cast]
  simp

theorem LayoutSettings.textWidth_eq
    (s : LayoutSettings Rat)
    (text : String) :
    s.textWidth text = s.fontWidth * text.length := by
  show Coordinate.nat text.length * s.fontWidth =
    s.fontWidth * text.length
  rw [Coordinate.nat_eq_cast, mul_comm]

------------------------------------------------------------
-- Commands inside a block
------------------------------------------------------------

namespace DrawCommand

/-
  A command below the top of its block, and inside its width
  and height.  Nothing is said about its left end.
-/
structure LiesInside
    (s : LayoutSettings Rat)
    (width height : Rat)
    (c : DrawCommand Rat) : Prop where
  top : 0 ≤ c.y ∧ ∀ y2 ∈ c.y2, 0 ≤ y2
  bottom : c.y ≤ height ∧ ∀ y2 ∈ c.y2, y2 ≤ height
  right : c.x ≤ width ∧ ∀ x2 ∈ c.x2, x2 ≤ width
  text :
    c.primitive = .text →
      ∃ text,
        c.text = some text ∧
          0 ≤ c.y - s.fontHeight ∧
          c.x + s.fontWidth * text.length ≤ width
  circle :
    c.primitive = .circle →
      ∃ r,
        c.r = some r ∧
          0 ≤ c.y - r ∧
          c.y + r ≤ height ∧
          c.x + r ≤ width

/-
  What commands of a block have: a text its text, and a
  circle its radius.
-/
def IsShaped
    (c : DrawCommand Rat) : Prop :=
  match c.primitive with
  | .text =>
      (∃ text, c.text = some text) ∧
        c.x2 = none ∧
        c.y2 = none
  | .circle =>
      (∃ r, c.r = some r ∧ 0 < r) ∧
        c.x2 = none ∧
        c.y2 = none
  | .line => True
  | .rect => False

theorem IsShaped.moved
    {c : DrawCommand Rat}
    (hShaped : c.IsShaped)
    (dx dy : Rat) :
    (c.moved dx dy).IsShaped := by
  unfold IsShaped at *
  have hPrimitive :
      (c.moved dx dy).primitive = c.primitive :=
    rfl
  rw [hPrimitive]
  split at hShaped
  · rcases hShaped with ⟨hText, hX, hY⟩
    exact ⟨hText, by simp [DrawCommand.moved, hX],
      by simp [DrawCommand.moved, hY]⟩
  · rcases hShaped with ⟨hRadius, hX, hY⟩
    exact ⟨hRadius, by simp [DrawCommand.moved, hX],
      by simp [DrawCommand.moved, hY]⟩
  · exact hShaped
  · exact hShaped

theorem x_moved
    (c : DrawCommand Rat)
    (dy : Rat) :
    (c.moved 0 dy).x = c.x :=
  add_zero c.x

theorem map_add_zero
    (x : Option Rat) :
    x.map (· + 0) = x := by
  simp

theorem x2_moved
    (c : DrawCommand Rat)
    (dy : Rat) :
    (c.moved 0 dy).x2 = c.x2 :=
  map_add_zero c.x2

/- A command that is not moved is the command itself. -/
theorem moved_zero
    (c : DrawCommand Rat) :
    c.moved 0 0 = c := by
  have hY : (c.moved 0 0).y = c.y := add_zero c.y
  have hY2 : (c.moved 0 0).y2 = c.y2 := map_add_zero c.y2
  show
    { c with
      x := (c.moved 0 0).x, y := (c.moved 0 0).y,
      x2 := (c.moved 0 0).x2, y2 := (c.moved 0 0).y2 } = c
  rw [x_moved, x2_moved, hY, hY2]

/- What is moved down reaches as much less high. -/
theorem top_moved
    (s : LayoutSettings Rat)
    (c : DrawCommand Rat)
    (dx dy : Rat) :
    (c.moved dx dy).top s = c.top s + dy := by
  cases hPrimitive : c.primitive with
  | text =>
      simp only [top, moved, hPrimitive]
      exact add_sub_right_comm c.y dy s.fontHeight
  | circle =>
      simp only [top, moved, hPrimitive]
      exact add_sub_right_comm c.y dy _
  | _ =>
      simp only [top, moved, hPrimitive, Coordinate.less_eq_min]
      cases c.y2 with
      | none =>
          simp
      | some y2 =>
          exact min_add_add_right c.y y2 dy

/-
  A command lies inside if its upper,
  lower and right end do.
-/
theorem IsShaped.liesInside
    {s : LayoutSettings Rat}
    {c : DrawCommand Rat}
    (hShaped : c.IsShaped)
    (hWidth : 0 < s.fontWidth)
    (hHeight : 0 < s.fontHeight)
    {width height : Rat}
    (hTop : 0 ≤ c.top s)
    (hBottom : c.bottom ≤ height)
    (hRight : c.right s ≤ width) :
    c.LiesInside s width height := by
  cases hPrimitive : c.primitive with
  | text =>
      simp only [IsShaped, hPrimitive] at hShaped
      rcases hShaped with ⟨⟨text, hText⟩, hX2, hY2⟩
      have hUpper : 0 ≤ c.y - s.fontHeight := by
        simpa only [top, hPrimitive] using hTop
      have hLower : c.y ≤ height := by
        simpa [bottom, hPrimitive, hY2,
          Coordinate.greater_eq_max]
          using hBottom
      have hEnd : c.x + s.fontWidth * text.length ≤ width := by
        simpa only [right, hPrimitive, hText,
          Option.getD_some, s.textWidth_eq]
          using hRight
      have hLength : 0 ≤ s.fontWidth * text.length :=
        mul_nonneg hWidth.le (Nat.cast_nonneg _)
      exact
        { top := ⟨by linarith, by simp [hY2]⟩
          bottom := ⟨hLower, by simp [hY2]⟩
          right := ⟨by linarith, by simp [hX2]⟩
          text := fun _ => ⟨text, hText, hUpper, hEnd⟩
          circle := by simp [hPrimitive] }
  | circle =>
      simp only [IsShaped, hPrimitive] at hShaped
      rcases hShaped with ⟨⟨r, hRadius, hPositive⟩, hX2, hY2⟩
      have hUpper : 0 ≤ c.y - r := by
        simpa only [top, hPrimitive, hRadius,
          Option.getD_some]
          using hTop
      have hLower : c.y + r ≤ height := by
        simpa only [bottom, hPrimitive, hRadius,
          Option.getD_some]
          using hBottom
      have hEnd : c.x + r ≤ width := by
        simpa only [right, hPrimitive, hRadius,
          Option.getD_some]
          using hRight
      exact
        { top := ⟨by linarith, by simp [hY2]⟩
          bottom := ⟨by linarith, by simp [hY2]⟩
          right := ⟨by linarith, by simp [hX2]⟩
          text := by simp [hPrimitive]
          circle := fun _ =>
            ⟨r, hRadius, hUpper, hLower, hEnd⟩ }
  | line =>
      simp only [top, hPrimitive, Coordinate.less_eq_min,
        le_min_iff] at hTop
      simp only [bottom, hPrimitive,
        Coordinate.greater_eq_max, max_le_iff] at hBottom
      simp only [right, hPrimitive,
        Coordinate.greater_eq_max, max_le_iff] at hRight
      have hEnd
          {own : Rat}
          {other : Option Rat}
          {P : Rat → Prop}
          (hOther : P (other.getD own)) :
          ∀ x ∈ other, P x := by
        rintro x rfl
        exact hOther
      exact
        { top := ⟨hTop.1, hEnd hTop.2⟩
          bottom := ⟨hBottom.1, hEnd hBottom.2⟩
          right := ⟨hRight.1, hEnd hRight.2⟩
          text := by simp [hPrimitive]
          circle := by simp [hPrimitive] }
  | rect =>
      simp only [IsShaped, hPrimitive] at hShaped

end DrawCommand

/- Whatever draws a figure is shaped. -/
theorem Figure.Draws.isShaped
    {s : LayoutSettings Rat}
    (hRadius : 0 < s.counterRadius)
    {f : Figure}
    {c : DrawCommand Rat}
    (hDraws : f.Draws s c) :
    c.IsShaped := by
  cases f with
  | guide =>
      rcases hDraws with ⟨endX, octaves, rfl⟩
      exact trivial
  | tempo bpm =>
      rcases hDraws with ⟨x, text, -, rfl⟩
      exact ⟨⟨text, rfl⟩, rfl, rfl⟩
  | barline =>
      rcases hDraws with ⟨p, rfl⟩
      exact trivial
  | lyric text =>
      rcases hDraws with ⟨x, rfl⟩
      exact ⟨⟨text, rfl⟩, rfl, rfl⟩
  | octave number =>
      rcases hDraws with ⟨x, text, -, rfl⟩
      exact ⟨⟨text, rfl⟩, rfl, rfl⟩
  | letter v reference =>
      rcases hDraws with ⟨x, y, -, rfl⟩
      exact ⟨⟨v.tone.letter.name, rfl⟩, rfl, rfl⟩
  | circle key =>
      rcases hDraws with ⟨x, rfl⟩
      exact ⟨⟨s.counterRadius, rfl, hRadius⟩, rfl, rfl⟩
  | counter key label =>
      rcases hDraws with ⟨x, text, -, rfl⟩
      exact ⟨⟨text, rfl⟩, rfl, rfl⟩

/-
  Every command that draws a figure has
  the shape of its kind.
-/
theorem isShaped_of_draws
    {s : LayoutSettings Rat}
    (hRadius : 0 < s.counterRadius)
    {figures : List Figure}
    {drawn : List (DrawCommand Rat)}
    (hDraws : List.Forall₂ (Figure.Draws s) figures drawn) :
    ∀ c ∈ drawn, c.IsShaped := by
  induction hDraws with
  | nil =>
      simp
  | cons hDraw _ ih =>
      exact List.forall_mem_cons.mpr
        ⟨hDraw.isShaped hRadius, ih⟩

------------------------------------------------------------
-- Finished drawings
------------------------------------------------------------

namespace BlockLayout

/- The commands of a block before they are moved down. -/
def unmoved
    {K : Type}
    [Coordinate K]
    (s : LayoutSettings K)
    (endX : K)
    (drawn : List (DrawCommand K)) : List (DrawCommand K) :=
  lowestGuide s endX :: (upperGuides s endX ++ drawn)

section Finish

variable {s : LayoutSettings Rat}
variable {endX : Rat}
variable {drawn : List (DrawCommand Rat)}

/-
  All commands are moved down together, so far that none
  reaches above the top.
-/
theorem moved_finish
    (s : LayoutSettings Rat)
    (endX : Rat)
    (drawn : List (DrawCommand Rat)) :
    ∃ dy : Rat,
      0 ≤ dy ∧
        (finish s endX drawn).commands =
          (unmoved s endX drawn).map (·.moved 0 dy) ∧
        ∀ c ∈ (finish s endX drawn).commands,
          0 ≤ c.top s := by
  let first := lowestGuide s endX
  let others := upperGuides s endX ++ drawn
  let top :=
    Coordinate.least (first.top s)
      (others.map (DrawCommand.top s))
  have hLeast : ∀ c ∈ unmoved s endX drawn, top ≤ c.top s := by
    rcases Coordinate.least_le (first.top s)
      (others.map (DrawCommand.top s)) with
      ⟨hFirst, hOthers⟩
    rw [List.forall_mem_map] at hOthers
    exact List.forall_mem_cons.mpr ⟨hFirst, hOthers⟩
  have hCommands :
      (finish s endX drawn).commands =
        (unmoved s endX drawn).map
          (·.moved 0 (-min top 0)) := by
    have hLt :
        Coordinate.lt top (Coordinate.nat 0) =
          decide (top < 0) := by
      rw [Coordinate.nat_eq_cast]
      rfl
    have hZero : (Coordinate.nat 0 : Rat) = 0 :=
      Coordinate.nat_eq_cast 0
    simp only [finish]
    rw [hLt, hZero]
    by_cases hAbove : top < 0
    · rw [if_pos (decide_eq_true hAbove), min_eq_left hAbove.le]
      rfl
    · rw [if_neg (by simpa using hAbove),
        min_eq_right (not_lt.mp hAbove), neg_zero]
      simp only [DrawCommand.moved_zero, List.map_id']
      rfl
  refine ⟨-min top 0, by simp, hCommands, ?_⟩
  rw [hCommands, List.forall_mem_map]
  intro c hMember
  rw [DrawCommand.top_moved]
  have hTop := hLeast c hMember
  have hMin := min_le_left top 0
  linarith

/-
  A finished drawing is as wide and as high
  as its commands need.
-/
theorem liesInside_finish
    (hRange : s.InRange)
    (hShaped : ∀ c ∈ drawn, c.IsShaped) :
    ∀ c ∈ (finish s endX drawn).commands,
      c.LiesInside s (finish s endX drawn).width
        (finish s endX drawn).height := by
  rcases moved_finish s endX drawn with ⟨dy, -, hMoved, hTop⟩
  have hRight :
      ∀ c ∈ (finish s endX drawn).commands,
        c.right s ≤ (finish s endX drawn).width :=
    List.forall_mem_map.mp (Coordinate.le_greatest endX _).2
  have hBottom :
      ∀ c ∈ (finish s endX drawn).commands,
        c.bottom ≤ (finish s endX drawn).height :=
    List.forall_mem_map.mp (Coordinate.le_greatest _ _).2
  have hUnmoved : ∀ c ∈ unmoved s endX drawn, c.IsShaped := by
    simp only [unmoved, upperGuides, List.cons_append,
      List.nil_append, List.forall_mem_cons]
    exact ⟨trivial, trivial, trivial, hShaped⟩
  have hAll :
      ∀ c ∈ (finish s endX drawn).commands, c.IsShaped := by
    rw [hMoved, List.forall_mem_map]
    exact fun c hMember => (hUnmoved c hMember).moved 0 dy
  intro c hMember
  exact (hAll c hMember).liesInside
    (LayoutSettings.positive_iff.mp hRange.fontWidth)
    (LayoutSettings.positive_iff.mp hRange.fontHeight)
    (hTop c hMember) (hBottom c hMember) (hRight c hMember)

end Finish

end BlockLayout

end LyricScore
