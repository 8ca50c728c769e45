import LyricScore.Manuscript.PitchUnit

/-
  This file defines how the lyric lines of a score are read:
  as single tokens and bracket groups.  The lyric lines of a
  block end with the first written line that ends with a
  barline.

  Key definitions include:
    * `LyricUnit`
    * `LyricUnit.first`, `LyricUnit.last`
    * `readLyricUnit`
    * `readLyricLine`
    * `EndsWithBarline`
    * `readLyricLines`
-/

namespace LyricScore

------------------------------------------------------------
-- Units of lyric lines
------------------------------------------------------------

/-
  What a lyric line is written with: a
  token or a bracket group.
-/
inductive LyricUnit where
  | mark (t : Token)
  | group (g : BracketGroup)
deriving DecidableEq, Repr

namespace LyricUnit

/- The token that a unit starts with. -/
def first : LyricUnit → Token
  | mark t => t
  | group g => g.opening

/- The token that a unit ends with. -/
def last : LyricUnit → Token
  | mark t => t
  | group g => g.closing

/- What is remarked about a unit. -/
def remarks : LyricUnit → List Remark
  | mark _ => []
  | group g => g.remarks

/- A unit that is a barline. -/
def isBarline : LyricUnit → Bool
  | mark t => t.kind = .barline
  | group _ => false

end LyricUnit

/-
  The unit that starts with the token `t`,
  which is no line end.
-/
def readLyricUnit
    (fin : Token)
    (t : Token)
    (rest : List Token) :
      Except Stop (LyricUnit × List Token) :=
  if t.kind = .openBracket then
    match readGroup fin t rest with
    | .error s => .error s
    | .ok (g, after) => .ok (.group g, after)
  else .ok (.mark t, rest)

/- A unit of a lyric line never puts tokens back. -/
theorem length_readLyricUnit_le
    {fin t : Token}
    {ts rest : List Token}
    {unit : LyricUnit}
    (h : readLyricUnit fin t ts = .ok (unit, rest)) :
    rest.length ≤ ts.length := by
  unfold readLyricUnit at h
  by_cases hBracket : t.kind = .openBracket
  · rw [if_pos hBracket] at h
    cases hGroup : readGroup fin t ts with
    | error s =>
        rw [hGroup] at h
        cases h
    | ok step =>
        rw [hGroup] at h
        cases h
        exact Nat.le_of_lt (length_readGroup_lt hGroup)
  · rw [if_neg hBracket] at h
    cases h
    exact Nat.le_refl _

/-
  The units up to the end of the line,
  and what follows them.
-/
def readLyricLine
    (fin : Token)
    (ts : List Token) :
      Except Stop (List LyricUnit × List Token) :=
  match ts with
  | [] => .ok ([], [])
  | t :: rest =>
    if t.kind = .newline then .ok ([], t :: rest)
    else
      match _h : readLyricUnit fin t rest with
      | .error s => .error s
      | .ok (unit, after) =>
          Stop.prepend unit unit.remarks
            (readLyricLine fin after)
termination_by ts.length
decreasing_by
  have := length_readLyricUnit_le _h
  simp only [List.length_cons]
  omega

theorem length_readLyricLine_le
    {fin : Token}
    {ts rest : List Token}
    {units : List LyricUnit}
    (h : readLyricLine fin ts = .ok (units, rest)) :
    rest.length ≤ ts.length := by
  induction ts using readLyricLine.induct fin generalizing
    units with
  | case1 =>
    rw [readLyricLine] at h
    cases h
    exact Nat.le_refl _
  | case2 t us ht =>
    rw [readLyricLine, if_pos ht] at h
    cases h
    exact Nat.le_refl _
  | case3 t us ht s hs =>
    rw [readLyricLine, if_neg ht, hs] at h
    cases h
  | case4 t us ht unit after hu ih =>
    rw [readLyricLine, if_neg ht, hu] at h
    rcases Stop.prepend_eq_ok h with ⟨others, hOthers, rfl⟩
    have h1 := ih hOthers
    have h2 := length_readLyricUnit_le hu
    simp only [List.length_cons]
    omega

/- A line that is not empty takes its first token. -/
theorem length_readLyricLine_lt
    {fin t : Token}
    {ts rest : List Token}
    {units : List LyricUnit}
    (ht : t.kind ≠ .newline)
    (h : readLyricLine fin (t :: ts) = .ok (units, rest)) :
    rest.length < (t :: ts).length := by
  rw [readLyricLine, if_neg ht] at h
  cases hUnit : readLyricUnit fin t ts with
  | error s =>
      rw [hUnit] at h
      cases h
  | ok step =>
      rw [hUnit] at h
      rcases Stop.prepend_eq_ok h with ⟨others, hOthers, rfl⟩
      have h1 := length_readLyricLine_le hOthers
      have h2 := length_readLyricUnit_le hUnit
      simp only [List.length_cons]
      omega

------------------------------------------------------------
-- Lyric lines of a block
------------------------------------------------------------

/- The last unit of a written line is a barline. -/
def EndsWithBarline
    (units : List LyricUnit) : Prop :=
  units.getLast?.any LyricUnit.isBarline = true

instance
    (units : List LyricUnit) :
    Decidable (EndsWithBarline units) := by
  unfold EndsWithBarline
  infer_instance

/-
  The written lines up to the first that ends with a barline,
  or up to an empty line or the end of the text, and what
  follows them.
-/
def readLyricLines
    (fin : Token)
    (ts : List Token) :
    Except Stop (List (List LyricUnit) × List Token) :=
  match ts with
  | [] => .ok ([], [])
  | t :: rest =>
    if _ht : t.kind = .newline then
      if atNewline rest then .ok ([], t :: rest)
      else readLyricLines fin rest
    else
      match _h : readLyricLine fin (t :: rest) with
      | .error s => .error s
      | .ok (units, after) =>
        if EndsWithBarline units then .ok ([units], after)
        else
          Stop.prepend units
            (units.flatMap LyricUnit.remarks)
            (readLyricLines fin after)
termination_by ts.length
decreasing_by
  · simp
  · exact length_readLyricLine_lt _ht _h

/- Lyric lines never put tokens back. -/
theorem length_readLyricLines_le
    {fin : Token}
    {ts rest : List Token}
    {lines : List (List LyricUnit)}
    (h : readLyricLines fin ts = .ok (lines, rest)) :
    rest.length ≤ ts.length := by
  induction ts using readLyricLines.induct fin generalizing
    lines with
  | case1 =>
    rw [readLyricLines] at h
    cases h
    exact Nat.le_refl _
  | case2 t us ht hn =>
    rw [readLyricLines, dif_pos ht, if_pos hn] at h
    cases h
    exact Nat.le_refl _
  | case3 t us ht hn ih =>
    rw [readLyricLines, dif_pos ht, if_neg hn] at h
    have := ih h
    simp only [List.length_cons]
    omega
  | case4 t us ht s hs =>
    rw [readLyricLines, dif_neg ht, hs] at h
    cases h
  | case5 t us ht units after hu he =>
    rw [readLyricLines, dif_neg ht, hu] at h
    simp only [if_pos he] at h
    cases h
    exact Nat.le_of_lt (length_readLyricLine_lt ht hu)
  | case6 t us ht units after hu he ih =>
    rw [readLyricLines, dif_neg ht, hu] at h
    simp only [if_neg he] at h
    rcases Stop.prepend_eq_ok h with ⟨others, hOthers, rfl⟩
    have h1 := ih hOthers
    have h2 := length_readLyricLine_lt ht hu
    omega

/-
  Lyric lines that do not start with a
  line end take a token.
-/
theorem length_readLyricLines_lt
    {fin t : Token}
    {ts rest : List Token}
    {lines : List (List LyricUnit)}
    (ht : t.kind ≠ .newline)
    (h : readLyricLines fin (t :: ts) = .ok (lines, rest)) :
    rest.length < (t :: ts).length := by
  rw [readLyricLines, dif_neg ht] at h
  cases hLine : readLyricLine fin (t :: ts) with
  | error s =>
      rw [hLine] at h
      cases h
  | ok step =>
      have hlt := length_readLyricLine_lt ht hLine
      rw [hLine] at h
      by_cases hEnds : EndsWithBarline step.1
      · simp only [if_pos hEnds] at h
        cases h
        exact hlt
      · simp only [if_neg hEnds] at h
        rcases Stop.prepend_eq_ok h with ⟨others, hOthers, rfl⟩
        exact Nat.lt_of_le_of_lt
          (length_readLyricLines_le hOthers) hlt

end LyricScore
