import Mathlib.Data.List.Basic
import LyricScore.Proofs.Outcome
import LyricScore.Text.Numeral

/-
  This file tells what is read of the digits `0` to `9`, and
  what is written with them.  Such digits alone are read
  without a sign, and no number is written with zeros before
  it.

  Key definitions include:
    * `Numeral.IsCanonical`

  Key theorems include:
    * `Numeral.read_of_ascii`, `Numeral.exists_read_of_ascii`
    * `Numeral.nonneg_of_read`
    * `Numeral.isCanonical_toDigits`
    * `Numeral.natural_injective`
    * `Numeral.integer_injective`
-/

namespace LyricScore

namespace DecimalDigit

variable {c : Char}

theorem toNat_of_isAscii
    (hAscii : isAscii c = true) :
    0x30 ≤ c.toNat ∧ c.toNat ≤ 0x39 := by
  simpa [isAscii, Char.le_def, UInt32.le_iff_toNat_le] using
    hAscii

/- The digits `0` to `9` have values. -/
theorem exists_value?_of_isAscii
    (hAscii : isAscii c = true) :
    ∃ d, value? c = some d := by
  have hRange := toNat_of_isAscii hAscii
  exact ⟨c.toNat - 0x30, by simp [value?, zeros, hRange]⟩

/- The digits `0` to `9` are not blank. -/
theorem isBlank_of_isAscii
    (hAscii : isAscii c = true) :
    Blank.isBlank c = false := by
  have hRange := toNat_of_isAscii hAscii
  simp [Blank.isBlank, Blank.ranges]
  omega

theorem isAscii_of_isDigit
    (hDigit : c.isDigit = true) :
    isAscii c = true := by
  simpa [isAscii, Char.isDigit, Char.le_def,
    UInt32.le_iff_toNat_le]
    using hDigit

end DecimalDigit

namespace Numeral

variable {cs : List Char}

------------------------------------------------------------
-- Reading
------------------------------------------------------------

theorem exists_takeDigits_of_ascii
    (hAscii : ∀ c ∈ cs, DecimalDigit.isAscii c = true)
    (afterDigit : Bool) :
    ∃ digits,
      takeDigits afterDigit cs = some (digits, []) ∧
        digits.length = cs.length := by
  induction cs generalizing afterDigit with
  | nil =>
      exact ⟨[], rfl, rfl⟩
  | cons c cs ih =>
      obtain ⟨d, hValue⟩ :=
        DecimalDigit.exists_value?_of_isAscii
          (hAscii c List.mem_cons_self)
      obtain ⟨digits, hDigits, hLength⟩ :=
        ih
          (fun x hMember => hAscii x (.tail c hMember)) true
      refine ⟨d :: digits, ?_, congrArg (· + 1) hLength⟩
      simp only [takeDigits, hValue, hDigits, Option.map_some]

/- Of the digits `0` to `9` all are read, and no sign. -/
theorem read_of_ascii
    {text : String}
    (hSome : text.toList ≠ [])
    (hAscii :
      ∀ c ∈ text.toList, DecimalDigit.isAscii c = true) :
    ∃ digits,
      digits.length = text.toList.length ∧
        read text =
          (ofDigits digits).map fun n : Nat =>
            (n : Int) := by
  obtain ⟨digits, hDigits, hLength⟩ :=
    exists_takeDigits_of_ascii hAscii false
  cases hText : text.toList with
  | nil =>
      exact absurd hText hSome
  | cons c rest =>
      rw [hText] at hAscii hDigits hLength
      have hHead := hAscii c List.mem_cons_self
      have hTrim :
          Blank.trimStart (c :: rest) = c :: rest :=
        List.dropWhile_cons_of_neg
          (by simp [DecimalDigit.isBlank_of_isAscii hHead])
      have hSign :
          takeSign (c :: rest) = (false, c :: rest) := by
        unfold takeSign
        split
        · simp_all [DecimalDigit.isAscii]
        · simp_all [DecimalDigit.isAscii]
        · rfl
      refine ⟨digits, hLength, ?_⟩
      cases digits with
      | nil =>
          cases hLength
      | cons d digits =>
          simp only [read, hText, hTrim, hSign, hDigits,
            List.all_nil, if_true, Bool.false_eq_true,
            if_false]
          cases ofDigits (d :: digits) <;> rfl

/-
  A number that the digits `0` to `9` write
  within the limit is read.
-/
theorem exists_read_of_ascii
    {text : String}
    (hSome : text.toList ≠ [])
    (hAscii : ∀ c ∈ text.toList, DecimalDigit.isAscii c = true)
    (hShort : text.toList.length ≤ digitLimit) :
    ∃ n, read text = .ok n := by
  obtain ⟨digits, hLength, hRead⟩ := read_of_ascii hSome hAscii
  have hOver : ¬ digits.length > digitLimit := by
    omega
  refine ⟨DecimalDigit.number digits, ?_⟩
  rw [hRead, ofDigits, if_neg hOver]
  rfl

/- What the digits `0` to `9` write is not negative. -/
theorem nonneg_of_read
    {text : String}
    {n : Int}
    (hSome : text.toList ≠ [])
    (hAscii : ∀ c ∈ text.toList, DecimalDigit.isAscii c = true)
    (hRead : read text = .ok n) :
    0 ≤ n := by
  obtain ⟨digits, -, hDigits⟩ := read_of_ascii hSome hAscii
  rw [hDigits] at hRead
  rcases Outcome.map_eq_ok.mp hRead with ⟨m, -, rfl⟩
  exact Int.natCast_nonneg m

------------------------------------------------------------
-- Writing
------------------------------------------------------------

/-
  Digits with no zero before them, unless
  zero is all there is.
-/
structure IsCanonical
    (cs : List Char) : Prop where
  nonempty : cs ≠ []
  digits : ∀ c ∈ cs, DecimalDigit.isAscii c = true
  leading : '0' ∈ cs.head? → cs = ['0']

/- A positive number starts with a digit that is no zero. -/
theorem zero_not_mem_head?
    {n : Nat}
    (hPositive : 0 < n) :
    '0' ∉ (Nat.toDigits 10 n).head? := by
  induction n using Nat.strongRecOn with
  | ind n ih =>
      rw [Nat.toDigits_eq_if (by decide)]
      by_cases hShort : n < 10
      · rw [if_pos hShort]
        have hTable :
            ∀ d < 10, 0 < d → Nat.digitChar d ≠ '0' := by
          decide
        intro hZero
        exact hTable n hShort hPositive (Option.some.inj hZero)
      · rw [if_neg hShort,
          List.head?_append_of_ne_nil _ Nat.toDigits_ne_nil]
        exact ih (n / 10) (by omega) (by omega)

/- The digits of a natural number are its canonical ones. -/
theorem isCanonical_toDigits
    (n : Nat) :
    IsCanonical (Nat.toDigits 10 n) where
  nonempty := Nat.toDigits_ne_nil
  digits := fun _ hMember =>
    DecimalDigit.isAscii_of_isDigit
      (Nat.isDigit_of_mem_toDigits (by decide) (by decide)
        hMember)
  leading := by
    intro hZero
    rcases Nat.eq_zero_or_pos n with rfl | hPositive
    · exact Nat.toDigits_zero 10
    · exact absurd hZero (zero_not_mem_head? hPositive)

/- A number that is not negative is written canonically. -/
theorem isCanonical_toString
    {n : Int}
    (hNonneg : 0 ≤ n) :
    IsCanonical (toString n).toList := by
  rcases Int.eq_ofNat_of_zero_le hNonneg with ⟨m, rfl⟩
  have hText :
      (toString (m : Int)).toList = Nat.toDigits 10 m :=
    Nat.toList_repr
  rw [hText]
  exact isCanonical_toDigits m

/- No two natural numbers are written alike. -/
theorem natural_injective :
    Function.Injective Nat.repr := by
  intro m n hSame
  have hDigits : Nat.toDigits 10 m = Nat.toDigits 10 n := by
    rw [← Nat.toList_repr, ← Nat.toList_repr, hSame]
  calc
    m = Nat.ofDigitChars 10 (Nat.toDigits 10 m) 0 :=
      Nat.ofDigitChars_ten_toDigits.symm
    _ = Nat.ofDigitChars 10 (Nat.toDigits 10 n) 0 := by
      rw [hDigits]
    _ = n := Nat.ofDigitChars_ten_toDigits

/- No natural number is written with a sign. -/
theorem sign_not_mem_natural
    (n : Nat) :
    '-' ∉ n.repr.toList := by
  intro hMember
  rw [Nat.toList_repr] at hMember
  have hDigit :=
    Nat.isDigit_of_mem_toDigits (by decide) (by decide)
      hMember
  exact absurd hDigit (by decide)

/- No two whole numbers are written alike. -/
theorem integer_injective :
    Function.Injective Int.repr := by
  have hApart (m n : Nat) :
      m.repr ≠ "-" ++ n.repr := by
    intro hSame
    have hSign := sign_not_mem_natural m
    rw [hSame, String.toList_append] at hSign
    exact hSign (List.mem_append_left _ (by decide))
  intro m n hSame
  rw [Int.repr_eq_if, Int.repr_eq_if] at hSame
  by_cases hLeft : 0 ≤ m <;> by_cases hRight : 0 ≤ n
  · rw [if_pos hLeft, if_pos hRight] at hSame
    have hNumber := natural_injective hSame
    omega
  · rw [if_pos hLeft, if_neg hRight] at hSame
    exact absurd hSame (hApart _ _)
  · rw [if_neg hLeft, if_pos hRight] at hSame
    exact absurd hSame.symm (hApart _ _)
  · rw [if_neg hLeft, if_neg hRight] at hSame
    have hTexts := congrArg String.toList hSame
    rw [String.toList_append, String.toList_append] at hTexts
    have hNumber :=
      natural_injective
        (String.toList_injective
          (List.append_cancel_left hTexts))
    omega

end Numeral

end LyricScore
