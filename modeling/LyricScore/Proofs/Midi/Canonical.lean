import Mathlib.Data.List.Induction
import LyricScore.Proofs.Midi.Quantity

/-
  This file tells that a number has one form as a
  variable-length quantity.  A reader that takes as many
  groups as there are reads a number from other forms too,
  but all of those start with a group of zeros.

  Key definitions include:
    * `Quantity.gathered`
    * `Quantity.readAny`

  Key theorems include:
    * `Quantity.readAny_eq_some_iff`
    * `Quantity.leading_gathered`
    * `Quantity.eq_bytes_of_readAny`
    * `Quantity.encode_is_canonical`
-/

namespace LyricScore

namespace Quantity

------------------------------------------------------------
-- Reading any number of groups
------------------------------------------------------------

/-
  The number that groups with the high bit
  write behind the number `n`.
-/
def gathered
    (n : Nat)
    (front : List UInt8) : Nat :=
  front.foldl (fun n b => n * 128 + (b.toNat - 0x80)) n

theorem gathered_cons
    (n : Nat)
    (b : UInt8)
    (front : List UInt8) :
    gathered n (b :: front) =
      gathered (n * 128 + (b.toNat - 0x80)) front := by
  rw [gathered, List.foldl_cons, gathered]

/- The last group counts least. -/
theorem gathered_concat
    (n : Nat)
    (front : List UInt8)
    (b : UInt8) :
    gathered n (front ++ [b]) =
      gathered n front * 128 + (b.toNat - 0x80) := by
  rw [gathered, List.foldl_append, List.foldl_cons,
    List.foldl_nil, gathered]

/-
  The number at the head of some bytes, however many of them
  write it, and what follows it.  The groups read before write
  the number `n`.
-/
def readAny
    (n : Nat) : List UInt8 → Option (Nat × List UInt8)
  | [] => none
  | b :: rest =>
    if b.toNat < 0x80 then some (n * 128 + b.toNat, rest)
    else readAny (n * 128 + (b.toNat - 0x80)) rest

/-
  A reader of so many groups at most reads
  what any reader reads.
-/
theorem readAny_of_readGroups
    {n width : Nat}
    {bytes : List UInt8}
    {found : Nat × List UInt8}
    (hRead : readGroups n width bytes = some found) :
    readAny n bytes = some found := by
  induction width generalizing n bytes with
  | zero =>
      cases hRead
  | succ width ih =>
      cases bytes with
      | nil =>
          cases hRead
      | cons b bytes =>
          rw [readGroups] at hRead
          rw [readAny]
          by_cases hLast : b.toNat < 0x80
          · rw [if_pos hLast] at hRead ⊢
            exact hRead
          · rw [if_neg hLast] at hRead ⊢
            exact ih hRead

/-
  A quantity is the groups with the high bit and the first
  one without it.
-/
theorem readAny_eq_some_iff
    {n m : Nat}
    {bytes rest : List UInt8} :
    readAny n bytes = some (m, rest) ↔
      ∃ front last,
        (∀ b ∈ front, 0x80 ≤ b.toNat) ∧
          last.toNat < 0x80 ∧
          bytes = front ++ last :: rest ∧
          m = gathered n front * 128 + last.toNat := by
  constructor
  · intro hRead
    induction bytes generalizing n with
    | nil =>
        cases hRead
    | cons b bytes ih =>
        rw [readAny] at hRead
        by_cases hLast : b.toNat < 0x80
        · rw [if_pos hLast] at hRead
          cases hRead
          exact ⟨[], b, by simp, hLast, rfl, rfl⟩
        · rw [if_neg hLast] at hRead
          rcases ih hRead with
            ⟨front, last, hFront, hEnd, rfl, hNumber⟩
          rw [← gathered_cons] at hNumber
          refine ⟨b :: front, last, ?_, hEnd, rfl, hNumber⟩
          rw [List.forall_mem_cons]
          exact ⟨by omega, hFront⟩
  · rintro ⟨front, last, hFront, hLast, rfl, rfl⟩
    induction front generalizing n with
    | nil =>
        rw [List.nil_append, readAny, if_pos hLast]
        rfl
    | cons b front ih =>
        rw [List.forall_mem_cons] at hFront
        rw [List.cons_append, readAny, if_neg (by omega),
          ih hFront.2, gathered_cons]

------------------------------------------------------------
-- Forms without a leading group of zeros
------------------------------------------------------------

/- Groups before the last are marked. -/
theorem marked_leading
    {n : Nat}
    {b : UInt8}
    (hMem : b ∈ leading n) :
    0x80 ≤ b.toNat := by
  induction n using leading.induct with
  | case1 =>
      simp [leading] at hMem
  | case2 n hPositive ih =>
      rw [leading, if_neg hPositive, List.mem_append,
        List.mem_singleton] at hMem
      rcases hMem with hMem | rfl
      · exact ih hMem
      · rw [toNat_byte (by omega)]
        omega

theorem leading_eq_nil_iff
    {n : Nat} :
    leading n = [] ↔ n = 0 := by
  rw [leading]
  split <;> simp_all

/- The first group of a number is not zero. -/
theorem head?_leading
    (n : Nat) :
    (leading n).head? ≠ some 0x80 := by
  induction n using leading.induct with
  | case1 =>
      simp [leading]
  | case2 n hPositive ih =>
      rw [leading, if_neg hPositive]
      cases hHead : leading (n / 128) with
      | nil =>
          rw [leading_eq_nil_iff] at hHead
          intro hZero
          have hByte :
              (UInt8.ofNat (n % 128 + 128)).toNat = 0x80 :=
            congrArg UInt8.toNat (Option.some.inj hZero)
          rw [toNat_byte (by omega)] at hByte
          omega
      | cons b front =>
          rw [hHead] at ih
          exact ih

/-
  Groups with the high bit are those of their number, if the
  first is not zero.  The number of groups that others follow
  is not zero then.
-/
theorem leading_gathered
    {front : List UInt8}
    (hMarked : ∀ b ∈ front, 0x80 ≤ b.toNat)
    (hHead : front.head? ≠ some 0x80) :
    leading (gathered 0 front) = front := by
  induction front using List.reverseRecOn with
  | nil =>
      simp [gathered, leading]
  | append_singleton front b ih =>
      rw [List.forall_mem_append,
        List.forall_mem_singleton] at hMarked
      have hFits : b.toNat < 256 := b.toNat_lt
      have hFront : leading (gathered 0 front) = front := by
        cases front with
        | nil =>
            simp [gathered, leading]
        | cons c front =>
            exact ih hMarked.1 hHead
      have hPositive :
          gathered 0 front * 128 + (b.toNat - 0x80) ≠
            0 := by
        cases front with
        | nil =>
            intro hZero
            have hByte : b.toNat = 0x80 := by omega
            exact hHead
              (congrArg some (UInt8.toNat_inj.mp hByte))
        | cons c front =>
            have hSome : gathered 0 (c :: front) ≠ 0 := by
              intro hZero
              rw [hZero, leading_eq_nil_iff.mpr rfl] at hFront
              cases hFront
            omega
      have hQuotient :
          (gathered 0 front * 128 + (b.toNat - 0x80)) /
              128 =
            gathered 0 front := by
        omega
      have hGroup :
          (gathered 0 front * 128 + (b.toNat - 0x80)) %
                128 + 128 =
            b.toNat := by
        omega
      rw [gathered_concat, leading, if_neg hPositive,
        hQuotient, hFront, hGroup, UInt8.ofNat_toNat]

/-
  The bytes of a number are the only ones that read as it
  and do not start with a zero.
-/
theorem eq_bytes_of_readAny
    {n : Nat}
    {other rest : List UInt8}
    (hRead : readAny 0 (other ++ rest) = some (n, rest))
    (hHead : other.head? ≠ some 0x80) :
    other = bytes n := by
  rcases readAny_eq_some_iff.mp hRead with
    ⟨front, last, hMarked, hLast, hSplit, rfl⟩
  rw [List.append_cons] at hSplit
  have hOther := List.append_cancel_right hSplit
  have hFront : front.head? ≠ some 0x80 := by
    cases front with
    | nil =>
        simp
    | cons b front =>
        rw [hOther] at hHead
        exact hHead
  have hQuotient :
      (gathered 0 front * 128 + last.toNat) / 128 =
        gathered 0 front := by
    omega
  have hGroup :
      (gathered 0 front * 128 + last.toNat) % 128 =
        last.toNat := by
    omega
  rw [bytes, hQuotient, hGroup,
    leading_gathered hMarked hFront, UInt8.ofNat_toNat,
    hOther]

------------------------------------------------------------
-- Written quantities
------------------------------------------------------------

/-
  Nothing is written of a number that is negative or too
  great, and the error names it.
-/
theorem encode_eq_error_iff
    {n : Int}
    {e : MidiError} :
    encode n = .error e ↔
      (n < 0 ∨ (Midi.maxQuantity : Int) < n) ∧
        e = .quantity n := by
  unfold encode
  by_cases hRange : 0 ≤ n ∧ n ≤ (Midi.maxQuantity : Int)
  · rw [if_pos hRange]
    simp only [reduceCtorEq, false_iff]
    omega
  · rw [if_neg hRange, Except.error.injEq, eq_comm,
      iff_and_self]
    omega

/- All bytes but the last have the high bit. -/
theorem marked_bytes_iff
    {n i : Nat}
    {b : UInt8}
    (hByte : (bytes n)[i]? = some b) :
    0x80 ≤ b.toNat ↔ i + 1 < (bytes n).length := by
  rw [bytes, List.length_append, List.length_singleton]
  rw [bytes] at hByte
  by_cases hFront : i < (leading (n / 128)).length
  · rw [List.getElem?_append_left hFront] at hByte
    have hMarked := marked_leading (List.mem_of_getElem? hByte)
    omega
  · rw [List.getElem?_append_right
        (Nat.le_of_not_lt hFront),
      List.getElem?_singleton] at hByte
    split at hByte
    · cases hByte
      rw [toNat_byte (by omega)]
      omega
    · cases hByte

/- No encoding starts with a group of zeros. -/
theorem head?_bytes
    (n : Nat) :
    (bytes n).head? ≠ some 0x80 := by
  rw [bytes]
  cases hFront : leading (n / 128) with
  | nil =>
      intro hZero
      have hByte : (UInt8.ofNat (n % 128)).toNat = 0x80 :=
        congrArg UInt8.toNat (Option.some.inj hZero)
      rw [toNat_byte (by omega)] at hByte
      omega
  | cons b front =>
      have hHead := head?_leading (n / 128)
      rw [hFront] at hHead
      exact hHead

/- What fits takes one byte to four. -/
theorem length_bytes
    {n : Nat}
    (hFits : n ≤ Midi.maxQuantity) :
    1 ≤ (bytes n).length ∧ (bytes n).length ≤ 4 := by
  have hLength : (leading (n / 128)).length ≤ 3 := by
    apply length_leading_le
    simp only [Midi.maxQuantity] at hFits
    omega
  rw [bytes, List.length_append, List.length_singleton]
  omega

/-
  A number is refused exactly if it does not fit four groups.
  Any other is written as one byte to four: those with the
  high bit are all but the last, and the first is no group of
  zeros.  Whatever follows them, the number is read back and
  what follows is left.  No other bytes that read as the number
  start with anything but a group of zeros.
-/
theorem encode_is_canonical
    (n : Int) :
    ((∃ e, encode n = .error e) ↔ n < 0 ∨ 0x0FFFFFFF < n) ∧
      (∀ e, encode n = .error e → e = .quantity n) ∧
      (0 ≤ n →
          n ≤ 0x0FFFFFFF →
          ∃ written,
            encode n = .ok written ∧
              (1 ≤ written.length ∧ written.length ≤ 4) ∧
              (∀ i b,
                written[i]? = some b →
                  (0x80 ≤ b.toNat ↔
                    i + 1 < written.length)) ∧
              written.head? ≠ some 0x80 ∧
              (∀ rest,
                read (written ++ rest) =
                    some (n.toNat, rest) ∧
                  readAny 0 (written ++ rest) =
                    some (n.toNat, rest)) ∧
              ∀ other rest,
                readAny 0 (other ++ rest) =
                    some (n.toNat, rest) →
                  other.head? ≠ some 0x80 →
                  other = written) := by
  refine ⟨?_, ?_, ?_⟩
  · simp [encode_eq_error_iff, Midi.maxQuantity]
  · intro e hRefused
    exact (encode_eq_error_iff.mp hRefused).2
  · intro hPositive hMost
    have hFits : n.toNat ≤ Midi.maxQuantity := by
      rw [Midi.maxQuantity]
      omega
    have hWritten : encode n = .ok (bytes n.toNat) :=
      encode_eq_ok_iff.mpr ⟨⟨hPositive, hMost⟩, rfl⟩
    refine ⟨bytes n.toNat, hWritten, length_bytes hFits,
      fun i b => marked_bytes_iff, head?_bytes n.toNat, ?_,
      ?_⟩
    · intro rest
      have hRead := read_bytes hFits rest
      exact ⟨hRead, readAny_of_readGroups hRead⟩
    · intro other rest
      exact eq_bytes_of_readAny

/-
  The least number of four bytes, two of them groups of
  zeros behind the first.
-/
theorem encode_twoMillion :
    encode 0x200000 = .ok [0x81, 0x80, 0x80, 0x00] ∧
      read [0x81, 0x80, 0x80, 0x00, 0xFF, 0x2F] =
        some (0x200000, [0xFF, 0x2F]) ∧
      ∀ other,
        readAny 0 (other ++ [0xFF, 0x2F]) =
            some (0x200000, [0xFF, 0x2F]) →
          other.head? ≠ some 0x80 →
          other = [0x81, 0x80, 0x80, 0x00] := by
  have hBytes :
      encode 0x200000 = .ok [0x81, 0x80, 0x80, 0x00] :=
    encode_eq_ok_iff.mpr ⟨by decide, by decide +kernel⟩
  rcases (encode_is_canonical 0x200000).2.2 (by decide)
    (by decide) with
    ⟨written, hWritten, -, -, -, hRead, hOnly⟩
  rw [hBytes] at hWritten
  cases hWritten
  exact ⟨hBytes, (hRead [0xFF, 0x2F]).1,
    fun other => hOnly other [0xFF, 0x2F]⟩

end Quantity

end LyricScore
