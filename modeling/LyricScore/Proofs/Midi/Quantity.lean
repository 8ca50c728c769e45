import Mathlib.Algebra.Group.Nat.Defs
import LyricScore.Midi.Quantity
import LyricScore.Proofs.Outcome

/-
  This file defines how variable-length quantities are read,
  and shows that what is written is read back, whatever bytes
  follow it.

  Key definitions include:
    * `Quantity.readGroups`
    * `Quantity.read`

  Key theorems include:
    * `Quantity.readGroups_leading`
    * `Quantity.read_bytes`
    * `Quantity.encode_eq_ok_iff`
-/

namespace LyricScore

/- A byte holds every number that fits it. -/
theorem toNat_byte
    {n : Nat}
    (hFits : n < 256) :
    (UInt8.ofNat n).toNat = n := by
  rw [UInt8.toNat_ofNat']
  exact Nat.mod_eq_of_lt hFits

namespace Quantity

------------------------------------------------------------
-- Reading
------------------------------------------------------------

/-
  The number at the head of some bytes, written by at most
  `width` of them, and what follows it.  The groups read
  before write the number `n`.
-/
def readGroups
    (n : Nat) : Nat → List UInt8 → Option (Nat × List UInt8)
  | 0, _ => none
  | _ + 1, [] => none
  | width + 1, b :: rest =>
    if b.toNat < 0x80 then some (n * 128 + b.toNat, rest)
    else readGroups (n * 128 + (b.toNat - 0x80)) width rest

/-
  The number that at most four bytes
  write, and what follows it.
-/
def read
    (bytes : List UInt8) : Option (Nat × List UInt8) :=
  readGroups 0 4 bytes

/- A number takes at least one byte. -/
theorem length_readGroups_lt
    {n m width : Nat}
    {bytes rest : List UInt8}
    (hRead : readGroups n width bytes = some (m, rest)) :
    rest.length < bytes.length := by
  induction width generalizing n bytes with
  | zero =>
      cases hRead
  | succ width ih =>
      cases bytes with
      | nil =>
          cases hRead
      | cons b bytes =>
          rw [readGroups] at hRead
          split at hRead
          · cases hRead
            exact Nat.lt_succ_self _
          · exact Nat.lt_succ_of_lt (ih hRead)

theorem length_read_lt
    {n : Nat}
    {bytes rest : List UInt8}
    (hRead : read bytes = some (n, rest)) :
    rest.length < bytes.length :=
  length_readGroups_lt hRead

------------------------------------------------------------
-- Written and read
------------------------------------------------------------

/-
  The bytes before the last one add their
  groups to what was read.
-/
theorem readGroups_leading
    (n width acc : Nat)
    (rest : List UInt8) :
    readGroups acc (width + (leading n).length)
        (leading n ++ rest) =
      readGroups (acc * 128 ^ (leading n).length + n) width
        rest := by
  induction n using leading.induct generalizing width rest with
  | case1 =>
      simp [leading]
  | case2 n hPositive ih =>
      have hByte :
          (UInt8.ofNat (n % 128 + 128)).toNat =
            n % 128 + 128 :=
        toNat_byte (by omega)
      have hSplit :
          leading n =
            leading (n / 128) ++
              [UInt8.ofNat (n % 128 + 128)] := by
        rw [leading, if_neg hPositive]
      have hWidth :
          width + (leading n).length =
            (width + 1) + (leading (n / 128)).length := by
        rw [hSplit, List.length_append, List.length_singleton]
        omega
      have hNumber :
          (acc * 128 ^ (leading (n / 128)).length +
                  n / 128) * 128 + n % 128 =
            acc * 128 ^ (leading n).length + n := by
        rw [hSplit, List.length_append,
          List.length_singleton, Nat.pow_succ, Nat.add_mul,
          Nat.mul_assoc]
        omega
      rw [hWidth, hSplit, List.append_assoc, ih, ← hSplit,
        List.singleton_append, readGroups, hByte,
        if_neg (by omega), Nat.add_sub_cancel, hNumber]

/-
  A number below a power of 128 has no more
  groups than the power says.
-/
theorem length_leading_le
    {n groups : Nat}
    (hBelow : n < 128 ^ groups) :
    (leading n).length ≤ groups := by
  induction groups generalizing n with
  | zero =>
      have hZero : n = 0 := by omega
      rw [hZero, leading]
      simp
  | succ groups ih =>
      rw [leading]
      split
      · simp
      · have hHead : n / 128 < 128 ^ groups := by
          rw [Nat.pow_succ] at hBelow
          exact Nat.div_lt_of_lt_mul (by omega)
        rw [List.length_append, List.length_singleton]
        exact Nat.succ_le_succ (ih hHead)

/-
  A number is read back from its bytes, and nothing behind
  them is touched.
-/
theorem read_bytes
    {n : Nat}
    (hFits : n ≤ Midi.maxQuantity)
    (rest : List UInt8) :
    read (bytes n ++ rest) = some (n, rest) := by
  have hLength : (leading (n / 128)).length ≤ 3 := by
    apply length_leading_le
    simp only [Midi.maxQuantity] at hFits
    omega
  have hByte : (UInt8.ofNat (n % 128)).toNat = n % 128 :=
    toNat_byte (by omega)
  have hWidth :
      4 =
        (3 - (leading (n / 128)).length + 1) +
          (leading (n / 128)).length := by
    omega
  have hNumber : n / 128 * 128 + n % 128 = n := by omega
  rw [read, bytes, List.append_assoc, hWidth,
    readGroups_leading, Nat.zero_mul, Nat.zero_add,
    List.singleton_append, readGroups, hByte,
    if_pos (by omega), hNumber]

/- A quantity is written just if it fits. -/
theorem encode_eq_ok_iff
    {n : Int}
    {written : List UInt8} :
    encode n = .ok written ↔
      (0 ≤ n ∧ n ≤ Midi.maxQuantity) ∧
        bytes n.toNat = written := by
  unfold encode
  by_cases hRange : 0 ≤ n ∧ n ≤ ↑Midi.maxQuantity
  · rw [if_pos hRange]
    simp [hRange]
  · rw [if_neg hRange]
    simp [hRange]

/- A number that fits is written. -/
theorem encode_of_le
    {n : Nat}
    (hFits : n ≤ Midi.maxQuantity) :
    encode n = .ok (bytes n) :=
  encode_eq_ok_iff.mpr
    ⟨⟨by omega, by exact_mod_cast hFits⟩, rfl⟩

end Quantity

end LyricScore
