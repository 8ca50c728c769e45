import LyricScore.Midi.Error

/-
  This file defines variable-length quantities: numbers in
  groups of seven bits, the most significant group first.
  All bytes but the last have the high bit.

  Key definitions include:
    * `Quantity.leading`
    * `Quantity.bytes`
    * `Quantity.encode`
-/

namespace LyricScore

namespace Quantity

/-
  The bytes before the last: groups with the
  high bit, none of a zero.
-/
def leading
    (n : Nat) : List UInt8 :=
  if n = 0 then []
  else leading (n / 128) ++ [UInt8.ofNat (n % 128 + 128)]

/- The bytes of a number. -/
def bytes
    (n : Nat) : List UInt8 :=
  leading (n / 128) ++ [UInt8.ofNat (n % 128)]

/- The bytes of a number that fits four of them. -/
def encode
    (n : Int) : Except MidiError (List UInt8) :=
  if 0 ≤ n ∧ n ≤ Midi.maxQuantity then .ok (bytes n.toNat)
  else .error (.quantity n)

end Quantity

end LyricScore
