/-
  This file runs calls one after the other.  A call is
  answered from a state, and leaves a state for the next, so
  an answer is that of the state behind the calls before.

  Key definitions include:
    * `answersTo`
    * `stateBehind`

  Key theorems include:
    * `getElem?_answersTo`
    * `answersTo_take`
-/

namespace LyricScore

variable {σ κ α : Type}
variable (call : σ → κ → α × σ)

/- The answers to calls in turn. -/
def answersTo
    (s : σ) : List κ → List α
  | [] => []
  | c :: cs => (call s c).1 :: answersTo (call s c).2 cs

/- The state behind calls. -/
def stateBehind
    (s : σ)
    (cs : List κ) : σ :=
  cs.foldl (fun s c => (call s c).2) s

variable (s : σ)
variable (cs : List κ)

theorem stateBehind_concat
    (c : κ) :
    stateBehind call s (cs ++ [c]) =
      (call (stateBehind call s cs) c).2 := by
  simp [stateBehind]

theorem length_answersTo :
    (answersTo call s cs).length = cs.length := by
  induction cs generalizing s with
  | nil =>
      rfl
  | cons c cs ih =>
      rw [answersTo, List.length_cons, ih, List.length_cons]

/- An answer is that of the state behind the calls before. -/
theorem getElem?_answersTo
    (k : Nat) :
    (answersTo call s cs)[k]? =
      cs[k]?.map fun c =>
        (call (stateBehind call s (cs.take k)) c).1 := by
  induction cs generalizing s k with
  | nil =>
      rfl
  | cons c cs ih =>
      cases k with
      | zero =>
          rfl
      | succ k =>
          simp only [answersTo, List.getElem?_cons_succ, ih]
          rfl

/-
  What is answered does not depend on the calls that follow.
-/
theorem answersTo_take
    (k : Nat) :
    answersTo call s (cs.take k) =
      (answersTo call s cs).take k := by
  induction cs generalizing s k with
  | nil =>
      simp [answersTo]
  | cons c cs ih =>
      cases k with
      | zero =>
          rfl
      | succ k =>
          rw [List.take_succ_cons, answersTo, answersTo,
            List.take_succ_cons, ih]

end LyricScore
