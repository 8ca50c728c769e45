import Mathlib.Data.List.DropRight
import Mathlib.Data.List.Induction
import LyricScore.Pitch.KeySignature
import LyricScore.Proofs.Numeral
import LyricScore.Proofs.Pitch.Calls
import LyricScore.Text.Numeral

/-
  This file tells what a key memory answers behind any calls:
  a written accidental; else the last one that was written for
  the tone in the measure; else that of the key in force.
  Measure and key are read off the calls alone, and no names
  of tones occur there.

  Key definitions include:
    * `KeyCall`
    * `KeyMemory.call`, `KeyMemory.kept?`
    * `KeySignature.implied`
    * `keyInForce`, `lastMark?`
    * `KeyCall.expected`

  Key theorems include:
    * `toneName_inj`
    * `KeySignature.accidentalOf_eq_implied`
    * `KeyMemory.kept?_call`
    * `KeyMemory.answers_recall_history`
-/

namespace LyricScore

------------------------------------------------------------
-- Names of tones
------------------------------------------------------------

theorem Letter.char_injective :
    Function.Injective Letter.char := by
  intro l l' hSame
  have hRead : some l = some l' := by
    rw [← Letter.ofChar?_char, ← Letter.ofChar?_char, hSame]
  exact Option.some.inj hRead

/-
  No two tones have one name, for a letter
  is a single character.
-/
theorem toneName_inj
    {l l' : Letter}
    {octave octave' : Int} :
    toneName l.name octave = toneName l'.name octave' ↔
      l = l' ∧ octave = octave' := by
  constructor
  · intro hSame
    have hTexts := congrArg String.toList hSame
    simp only [toneName, Letter.name, String.toList_append,
      String.toList_ofList, List.cons_append,
      List.nil_append, List.cons.injEq] at hTexts
    rcases hTexts with ⟨hLetter, hOctave⟩
    have hNumbers := String.toList_injective hOctave
    simp only [Int.toString_eq_repr] at hNumbers
    exact ⟨Letter.char_injective hLetter,
      Numeral.integer_injective hNumbers⟩
  · rintro ⟨rfl, rfl⟩
    rfl

------------------------------------------------------------
-- What a key implies
------------------------------------------------------------

namespace KeySignature

/-
  A letter is among the first letters of an order that a key
  alters.  A negative count leaves as many out at the end.
-/
def Alters
    (k : KeySignature)
    (order : List Letter)
    (letter : Letter) : Prop :=
  (order.idxOf letter : Int) <
    if 0 ≤ k.count then k.count else order.length + k.count

instance
    (k : KeySignature)
    (order : List Letter)
    (letter : Letter) :
    Decidable (k.Alters order letter) := by
  unfold Alters
  infer_instance

/- What a key alone implies for a letter. -/
def implied
    (k : KeySignature)
    (letter : Letter) : Accidental :=
  if k.accidental = some .sharp ∧
      k.Alters sharpOrder letter then
    .sharp
  else if k.accidental = some .flat ∧
      k.Alters flatOrder letter then
    .flat
  else .natural

/-
  Among the first letters of an order is a letter just if
  the key alters it.
-/
theorem any_firstLetters
    {order : List Letter}
    {letter : Letter}
    (hMember : letter ∈ order)
    (k : KeySignature) :
    ((firstLetters order k.count).any fun l =>
        l.name == letter.name) =
      decide (k.Alters order letter) := by
  have hNames (l : Letter) :
      (l.name == letter.name) = decide (l = letter) := by
    cases l <;> cases letter <;> decide
  have hFirst :
      letter ∈ firstLetters order k.count ↔
        k.Alters order letter := by
    unfold firstLetters Alters
    split <;> rw [List.mem_take_iff_idxOf_lt hMember] <;> omega
  simp only [hNames]
  rw [← Bool.coe_iff_coe, List.any_eq_true,
    decide_eq_true_iff, ← hFirst]
  simp

/- The accidental of a key is the one that it implies. -/
theorem accidentalOf_eq_implied
    (k : KeySignature)
    (letter : Letter) :
    k.accidentalOf letter.name = k.implied letter := by
  have hSharp : letter ∈ sharpOrder := by cases letter <;>
    decide
  have hFlat : letter ∈ flatOrder := by cases letter <;> decide
  unfold accidentalOf implied
  rcases hSign : k.accidental with _ | sign
  · simp
  · cases sign <;>
      simp [any_firstLetters hSharp, any_firstLetters hFlat]

end KeySignature

------------------------------------------------------------
-- Calls
------------------------------------------------------------

/- What is asked of a key memory. -/
inductive KeyCall where
  | setKey (accidental : Option Accidental) (count : Int)
  | endMeasure
  | resolve (letter : Letter) (octave : Int)
      (written : Option Accidental)
deriving DecidableEq, Repr

namespace KeyMemory

/-
  The answer to a call, and the memory behind it.  A tone
  needs a name, so its octave may not be too long to be
  written; otherwise nothing is answered and nothing changes.
-/
def call
    (m : KeyMemory) :
      KeyCall →
        Except NumeralError (Option Accidental) × KeyMemory
  | .setKey accidental count =>
      (.ok none, m.setKey accidental count)
  | .endMeasure => (.ok none, m.endMeasure)
  | .resolve letter octave written =>
    if Numeral.Writable octave then
      let (accidental, m) :=
        m.resolve letter.name octave written
      (.ok (some accidental), m)
    else (.error .tooLongToWrite, m)

/- The accidental that is kept for a tone. -/
def kept?
    (m : KeyMemory)
    (letter : Letter)
    (octave : Int) : Option Accidental :=
  m.marks.lookup (toneName letter.name octave)

end KeyMemory

------------------------------------------------------------
-- What calls have written
------------------------------------------------------------

namespace KeyCall

/- The accidental that a call writes for a tone. -/
def mark?
    (letter : Letter)
    (octave : Int) : KeyCall → Option Accidental
  | resolve l o written =>
    if l = letter ∧ o = octave ∧ Numeral.Writable o then
      KeyMemory.explicit? written
    else none
  | _ => none

/- The key that a call sets. -/
def signature? : KeyCall → Option KeySignature
  | setKey accidental count => some ⟨accidental, count⟩
  | _ => none

end KeyCall

/- The key that calls have set last. -/
def keyInForce
    (past : List KeyCall) : KeySignature :=
  (past.filterMap KeyCall.signature?).getLast?.getD {}

/- The calls behind the last end of a measure. -/
def measureOf
    (past : List KeyCall) : List KeyCall :=
  past.rtakeWhile (· ≠ .endMeasure)

/-
  The accidental that calls have written last
  for a tone in the measure.
-/
def lastMark?
    (past : List KeyCall)
    (letter : Letter)
    (octave : Int) : Option Accidental :=
  ((measureOf past).filterMap
    (KeyCall.mark? letter octave)).getLast?

/-
  What a call is to answer behind others: the accidental that
  is written; else the last one of the tone in the measure;
  else what the key in force implies for the letter.
-/
def KeyCall.expected
    (past : List KeyCall) :
      KeyCall → Except NumeralError (Option Accidental)
  | resolve letter octave written =>
    if Numeral.Writable octave then
      .ok
        (some
          (((KeyMemory.explicit? written).or
            (lastMark? past letter octave)).getD
            ((keyInForce past).implied letter)))
    else .error .tooLongToWrite
  | _ => .ok none

theorem keyInForce_concat
    (past : List KeyCall)
    (c : KeyCall) :
    keyInForce (past ++ [c]) =
      c.signature?.getD (keyInForce past) := by
  cases hSet : c.signature? <;>
    simp [keyInForce, List.filterMap_append, hSet]

/-
  The last mark of a tone is from the last call, unless that
  ended the measure.
-/
theorem lastMark?_concat
    (past : List KeyCall)
    (c : KeyCall)
    (letter : Letter)
    (octave : Int) :
    lastMark? (past ++ [c]) letter octave =
      if c = .endMeasure then none
      else
        (c.mark? letter octave).or
          (lastMark? past letter octave) := by
  by_cases hEnd : c = .endMeasure
  · simp [lastMark?, measureOf, hEnd]
  · rw [if_neg hEnd, lastMark?, measureOf,
      List.rtakeWhile_concat_pos _ _ _
        (by simpa using hEnd), List.filterMap_append]
    cases hMark : c.mark? letter octave <;>
      simp [lastMark?, measureOf, hMark]

------------------------------------------------------------
-- What is kept
------------------------------------------------------------

namespace KeyMemory

variable (m : KeyMemory)
variable (c : KeyCall)

/-
  What a call changes: the end of a measure forgets all, and a
  written accidental is kept for its own tone.  Nothing else
  is changed, for this tone or for another.
-/
theorem kept?_call
    (letter : Letter)
    (octave : Int) :
    (m.call c).2.kept? letter octave =
      if c = .endMeasure then none
      else
        (c.mark? letter octave).or
          (m.kept? letter octave) := by
  cases c with
  | setKey accidental count =>
      rfl
  | endMeasure =>
      rfl
  | resolve l o written =>
      simp only [call, KeyCall.mark?, reduceCtorEq, if_false]
      by_cases hName : Numeral.Writable o
      · cases hWritten : explicit? written with
        | none =>
            simp [hName, resolve, hWritten]
        | some accidental =>
            by_cases hTone : l = letter ∧ o = octave
            · rcases hTone with ⟨rfl, rfl⟩
              simp [hName, resolve, hWritten, kept?]
            · have hApart :
                  (toneName letter.name octave ==
                      toneName l.name o) =
                    false := by
                rw [beq_eq_false_iff_ne, ne_eq, toneName_inj]
                exact fun hSame =>
                  hTone ⟨hSame.1.symm, hSame.2.symm⟩
              simp [hName, resolve, hWritten, kept?,
                List.lookup_cons, hApart, hTone]
      · simp [hName]

/-
  After a call, the memory has the key that the call set, or
  the one before.
-/
theorem signature_call :
    (m.call c).2.signature = c.signature?.getD m.signature := by
  cases c with
  | resolve letter octave written =>
      simp only [call, resolve]
      cases explicit? written <;> split <;> rfl
  | _ =>
      rfl

/- A memory knows what calls have set and written. -/
structure Recalls
    (past : List KeyCall)
    (m : KeyMemory) : Prop where
  signature : m.signature = keyInForce past
  kept :
    ∀ letter octave,
      m.kept? letter octave = lastMark? past letter octave

variable {m}
variable {past : List KeyCall}

/- After a call, the memory recalls that call too. -/
theorem Recalls.call
    (hRecalls : m.Recalls past)
    (c : KeyCall) :
    (m.call c).2.Recalls (past ++ [c]) := by
  constructor
  · rw [signature_call, keyInForce_concat, hRecalls.signature]
  · intro letter octave
    rw [kept?_call, lastMark?_concat, hRecalls.kept]

/- A new memory that is called knows of all the calls. -/
theorem recalls_stateBehind
    (calls : List KeyCall) :
    (stateBehind call {} calls).Recalls calls := by
  induction calls using List.reverseRecOn with
  | nil =>
      exact ⟨rfl, fun _ _ => rfl⟩
  | append_singleton calls c ih =>
      rw [stateBehind_concat]
      exact ih.call c

/-
  A memory that knows of calls answers the next one by them.
-/
theorem Recalls.answer
    (hRecalls : m.Recalls past)
    (c : KeyCall) :
    (m.call c).1 = c.expected past := by
  cases c with
  | resolve letter octave written =>
      have hKept :
          m.marks.lookup (toneName letter.name octave) =
            _ :=
        hRecalls.kept letter octave
      simp only [KeyMemory.call, KeyCall.expected, resolve,
        hKept, KeySignature.accidentalOf_eq_implied,
        hRecalls.signature]
      cases explicit? written <;> split <;> rfl
  | _ =>
      rfl

/-
  A key memory goes by its history.  Each answer is that of
  the calls before it: what is written, what was last written
  for the same letter and octave in the measure, or what the
  key set last implies.  What is kept is what was written
  last; a call that writes nothing, and a change of key, leave
  all of it, and one that writes leaves every other tone.
-/
theorem answers_recall_history
    (calls : List KeyCall) :
    (∀ k : Nat,
        (answersTo call {} calls)[k]? =
          calls[k]?.map (KeyCall.expected (calls.take k))) ∧
      (∀ letter octave,
        (stateBehind call {} calls).kept? letter octave =
          lastMark? calls letter octave) ∧
      ∀ (m : KeyMemory) (c : KeyCall) (letter : Letter)
        (octave : Int),
        (m.call c).2.kept? letter octave =
          if c = .endMeasure then none
          else
            (c.mark? letter octave).or
              (m.kept? letter octave) := by
  refine ⟨?_, (recalls_stateBehind calls).kept, kept?_call⟩
  intro k
  rw [getElem?_answersTo]
  exact congrArg (calls[k]?.map ·)
    (funext (recalls_stateBehind (calls.take k)).answer)

/-
  A key is set in a measure with a flat of its own, which goes
  on for its octave alone and is gone behind the barline.
-/
example :
    answersTo call {}
        [.setKey (some .sharp) 2,
          .resolve .f 4 (some .flat),
          .setKey (some .flat) 1, .resolve .f 4 none,
          .resolve .f (-4) none, .endMeasure,
          .resolve .f 4 none, .resolve .b 4 none] =
      [.ok none, .ok (some .flat), .ok none,
        .ok (some .flat), .ok (some .natural), .ok none,
        .ok (some .natural), .ok (some .flat)] := by
  decide +kernel

end KeyMemory

end LyricScore
