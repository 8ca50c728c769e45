import Mathlib.Data.List.TakeWhile
import LyricScore.Proofs.Pitch.Calls
import LyricScore.Proofs.Stream.Segment

/-
  This file tells what calls take from a pitch stream, in
  whatever order they are made.  What they take, one after
  the other, is the stream from its start, and what they leave
  is the rest of it.

  Key definitions include:
    * `CursorCall`
    * `CursorAnswer`
    * `PitchStream.call`
    * `PitchStream.takes`
    * `PitchStream.takings`

  Key theorems include:
    * `PitchStream.takes_append_call`
    * `PitchStream.takings_append_stateBehind`
    * `PitchStream.calls_take_stream_in_turn`
-/

namespace LyricScore

------------------------------------------------------------
-- Calls
------------------------------------------------------------

/- What is asked of a pitch stream. -/
inductive CursorCall where
  | peek
  | advance
  | attack
  | passBarline
deriving DecidableEq, Repr

/-
  What is answered: an item if there is one, what an attack
  receives, or how many items were dropped.
-/
inductive CursorAnswer where
  | item (next : Option PitchItem)
  | delivery (received : Delivery)
  | count (dropped : Nat)
deriving DecidableEq, Repr

namespace PitchStream

/- The answer to a call, and what is left behind it. -/
def call
    (s : PitchStream) : CursorCall → CursorAnswer × PitchStream
  | .peek => (.item s.peek, s)
  | .advance => (.item s.advance.1, s.advance.2)
  | .attack => (.delivery s.attack.1, s.attack.2)
  | .passBarline => (.count s.passBarline.1, s.passBarline.2)

/- The items before the next barline. -/
def beforeBarline
    (s : PitchStream) : List PitchItem :=
  s.takeWhile fun item => !item.isBarline

/- The next barline and what follows it. -/
def fromBarline
    (s : PitchStream) : PitchStream :=
  s.dropWhile fun item => !item.isBarline

/-
  The items that a call takes: none to look at one; the one
  that is answered; the directives that are handed out and the
  pitch or chord that follows them; or the items that are
  dropped and the barline that is passed.
-/
def takes
    (s : PitchStream) : CursorCall → List PitchItem
  | .peek => []
  | .advance => s.advance.1.toList
  | .attack =>
      s.attack.1.handed.map .directive ++
        s.attack.1.element.toList.map .sounding
  | .passBarline => s.beforeBarline ++ s.fromBarline.peek.toList

/- The items that calls take, by calls. -/
def takings
    (s : PitchStream)
    (cs : List CursorCall) : List (List PitchItem) :=
  answersTo (fun s c => (s.takes c, (s.call c).2)) s cs

------------------------------------------------------------
-- One call
------------------------------------------------------------

theorem isExhausted_iff
    (s : PitchStream) :
    s.isExhausted = true ↔ s = [] := by
  cases s <;> simp [isExhausted]

/- There is no barline before the first one. -/
theorem not_barline_mem_beforeBarline
    (s : PitchStream) :
    .barline ∉ s.beforeBarline := by
  intro hMem
  rw [beforeBarline] at hMem
  have hOther := List.mem_takeWhile_imp hMem
  cases hOther

/- The next barline is a barline, or nothing is left. -/
theorem fromBarline_cases
    (s : PitchStream) :
    s.fromBarline = [] ∨
      ∃ left, s.fromBarline = .barline :: left := by
  cases hFrom : s.fromBarline with
  | nil =>
      exact .inl rfl
  | cons item left =>
      have hStop :=
        List.head?_dropWhile_not
          (fun item => !item.isBarline) s
      rw [← fromBarline, hFrom] at hStop
      cases item with
      | barline =>
          exact .inr ⟨left, rfl⟩
      | _ =>
          simp [PitchItem.isBarline] at hStop

/- Passing a barline counts what is dropped before it. -/
theorem passBarline_eq
    (s : PitchStream) :
    s.passBarline =
      (s.beforeBarline.length, s.fromBarline.tail) := by
  induction s with
  | nil =>
      rfl
  | cons item s ih =>
      cases item with
      | barline =>
          rfl
      | _ =>
          simp [passBarline, ih, beforeBarline, fromBarline,
            PitchItem.isBarline]

/-
  What an attack takes comes first, and
  what is left comes next.
-/
theorem attack_append
    (s : PitchStream) :
    s.takes .attack ++ s.attack.2 = s := by
  induction s with
  | nil =>
      rfl
  | cons item s ih =>
      cases item with
      | directive d =>
          simp only [takes] at ih
          simp only [takes, attack, List.map_cons,
            List.cons_append, ih]
      | _ =>
          rfl

/- What is passed comes first, and what is left comes next. -/
theorem passBarline_append
    (s : PitchStream) :
    s.takes .passBarline ++ s.passBarline.2 = s := by
  have hWhole : s.beforeBarline ++ s.fromBarline = s :=
    List.takeWhile_append_dropWhile
  have hBarline :
      s.fromBarline.peek.toList ++ s.fromBarline.tail =
        s.fromBarline := by
    cases s.fromBarline <;> rfl
  rw [takes, passBarline_eq, List.append_assoc, hBarline,
    hWhole]

/- What a call takes and what it leaves are the stream. -/
theorem takes_append_call
    (s : PitchStream)
    (c : CursorCall) :
    s.takes c ++ (s.call c).2 = s := by
  cases c with
  | peek =>
      rfl
  | advance =>
      cases s <;> rfl
  | attack =>
      exact attack_append s
  | passBarline =>
      exact passBarline_append s

/-
  An attack takes nothing where no pitch, chord
  or directive comes next.
-/
theorem attack_of_stop
    {s : PitchStream}
    (hStop : s.peek = none ∨ s.peek = some .barline) :
    s.attack = ({}, s) := by
  cases s with
  | nil =>
      rfl
  | cons item s =>
      have hBarline : item = .barline := by
        simpa [peek] using hStop
      rw [hBarline, attack]

/- Attacks pass no barline. -/
theorem not_barline_mem_takes_attack
    (s : PitchStream) :
    .barline ∉ s.takes .attack := by
  simp [takes]

/-
  Passing takes up to the next barline, or to the end if
  there is none.
-/
theorem takes_passBarline
    (s : PitchStream) :
    s.takes .passBarline = s.beforeBarline ++ [.barline] ∨
      s.takes .passBarline = s.beforeBarline ∧
        s.passBarline.2 = [] := by
  rcases fromBarline_cases s with hEnd | ⟨left, hFrom⟩
  · refine .inr ⟨?_, ?_⟩
    · rw [takes, hEnd, peek, Option.toList_none,
        List.append_nil]
    · rw [passBarline_eq, hEnd, List.tail_nil]
  · refine .inl ?_
    rw [takes, hFrom, peek, Option.toList_some]

------------------------------------------------------------
-- Calls in turn
------------------------------------------------------------

theorem takings_cons
    (s : PitchStream)
    (c : CursorCall)
    (cs : List CursorCall) :
    s.takings (c :: cs) =
      s.takes c :: takings (s.call c).2 cs :=
  rfl

/-
  What calls take in turn and what they
  leave are the stream.
-/
theorem takings_append_stateBehind
    (s : PitchStream)
    (cs : List CursorCall) :
    (s.takings cs).flatten ++ stateBehind call s cs = s := by
  induction cs generalizing s with
  | nil =>
      rfl
  | cons c cs ih =>
      have hRest :
          (takings (s.call c).2 cs).flatten ++
              stateBehind call s (c :: cs) =
            (s.call c).2 :=
        ih (s.call c).2
      rw [takings_cons, List.flatten_cons,
        List.append_assoc, hRest, takes_append_call]

/-
  What a call takes it takes from the stream behind the
  calls before.
-/
theorem getElem?_takings
    (s : PitchStream)
    (cs : List CursorCall)
    (k : Nat) :
    (s.takings cs)[k]? =
      cs[k]?.map (takes (stateBehind call s (cs.take k))) :=
  getElem?_answersTo (fun s c => (takes s c, (call s c).2))
    s cs k

/-
  What calls take from a stream.  In turn they take the stream
  from its start, each item once and in order, and the stream
  is exhausted just if they took all of it.  Behind any calls
  before it, looking takes nothing; neither does an attack
  that stands before a barline or at the end.  Only advancing
  and passing take a barline; passing drops the items before
  the next one, counts them, and takes that barline as well,
  or all that is left if there is none.
-/
theorem calls_take_stream_in_turn
    (s : PitchStream)
    (cs : List CursorCall) :
    (s.takings cs).flatten ++ stateBehind call s cs = s ∧
      ((stateBehind call s cs).isExhausted = true ↔
        (s.takings cs).flatten = s) ∧
      ∀ (k : Nat) (c : CursorCall),
        cs[k]? = some c →
          ∃ t : PitchStream,
            t = stateBehind call s (cs.take k) ∧
              (s.takings cs)[k]? = some (t.takes c) ∧
              (answersTo call s cs)[k]? =
                some (t.call c).1 ∧
              (c = .peek →
                t.takes c = [] ∧
                  t.call c = (.item t.peek, t)) ∧
              (c = .attack →
                t.peek = none ∨ t.peek = some .barline →
                t.takes c = [] ∧
                  t.call c = (.delivery {}, t)) ∧
              (.barline ∈ t.takes c →
                c = .advance ∨ c = .passBarline) ∧
              (c = .passBarline →
                .barline ∉ t.beforeBarline ∧
                  (t.call c).1 =
                    .count t.beforeBarline.length ∧
                  (t.takes c =
                      t.beforeBarline ++ [.barline] ∨
                    t.takes c = t.beforeBarline ∧
                      (t.call c).2 = [])) := by
  have hWhole := takings_append_stateBehind s cs
  refine ⟨hWhole, ?_, ?_⟩
  · rw [isExhausted_iff]
    constructor
    · intro hEnd
      rwa [hEnd, List.append_nil] at hWhole
    · intro hAll
      rwa [hAll, List.append_right_eq_self] at hWhole
  · intro k c hCall
    refine ⟨stateBehind call s (cs.take k), rfl, ?_, ?_, ?_,
      ?_, ?_, ?_⟩
    · rw [getElem?_takings, hCall, Option.map_some]
    · rw [getElem?_answersTo, hCall, Option.map_some]
    · rintro rfl
      exact ⟨rfl, rfl⟩
    · rintro rfl hStop
      rw [takes, call, attack_of_stop hStop]
      exact ⟨rfl, rfl⟩
    · intro hBarline
      cases c with
      | peek =>
          cases hBarline
      | attack =>
          exact absurd hBarline (not_barline_mem_takes_attack _)
      | advance =>
          exact .inl rfl
      | passBarline =>
          exact .inr rfl
    · rintro rfl
      refine ⟨not_barline_mem_beforeBarline _, ?_,
        takes_passBarline _⟩
      rw [call, passBarline_eq]

/-
  Two measures, the first with an octave before its pitch
  and a key behind it.
-/
def overtaken : PitchStream :=
  [.directive ⟨.referenceOctave 5, {}⟩,
    .sounding (.pitch { letter := .c }),
    .directive ⟨.key (some .sharp) 3, {}⟩, .barline,
    .sounding (.pitch { letter := .e }), .barline]

/- What six calls take of it, in turn. -/
theorem overtaken_taken_in_turn :
    overtaken.takings
          [.attack, .passBarline, .attack, .attack,
            .passBarline, .advance] =
        [[.directive ⟨.referenceOctave 5, {}⟩,
            .sounding (.pitch { letter := .c })],
          [.directive ⟨.key (some .sharp) 3, {}⟩, .barline],
          [.sounding (.pitch { letter := .e })], [],
          [.barline], []] ∧
      (answersTo call overtaken
          [.attack, .passBarline, .attack, .attack,
            .passBarline, .advance])[1]? =
        some (.count 1) ∧
      (stateBehind call overtaken
        [.attack, .passBarline, .attack, .attack,
          .passBarline, .advance]).isExhausted =
        true := by
  rcases calls_take_stream_in_turn overtaken
    [.attack, .passBarline, .attack, .attack, .passBarline,
      .advance] with
    ⟨-, hExhausted, hCalls⟩
  rcases hCalls 1 .passBarline rfl with
    ⟨t, rfl, -, hAnswer, -, -, -, hPassed⟩
  refine ⟨by decide, ?_, hExhausted.mpr (by decide)⟩
  rw [hAnswer, (hPassed rfl).2.1]
  decide

end PitchStream

end LyricScore
