import LyricScore.Midi.Event
import LyricScore.Proofs.Outcome

/-
  This file tells when an event of a track is made, and which
  event it then is.

  Key definitions include:
    * `MidiEvent.Accepts`
    * `deltaSum`

  Key theorems include:
    * `MidiEvent.make_eq_ok_iff`
    * `MidiEvent.noteOn_eq_ok`
    * `MidiEvent.programChange_eq_ok`
    * `MidiEvent.setTempo_eq_ok`
-/

namespace LyricScore

------------------------------------------------------------
-- Making events
------------------------------------------------------------

namespace MidiEvent

/- The numbers that an event is made of. -/
structure Accepts
    (delta : Int)
    (kind : MidiKind)
    (channel : Int)
    (param1 param2 metaType : Option Int) : Prop where
  delta : 0 ≤ delta ∧ delta ≤ Midi.maxQuantity
  channel : 0 ≤ channel ∧ channel ≤ 15
  param1 : ∀ n ∈ param1, 0 ≤ n ∧ n ≤ 127
  param2 : ∀ n ∈ param2, 0 ≤ n ∧ n ≤ 127
  metaType : kind = .metaEvent → ∃ t ∈ metaType, 0 ≤ t ∧ t ≤ 127

/- A checked number is in its range. -/
theorem check_eq_ok_iff
    {greatest n : Nat}
    {error : Int → MidiError}
    {given : Int} :
    check greatest error given = .ok n ↔
      (0 ≤ given ∧ given ≤ greatest) ∧ given.toNat = n := by
  unfold check
  by_cases hRange : 0 ≤ given ∧ given ≤ ↑greatest
  · rw [if_pos hRange]
    simp [hRange]
  · rw [if_neg hRange]
    simp [hRange]

/-
  A number that may be absent is in its
  range if it is there.
-/
theorem checkSome_eq_ok_iff
    {greatest : Nat}
    {error : Int → MidiError}
    {given : Option Int}
    {n : Option Nat} :
    checkSome greatest error given = .ok n ↔
      (∀ g ∈ given, 0 ≤ g ∧ g ≤ greatest) ∧
        given.map Int.toNat = n := by
  cases given with
  | none =>
      simp [checkSome]
  | some g =>
      simp [checkSome, Outcome.map_eq_ok, check_eq_ok_iff,
        and_assoc]

/- An event is made of acceptable numbers, and holds them. -/
theorem make_eq_ok_iff
    {delta channel : Int}
    {kind : MidiKind}
    {param1 param2 metaType : Option Int}
    {metaData : List UInt8}
    {e : MidiEvent} :
    make delta kind channel param1 param2 metaType
          metaData =
        .ok e ↔
      Accepts delta kind channel param1 param2 metaType ∧
        e =
          ⟨delta.toNat, kind, channel.toNat,
            param1.map Int.toNat, param2.map Int.toNat,
            metaType, metaData⟩ := by
  simp only [make, Outcome.bind_eq_ok, check_eq_ok_iff,
    checkSome_eq_ok_iff]
  constructor
  · rintro
      ⟨_, ⟨hDelta, rfl⟩, _, ⟨hChannel, rfl⟩, _,
        ⟨hFirst, rfl⟩, _, ⟨hSecond, rfl⟩, hMake⟩
    by_cases hMeta :
        kind = MidiKind.metaEvent ∧
          ¬∃ t, t ∈ metaType ∧ 0 ≤ t ∧ t ≤ 127
    · rw [if_pos hMeta] at hMake
      cases hMake
    · rw [if_neg hMeta] at hMake
      simp only [Outcome.pure_eq, Except.ok.injEq] at hMake
      refine ⟨⟨hDelta, hChannel, hFirst, hSecond, ?_⟩,
        hMake.symm⟩
      intro hKind
      exact Classical.not_not.mp fun hNone =>
        hMeta ⟨hKind, hNone⟩
  · rintro ⟨hAccepts, rfl⟩
    refine
      ⟨_, ⟨hAccepts.delta, rfl⟩, _, ⟨hAccepts.channel, rfl⟩, _,
        ⟨hAccepts.param1, rfl⟩, _, ⟨hAccepts.param2, rfl⟩, ?_⟩
    have hMeta :
        ¬
          (kind = .metaEvent ∧
            ¬ ∃ t ∈ metaType, 0 ≤ t ∧ t ≤ 127) := by
      rintro ⟨hKind, hNone⟩
      exact hNone (hAccepts.metaType hKind)
    rw [if_neg hMeta]
    rfl

/- A note that starts has its number and its velocity. -/
theorem noteOn_eq_ok
    {delta note velocity channel : Int}
    {e : MidiEvent}
    (hMake : noteOn delta note velocity channel = .ok e) :
    0 ≤ delta ∧
      e =
        ⟨delta.toNat, .noteOn, channel.toNat,
          some note.toNat, some velocity.toNat, none,
          []⟩ := by
  rcases make_eq_ok_iff.mp hMake with ⟨hAccepts, rfl⟩
  exact ⟨hAccepts.delta.1, rfl⟩

/- A program change has its program. -/
theorem programChange_eq_ok
    {delta program channel : Int}
    {e : MidiEvent}
    (hMake : programChange delta program channel = .ok e) :
    0 ≤ delta ∧
      e =
        ⟨delta.toNat, .programChange, channel.toNat,
          some program.toNat, none, none, []⟩ := by
  rcases make_eq_ok_iff.mp hMake with ⟨hAccepts, rfl⟩
  exact ⟨hAccepts.delta.1, rfl⟩

/- A tempo has its three bytes. -/
theorem setTempo_eq_ok
    {delta tempo : Int}
    {e : MidiEvent}
    (hMake : setTempo delta tempo = .ok e) :
    0 ≤ delta ∧
      e =
        ⟨delta.toNat, .metaEvent, 0, none, none,
          some tempoType, tempoBytes tempo.toNat⟩ := by
  unfold setTempo at hMake
  split at hMake
  · cases hMake
  · split at hMake
    · cases hMake
    · rcases make_eq_ok_iff.mp hMake with ⟨hAccepts, rfl⟩
      exact ⟨hAccepts.delta.1, rfl⟩

end MidiEvent

------------------------------------------------------------
-- Ticks
------------------------------------------------------------

/- How many ticks events last. -/
def deltaSum : List MidiEvent → Nat
  | [] => 0
  | e :: rest => e.delta + deltaSum rest

@[simp] theorem deltaSum_nil :
    deltaSum [] = 0 := rfl

@[simp] theorem deltaSum_cons
    (e : MidiEvent)
    (rest : List MidiEvent) :
    deltaSum (e :: rest) = e.delta + deltaSum rest := rfl

@[simp] theorem deltaSum_append
    (events more : List MidiEvent) :
    deltaSum (events ++ more) =
      deltaSum events + deltaSum more := by
  induction events with
  | nil =>
      simp
  | cons e events ih =>
      simp [ih, Nat.add_assoc]

end LyricScore
