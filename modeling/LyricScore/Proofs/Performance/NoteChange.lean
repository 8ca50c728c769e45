import Mathlib.Data.Finset.Basic
import Mathlib.Data.Finset.Lattice.Lemmas
import Mathlib.Data.List.Nodup
import LyricScore.Midi.Event

/-
  This file defines starts and stops of notes in a list of
  events, and which of them are out of turn: starts of notes
  that sound, and stops of notes that do not.

  Key definitions include:
    * `NoteChange`, `noteChanges`
    * `soundingBehind`
    * `restarts`, `idleStops`
    * `StopsBetween`
    * `repeats`

  Key theorems include:
    * `mem_soundingBehind_iff`
    * `stopsBetween_iff`
    * `count_restarts`
    * `restarts_starts`
-/

namespace LyricScore

------------------------------------------------------------
-- Starts and stops
------------------------------------------------------------

/- A note that starts or stops. -/
inductive NoteChange where
  | start (note : Nat)
  | stop (note : Nat)
deriving DecidableEq, Repr

namespace NoteChange

/- The note that starts. -/
def started? : NoteChange → Option Nat
  | start note => some note
  | stop _ => none

/- The note that stops. -/
def stopped? : NoteChange → Option Nat
  | start _ => none
  | stop note => some note

/- The sounding notes behind a change. -/
def apply
    (notes : Finset Nat) : NoteChange → Finset Nat
  | start note => insert note notes
  | stop note => notes.erase note

end NoteChange

/-
  A note starts at a velocity above zero, and stops at the
  velocity zero.
-/
def MidiEvent.noteChange?
    (e : MidiEvent) : Option NoteChange :=
  match e.kind, e.param1, e.param2 with
  | .noteOn, some note, some velocity =>
      some
        (if 0 < velocity then .start note else .stop note)
  | _, _, _ => none

/- The starts and stops among events, in order. -/
def noteChanges
    (events : List MidiEvent) : List NoteChange :=
  events.filterMap MidiEvent.noteChange?

/- The notes that start, one entry for each start. -/
def startedNotes
    (cs : List NoteChange) : List Nat :=
  cs.filterMap NoteChange.started?

/- The notes that stop, one entry for each stop. -/
def stoppedNotes
    (cs : List NoteChange) : List Nat :=
  cs.filterMap NoteChange.stopped?

/- The sounding notes behind changes. -/
def soundingBehind
    (notes : Finset Nat)
    (cs : List NoteChange) : Finset Nat :=
  cs.foldl NoteChange.apply notes

/- The notes that start while they sound, in order. -/
def restarts
    (notes : Finset Nat) : List NoteChange → List Nat
  | [] => []
  | .start n :: rest =>
      (if n ∈ notes then [n] else []) ++
        restarts (insert n notes) rest
  | .stop n :: rest => restarts (notes.erase n) rest

/- The notes that stop while they do not sound, in order. -/
def idleStops
    (notes : Finset Nat) : List NoteChange → List Nat
  | [] => []
  | .start n :: rest => idleStops (insert n notes) rest
  | .stop n :: rest =>
      (if n ∈ notes then [] else [n]) ++
        idleStops (notes.erase n) rest

/- Between two starts of a note it stops. -/
def StopsBetween
    (cs : List NoteChange) : Prop :=
  ∀ before between after n,
    cs =
        before ++
          .start n :: (between ++ .start n :: after) →
      .stop n ∈ between

section Changes

variable (notes : Finset Nat)
variable (cs more : List NoteChange)

/- Changes behind others change what these leave sounding. -/
theorem soundingBehind_append :
    soundingBehind notes (cs ++ more) =
      soundingBehind (soundingBehind notes cs) more := by
  simp [soundingBehind]

/-
  Notes start again behind others if they
  sound where these end.
-/
theorem restarts_append :
    restarts notes (cs ++ more) =
      restarts notes cs ++
        restarts (soundingBehind notes cs) more := by
  induction cs generalizing notes with
  | nil =>
      rfl
  | cons c cs ih =>
      cases c <;>
        simp [restarts, ih, soundingBehind,
          NoteChange.apply]

/-
  Stops behind others are idle if their notes do not sound
  where these end.
-/
theorem idleStops_append :
    idleStops notes (cs ++ more) =
      idleStops notes cs ++
        idleStops (soundingBehind notes cs) more := by
  induction cs generalizing notes with
  | nil =>
      rfl
  | cons c cs ih =>
      cases c <;>
        simp [idleStops, ih, soundingBehind,
          NoteChange.apply]

/-
  A start that nothing stops is the first
  change or a later one.
-/
theorem exists_start_cons
    {c : NoteChange}
    {n : Nat} :
    (∃ before after,
        c :: cs = before ++ .start n :: after ∧
          .stop n ∉ after) ↔
      c = .start n ∧ .stop n ∉ cs ∨
        ∃ before after,
          cs = before ++ .start n :: after ∧
            .stop n ∉ after := by
  constructor
  · rintro ⟨_ | ⟨d, before⟩, after, hSame, hStop⟩
    · cases hSame
      exact Or.inl ⟨rfl, hStop⟩
    · cases hSame
      exact Or.inr ⟨before, after, rfl, hStop⟩
  · rintro (⟨rfl, hStop⟩ | ⟨before, after, rfl, hStop⟩)
    · exact ⟨[], cs, rfl, hStop⟩
    · exact ⟨c :: before, after, rfl, hStop⟩

/-
  A note sounds if it has not stopped since
  it sounded or started.
-/
theorem mem_soundingBehind_iff
    {n : Nat} :
    n ∈ soundingBehind notes cs ↔
      n ∈ notes ∧ .stop n ∉ cs ∨
        ∃ before after,
          cs = before ++ .start n :: after ∧
            .stop n ∉ after := by
  induction cs generalizing notes with
  | nil =>
      simp [soundingBehind]
  | cons c cs ih =>
      have hRest :
          n ∈ soundingBehind notes (c :: cs) ↔
            n ∈ soundingBehind (c.apply notes) cs :=
        Iff.rfl
      rw [hRest, ih, exists_start_cons, List.mem_cons, not_or]
      cases c with
      | start note =>
          simp only [NoteChange.apply, Finset.mem_insert,
            NoteChange.start.injEq, reduceCtorEq,
            not_false_eq_true, true_and, eq_comm (a := n)]
          tauto
      | stop note =>
          simp only [NoteChange.apply, Finset.mem_erase,
            NoteChange.stop.injEq, reduceCtorEq, false_and,
            false_or, ne_eq]
          tauto

/- No note starts again just if none starts that sounds. -/
theorem restarts_eq_nil_iff :
    restarts notes cs = [] ↔
      ∀ before after n,
        cs = before ++ .start n :: after →
          n ∉ soundingBehind notes before := by
  induction cs generalizing notes with
  | nil =>
      simp [restarts]
  | cons c cs ih =>
      have hRest :
          restarts (c.apply notes) cs = [] ↔
            ∀ before after n,
              c :: cs = c :: before ++ .start n :: after →
                n ∉ soundingBehind notes (c :: before) := by
        rw [ih]
        simp [soundingBehind]
      have hFirst :
          restarts notes (c :: cs) = [] ↔
            (∀ n, c = .start n → n ∉ notes) ∧
              restarts (c.apply notes) cs = [] := by
        cases c <;> simp [restarts, NoteChange.apply]
      rw [hFirst, hRest]
      constructor
      · rintro ⟨hHere, hLater⟩ before after n hSame
        cases before with
        | nil =>
            exact hHere n (List.cons.inj hSame).1
        | cons d before =>
            rcases List.cons.inj hSame with ⟨rfl, -⟩
            exact hLater before after n hSame
      · intro hAll
        constructor
        · rintro n rfl
          exact hAll [] cs n rfl
        · intro before after n hSame
          exact hAll (c :: before) after n hSame

/-
  Notes stop between their starts if none starts while it
  sounds, and only then.
-/
theorem stopsBetween_iff :
    StopsBetween cs ↔ restarts ∅ cs = [] := by
  rw [restarts_eq_nil_iff]
  constructor
  · intro hStops before after n hSame hSounds
    rcases (mem_soundingBehind_iff ∅ before).mp hSounds with
      ⟨hEmpty, -⟩ | ⟨first, between, rfl, hNone⟩
    · cases hEmpty
    rw [List.append_assoc, List.cons_append] at hSame
    exact hNone (hStops first between after n hSame)
  · intro hNone before between after n hSame
    by_contra hOpen
    apply hNone (before ++ .start n :: between) after n
    · rw [hSame, List.append_assoc, List.cons_append]
    · exact (mem_soundingBehind_iff ∅ _).mpr
        (Or.inr ⟨before, between, rfl, hOpen⟩)

/- The balance of a note over one change. -/
theorem count_restarts_singleton
    (c : NoteChange)
    (n : Nat) :
    (if n ∈ notes then 1 else 0) +
        (startedNotes [c]).count n +
        (idleStops notes [c]).count n =
      (stoppedNotes [c]).count n +
        (restarts notes [c]).count n +
        if n ∈ c.apply notes then 1 else 0 := by
  cases c with
  | start note =>
      have hStarted : startedNotes [.start note] = [note] := rfl
      have hStopped : stoppedNotes [.start note] = [] := rfl
      by_cases hSame : note = n
      · subst hSame
        by_cases hSounds : note ∈ notes <;>
          simp [hStarted, hStopped, restarts, idleStops,
            NoteChange.apply, hSounds]
      · by_cases hSounds : note ∈ notes <;>
          simp [hStarted, hStopped, restarts, idleStops,
            NoteChange.apply, hSounds, hSame, Ne.symm hSame]
  | stop note =>
      have hStarted : startedNotes [.stop note] = [] := rfl
      have hStopped : stoppedNotes [.stop note] = [note] := rfl
      by_cases hSame : note = n
      · subst hSame
        by_cases hSounds : note ∈ notes <;>
          simp [hStarted, hStopped, restarts, idleStops,
            NoteChange.apply, hSounds]
      · by_cases hSounds : note ∈ notes <;>
          simp [hStarted, hStopped, restarts, idleStops,
            NoteChange.apply, hSounds, hSame, Ne.symm hSame]

/-
  The balance of a note: what sounded or started has stopped,
  still sounds, or was lost as it started while it sounded;
  idle stops are on the other side.
-/
theorem count_restarts
    (n : Nat) :
    (if n ∈ notes then 1 else 0) +
        (startedNotes cs).count n +
        (idleStops notes cs).count n =
      (stoppedNotes cs).count n +
        (restarts notes cs).count n +
        if n ∈ soundingBehind notes cs then 1 else 0 := by
  induction cs generalizing notes with
  | nil =>
      exact Nat.add_comm _ 0
  | cons c cs ih =>
      have hStarted :
          startedNotes ([c] ++ cs) =
            startedNotes [c] ++ startedNotes cs :=
        List.filterMap_append
      have hStopped :
          stoppedNotes ([c] ++ cs) =
            stoppedNotes [c] ++ stoppedNotes cs :=
        List.filterMap_append
      have hHere := count_restarts_singleton notes c n
      have hRest := ih (c.apply notes)
      have hIdle := idleStops_append notes [c] cs
      have hRestarts := restarts_append notes [c] cs
      have hBehind := soundingBehind_append notes [c] cs
      have hStep :
          soundingBehind notes [c] = c.apply notes :=
        rfl
      rw [hStep] at hIdle hRestarts hBehind
      rw [← List.singleton_append, hStarted, hStopped,
        hIdle, hRestarts, hBehind]
      simp only [List.count_append]
      omega

end Changes

------------------------------------------------------------
-- Notes together
------------------------------------------------------------

/-
  The entries of a list that stand in it
  before, or among others.
-/
def repeats
    (seen : List Nat) : List Nat → List Nat
  | [] => []
  | n :: rest =>
      (if n ∈ seen then [n] else []) ++
        repeats (n :: seen) rest

/-
  Nothing is repeated just if all are
  apart and none was seen.
-/
theorem repeats_eq_nil_iff
    {seen ns : List Nat} :
    repeats seen ns = [] ↔ ns.Nodup ∧ ∀ n ∈ ns, n ∉ seen := by
  induction ns generalizing seen with
  | nil =>
      simp [repeats]
  | cons n ns ih =>
      simp only [repeats, List.append_eq_nil_iff, ih,
        List.nodup_cons, List.mem_cons, not_or,
        forall_eq_or_imp]
      constructor
      · rintro ⟨hFirst, hNodup, hApart⟩
        refine
          ⟨⟨fun hMember => (hApart n hMember).1 rfl,
              hNodup⟩,
            ?_, fun m hMember => (hApart m hMember).2⟩
        intro hSeen
        simp [hSeen] at hFirst
      · rintro ⟨⟨hOnce, hNodup⟩, hFirst, hApart⟩
        refine ⟨by simp [hFirst], hNodup,
          fun m hMember => ⟨?_, hApart m hMember⟩⟩
        rintro rfl
        exact hOnce hMember

/-
  Notes that start one by one start again
  just if they are repeated.
-/
theorem restarts_starts
    (seen ns : List Nat) :
    restarts seen.toFinset (ns.map .start) =
      repeats seen ns := by
  induction ns generalizing seen with
  | nil =>
      rfl
  | cons n ns ih =>
      rw [List.map_cons, restarts, repeats,
        ← List.toFinset_cons, ih]
      simp only [List.mem_toFinset]

/- Stops let no note start again. -/
theorem restarts_stops
    (notes : Finset Nat)
    (ns : List Nat) :
    restarts notes (ns.map .stop) = [] := by
  induction ns generalizing notes with
  | nil =>
      rfl
  | cons n ns ih =>
      exact ih _

/- Starts stop nothing. -/
theorem idleStops_starts
    (notes : Finset Nat)
    (ns : List Nat) :
    idleStops notes (ns.map .start) = [] := by
  induction ns generalizing notes with
  | nil =>
      rfl
  | cons n ns ih =>
      exact ih _

/- Sounding notes that stop once each do not stop in vain. -/
theorem idleStops_stops
    {notes : Finset Nat}
    {ns : List Nat}
    (hNodup : ns.Nodup)
    (hSound : ∀ n ∈ ns, n ∈ notes) :
    idleStops notes (ns.map .stop) = [] := by
  induction ns generalizing notes with
  | nil =>
      rfl
  | cons n ns ih =>
      rcases List.nodup_cons.mp hNodup with ⟨hOnce, hRest⟩
      have hLater : ∀ m ∈ ns, m ∈ notes.erase n := by
        intro m hMember
        rw [Finset.mem_erase]
        exact ⟨fun hSame => hOnce (hSame ▸ hMember),
          hSound m (.tail n hMember)⟩
      rw [List.map_cons, idleStops,
        if_pos (hSound n List.mem_cons_self),
        ih hRest hLater]
      rfl

end LyricScore
