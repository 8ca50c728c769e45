import LyricScore.Performance.Action
import LyricScore.Proofs.Outcome
import LyricScore.Proofs.Timing.Timeline

/-
  This file tells in one lemma for each of its steps what a
  player does: which actions, and which player it is behind
  them.  All steps of a slot happen at one time and change no
  more of the player than loudness and sounding notes.

  Key definitions include:
    * `Directive.level?`, `Directive.program?`
    * `velocityAfter`
    * `soundingAfter`

  Key theorems include:
    * `Player.followAllPitches_eq`
    * `Player.frame_followLyrics`
    * `Player.strikeAll_eq_ok`
    * `Player.attack_eq_ok`
    * `Player.sound_eq_ok`
-/

namespace LyricScore

------------------------------------------------------------
-- Directives of the pitch stream
------------------------------------------------------------

namespace Directive

/- The loudness that a directive asks for. -/
def level?
    (d : Directive) : Option Int :=
  match d.order with
  | .volume level => some (clamp 0 100 level)
  | _ => none

/- The program that a directive asks for. -/
def program?
    (d : Directive) : Option Int :=
  match d.order with
  | .instrument program => some (clamp 0 127 (program - 1))
  | _ => none

end Directive

/-
  The loudness behind directives: the
  last that is asked for.
-/
def velocityAfter
    (velocity : Int)
    (ds : List Directive) : Int :=
  (ds.filterMap Directive.level?).getLast?.getD velocity

theorem velocityAfter_append
    (velocity : Int)
    (ds more : List Directive) :
    velocityAfter velocity (ds ++ more) =
      velocityAfter (velocityAfter velocity ds) more := by
  simp only [velocityAfter, List.filterMap_append,
    List.getLast?_append]
  cases (more.filterMap Directive.level?).getLast? <;> simp

namespace Player

/-
  Pitch directives change the program at once, and the
  loudness for what follows.
-/
theorem followAllPitches_eq
    (p : Player)
    (ds : List Directive) :
    p.followAllPitches ds =
      ((ds.filterMap Directive.program?).map fun n =>
          p.act (.program n),
        { p with
          velocity := velocityAfter p.velocity ds }) := by
  induction ds generalizing p with
  | nil =>
      rfl
  | cons d ds ih =>
      have hVelocity :
          velocityAfter p.velocity (d :: ds) =
            velocityAfter (velocityAfter p.velocity [d]) ds :=
        velocityAfter_append p.velocity [d] ds
      rw [followAllPitches, hVelocity]
      cases hOrder : d.order <;>
        simp [followPitches, hOrder, ih, velocityAfter,
          Directive.level?, Directive.program?, act]

end Player

------------------------------------------------------------
-- Directives of the lyric stream
------------------------------------------------------------

namespace Player

/-
  A directive changes the note value and tempos, and is at
  most heard as a tempo.
-/
theorem frame_followLyrics
    {p q : Player}
    {d : Directive}
    {done : List Action}
    (hFollow : p.followLyrics d = (done, q)) :
    q =
        { p with
          bpm := q.bpm, unit := d.unitAfter p.unit,
          tempo := q.tempo } ∧
      ∀ a ∈ done, ∃ tempo, a = p.act (.tempo tempo) := by
  cases hOrder : d.order with
  | tempo bpm =>
      simp only [followLyrics, hOrder, updateTempo,
        Directive.unitAfter] at hFollow ⊢
      split at hFollow
      · cases hFollow
        simp
      · cases hFollow
        simp [act]
  | beatUnit code =>
      simp only [followLyrics, hOrder, updateTempo,
        Directive.unitAfter] at hFollow ⊢
      split at hFollow
      · cases hFollow
        simp
      · cases hFollow
        simp [act]
  | _ =>
      simp only [followLyrics, hOrder] at hFollow
      cases hFollow
      simp [hOrder, Directive.unitAfter]

end Player

------------------------------------------------------------
-- Notes
------------------------------------------------------------

/-
  The sounding notes when voices have been
  struck on top of others.
-/
def soundingAfter
    (sounding : List Int)
    (voices : List Voice) : List Int :=
  voices.foldl
    (fun notes v =>
      if v.note ∈ notes then notes else notes ++ [v.note])
    sounding

/-
  What sounds behind voices sounded
  before or is one of them.
-/
theorem mem_soundingAfter
    {note : Int}
    {sounding : List Int}
    {voices : List Voice} :
    note ∈ soundingAfter sounding voices ↔
      note ∈ sounding ∨ ∃ v ∈ voices, v.note = note := by
  induction voices generalizing sounding with
  | nil =>
      simp [soundingAfter]
  | cons v voices ih =>
      have hStep :
          soundingAfter sounding (v :: voices) =
            soundingAfter
              (if v.note ∈ sounding then
                  sounding
                else sounding ++ [v.note]) voices :=
        rfl
      have hFirst :
          note ∈
              (if v.note ∈ sounding then
                  sounding
                else sounding ++ [v.note]) ↔
            note ∈ sounding ∨ v.note = note := by
        by_cases hMember : v.note ∈ sounding
        · rw [if_pos hMember]
          refine ⟨Or.inl, ?_⟩
          rintro (hOld | rfl)
          · exact hOld
          · exact hMember
        · rw [if_neg hMember]
          simp [eq_comm]
      rw [hStep, ih, hFirst]
      simp [or_assoc]

namespace Player

/-
  Voices struck one by one sound at once, as
  loud as the player is.
-/
theorem strikeAll_eq_ok
    {p q : Player}
    {voices : List Voice}
    {done : List Action}
    (hStrike : p.strikeAll voices = .ok (done, q)) :
    done =
        voices.map (fun v =>
          p.act
            (.strike v (velocityOfPercent p.velocity))) ∧
      q =
        { p with
          sounding :=
            soundingAfter p.sounding voices } := by
  induction voices generalizing p done with
  | nil =>
      simp only [strikeAll, Except.ok.injEq,
        Prod.mk.injEq] at hStrike
      rcases hStrike with ⟨rfl, rfl⟩
      exact ⟨rfl, rfl⟩
  | cons v voices ih =>
      simp only [strikeAll, Outcome.bind_eq_ok,
        Outcome.pure_eq, Except.ok.injEq,
        Prod.mk.injEq] at hStrike
      rcases hStrike with
        ⟨⟨first, r⟩, hFirst, ⟨more, q⟩, hMore, rfl, rfl⟩
      unfold strike at hFirst
      split at hFirst
      · simp only [Except.ok.injEq, Prod.mk.injEq] at hFirst
        rcases hFirst with ⟨rfl, rfl⟩
        rcases ih hMore with ⟨rfl, rfl⟩
        constructor
        · split <;> rfl
        · simp only [soundingAfter, List.foldl_cons]
          split <;> rfl
      · cases hFirst

/-
  An attack follows its directives, releases what sounds and
  strikes its voices with the loudness that then holds.
-/
theorem attack_eq_ok
    {p q : Player}
    {a : Attack}
    {done : List Action}
    (hAttack : p.attack a = .ok (done, q)) :
    let velocity := velocityAfter p.velocity a.delivery.handed
    done =
        (a.delivery.handed.filterMap
            Directive.program?).map
              (fun n => p.act (.program n)) ++
          p.sounding.map (fun note => p.act (.release note)) ++
          a.voices.map (fun v =>
            p.act (.strike v (velocityOfPercent velocity))) ∧
      q = { p with
        velocity := velocity
        sounding := soundingAfter [] a.voices } := by
  simp only [attack, followAllPitches_eq, silence,
    Outcome.bind_eq_ok, Outcome.pure_eq, Except.ok.injEq,
    Prod.mk.injEq] at hAttack
  rcases hAttack with ⟨⟨struck, r⟩, hStrike, rfl, rfl⟩
  rcases strikeAll_eq_ok hStrike with ⟨rfl, rfl⟩
  exact ⟨rfl, rfl⟩

/-
  What a slot does: an attack, a release of all
  that sounds, or nothing.
-/
theorem sound_eq_ok
    {p q : Player}
    {s : Slot Attack}
    {done : List Action}
    (hSound : p.sound s = .ok (done, q)) :
    s.subdivision.IsAttack ∧
        p.attack s.content = .ok (done, q) ∨
      ¬ s.subdivision.IsAttack ∧
        s.subdivision.IsSilence ∧
        done =
          p.sounding.map (fun note =>
            p.act (.release note)) ∧
        q = { p with sounding := [] } ∨
      s.subdivision.kind = .hyphen ∧ done = [] ∧ q = p := by
  unfold sound at hSound
  by_cases hIsAttack : s.subdivision.IsAttack
  · rw [if_pos hIsAttack] at hSound
    exact Or.inl ⟨hIsAttack, hSound⟩
  rw [if_neg hIsAttack] at hSound
  by_cases hSilence : s.subdivision.IsSilence
  · rw [if_pos hSilence] at hSound
    simp only [silence, Except.ok.injEq,
      Prod.mk.injEq] at hSound
    exact Or.inr
      (Or.inl
        ⟨hIsAttack, hSilence, hSound.1.symm, hSound.2.symm⟩)
  · rw [if_neg hSilence] at hSound
    simp only [Except.ok.injEq, Prod.mk.injEq] at hSound
    have hKind : s.subdivision.kind = .hyphen := by
      cases hKind : s.subdivision.kind <;>
        simp_all [Subdivision.IsAttack, Subdivision.IsSilence]
    exact Or.inr (Or.inr ⟨hKind, hSound.1.symm, hSound.2.symm⟩)

/- A slot changes no more than loudness and sounding notes. -/
theorem frame_sound
    {p q : Player}
    {s : Slot Attack}
    {done : List Action}
    (hSound : p.sound s = .ok (done, q)) :
    q =
      { p with
        velocity := q.velocity,
        sounding := q.sounding } := by
  rcases sound_eq_ok hSound with
    ⟨-, hAttack⟩ | ⟨-, -, -, rfl⟩ | ⟨-, -, rfl⟩
  · rcases attack_eq_ok hAttack with ⟨-, rfl⟩
    rfl
  · rfl
  · rfl

/- All that a slot does happens now. -/
theorem time_of_mem_sound
    {p q : Player}
    {s : Slot Attack}
    {done : List Action}
    (hSound : p.sound s = .ok (done, q))
    {a : Action}
    (hAction : a ∈ done) :
    a.time = p.now := by
  rcases sound_eq_ok hSound with
    ⟨-, hAttack⟩ | ⟨-, -, rfl, -⟩ | ⟨-, rfl, -⟩
  · rcases attack_eq_ok hAttack with ⟨rfl, -⟩
    simp only [List.mem_append, List.mem_map] at hAction
    rcases hAction with
      (⟨n, -, rfl⟩ | ⟨n, -, rfl⟩) | ⟨v, -, rfl⟩ <;>
      rfl
  · rcases List.mem_map.mp hAction with ⟨note, -, rfl⟩
    rfl
  · cases hAction

end Player

end LyricScore
