import LyricScore.Proofs.Performance.Drift
import LyricScore.Proofs.Resolution

/-
  This file tells what can be heard in a performance, and when:
  which pitches are struck, and which tempos and programs are
  changed to, at which tick.  All of it follows from what the
  player did; only releases and events that fill a distance
  are left out.

  Key definitions include:
    * `TimedEmission`
    * `Performance.timed`
    * `Strike`
    * `Performance.strikes`
    * `Performance.changes`

  Key theorems include:
    * `Performance.Renders.timed_eq`
    * `Performance.Renders.strikes_eq`
    * `Performance.Renders.changes_eq`
-/

namespace LyricScore

/- The block of the subdivision that is met. -/
def Moment.block?
    (m : Moment) : Option Int :=
  m.part?.map fun p => p.key.block

/-
  An emission, the block it belongs to, if it is emitted at a
  subdivision, and the tick of its own event.
-/
structure TimedEmission where
  block : Option Int
  tick : Nat
  emission : Emission
deriving DecidableEq, Repr

/-
  Emissions with their ticks, where the event before them
  has the tick `tick`.
-/
def timedFrom
    (tick : Nat) :
      List (Option Int × Emission) → List TimedEmission
  | [] => []
  | (block, e) :: rest =>
    ⟨block, tick + deltaSum e.events, e⟩ ::
      timedFrom (tick + deltaSum e.events) rest

/-
  A pitch that is struck: its block, its tick, its number
  and its accidental.
-/
structure Strike where
  block : Option Int
  tick : Nat
  number : Int
  accidental : Accidental
  velocity : Int
deriving DecidableEq, Repr

namespace Performance

/- All emissions, with the blocks of their moments. -/
def placed
    (perf : Performance) : List (Option Int × Emission) :=
  perf.opening.map (none, ·) ++
    perf.passages.flatMap (fun p =>
      p.emissions.map (p.moment.block?, ·)) ++
    perf.closing.map (none, ·)

/- All emissions, with the ticks of their own events. -/
def timed
    (perf : Performance) : List TimedEmission :=
  timedFrom 0 perf.placed

end Performance

/- What is struck by an action in a block at a tick. -/
def Act.strike?
    (block : Option Int)
    (tick : Nat) : Act → Option Strike
  | .strike v velocity =>
      some
        ⟨block, tick, v.midiNumber, v.accidental, velocity⟩
  | _ => none

/- A tempo or a program that is changed to. -/
def Act.change? : Act → Option Act
  | .tempo microseconds => some (.tempo microseconds)
  | .program number => some (.program number)
  | _ => none

namespace Performance

/- The pitches that are struck, in order. -/
def strikes
    (perf : Performance) : List Strike :=
  perf.timed.filterMap fun t =>
    t.emission.action.act.strike? t.block t.tick

/-
  The tempos and programs that are changed to, in order,
  with their ticks.
-/
def changes
    (perf : Performance) : List (Nat × Act) :=
  perf.timed.filterMap fun t =>
    t.emission.action.act.change?.map (t.tick, ·)

end Performance

------------------------------------------------------------
-- Ticks
------------------------------------------------------------

/- The tick of an action: its time, rounded. -/
def Action.tick
    (a : Action) : Nat :=
  (roundHalfEven a.time).toNat

/-
  From a tick on, each emission is at
  the tick of its action.
-/
theorem Schedule.timedFrom_eq
    {channel : Int}
    {s t : Schedule}
    {tick : Nat}
    {placed : List (Option Int × Emission)}
    (hTick : s.tick = tick)
    (hEmissions :
      s.emissions channel (placed.map fun e => e.2.action) =
        .ok (placed.map Prod.snd, t)) :
    timedFrom tick placed =
      placed.map fun e => ⟨e.1, e.2.action.tick, e.2⟩ := by
  induction placed generalizing s tick with
  | nil =>
      rfl
  | cons first placed ih =>
      rcases emissions_cons_eq_ok hEmissions with
        ⟨e, u, more, hFirst, hMore, hSame⟩
      rcases List.cons.inj hSame with ⟨rfl, rfl⟩
      rcases deltaSum_emission hFirst with ⟨hSum, hTime⟩
      have hNext :
          u.tick =
            (tick + deltaSum first.2.events : Nat) := by
        rw [← hSum, hTick]
        push_cast
        rfl
      have hHere :
          tick + deltaSum first.2.events =
            first.2.action.tick := by
        rw [Action.tick, ← hTime, hNext, Int.toNat_natCast]
      rw [timedFrom, List.map_cons, ih hNext hMore, hHere]

namespace Performance

variable {settings : AudioSettings}
variable {s : Score}
variable {perf : Performance}
variable {done : List (Moment × List Action)}
variable {last : Player}

/-
  However distances are filled, each own event comes at its
  rounded time.
-/
theorem Renders.timed_eq
    (hRenders : perf.Renders settings s done last) :
    perf.timed =
      perf.placed.map fun e =>
        ⟨e.1, e.2.action.tick, e.2⟩ := by
  rcases hRenders.schedule with ⟨t, hSchedule⟩
  have hEmissions :
      perf.placed.map Prod.snd = perf.emissions := by
    simp [placed, emissions, List.map_flatMap,
      Function.comp_def]
  have hActions := Schedule.map_action_emissions hSchedule
  rw [← hEmissions, List.map_map] at hActions
  rw [← hActions, ← hEmissions] at hSchedule
  exact Schedule.timedFrom_eq rfl hSchedule

/-
  What is observed of the emissions of a performance is
  observed of its actions.
-/
theorem Renders.filterMap_timed
    {α : Type}
    (hRenders : perf.Renders settings s done last)
    (observed? : Option Int → Nat → Act → Option α) :
    (perf.timed.filterMap fun t =>
        observed? t.block t.tick t.emission.action.act) =
      (Player.opening settings).filterMap
          (fun a => observed? none a.tick a.act) ++
        done.flatMap (fun d =>
          d.2.filterMap fun a =>
            observed? d.1.block? a.tick a.act) ++
        last.silence.1.filterMap (fun a =>
          observed? none a.tick a.act) := by
  rw [hRenders.timed_eq, placed, ← hRenders.opening,
    ← hRenders.passages, ← hRenders.closing]
  simp only [List.map_append, List.filterMap_append,
    List.map_flatMap, List.filterMap_map, List.map_map,
    List.filterMap_flatMap, List.flatMap_map]
  rfl

/-
  What a performance strikes is struck by the
  actions of its moments.
-/
theorem Renders.strikes_eq
    (hRenders : perf.Renders settings s done last) :
    perf.strikes =
      done.flatMap fun d =>
        d.2.filterMap fun a =>
          a.act.strike? d.1.block? a.tick := by
  have hReleases :
      last.silence.1.filterMap (fun a =>
          a.act.strike? none a.tick) =
        [] := by
    simp [Player.silence, Player.act, Act.strike?,
      List.filterMap_map]
  rw [strikes,
    hRenders.filterMap_timed fun block tick act =>
      act.strike? block tick, hReleases, List.append_nil]
  rfl

/-
  What a performance changes besides is changed by its
  opening and its moments.
-/
theorem Renders.changes_eq
    (hRenders : perf.Renders settings s done last) :
    perf.changes =
      (Player.opening settings).map (fun a =>
          (a.tick, a.act)) ++ done.flatMap fun d =>
          d.2.filterMap fun a =>
            a.act.change?.map (a.tick, ·) := by
  have hReleases :
      last.silence.1.filterMap (fun a =>
          a.act.change?.map (a.tick, ·)) =
        [] := by
    simp [Player.silence, Player.act, Act.change?,
      List.filterMap_map]
  rw [changes,
    hRenders.filterMap_timed fun _ tick act =>
      act.change?.map (tick, ·), hReleases, List.append_nil]
  rfl

end Performance

end LyricScore
