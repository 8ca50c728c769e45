import LyricScore.Proofs.Performance.Strikes
import LyricScore.Proofs.Stream.Raised

/-
  This file shows that a block is transposed by its first pitch
  alone: with so many more octaves of shift on the pitch that
  is resolved first in a block, each pitch that the block
  strikes is that much higher, and nothing else that is heard
  of the score is another.

  Key definitions include:
    * `Score.withBlock`
    * `raiseAt`
    * `Moment.RaisedBy`
    * `Action.raise`, `heardOf`

  Key theorems include:
    * `Score.moments_withBlock`
    * `Player.moment_raised`
    * `Player.moments_raised`
    * `Score.block_transposes_by_first_pitch`
-/

namespace LyricScore

/- A score with another block in the place of one. -/
def Score.withBlock
    (s : Score)
    (i : Nat)
    (b : Block) : Score :=
  { s with blocks := s.blocks.set i b }

/-
  By how many octaves the blocks of a score are raised: only
  the block `i` is.
-/
def raiseAt
    (i : Nat)
    (d : Int)
    (block : Option Int) : Int :=
  if block = some (i : Int) then d else 0

------------------------------------------------------------
-- Raised moments
------------------------------------------------------------

/-
  A moment at which the same is met, and
  its block is raised.
-/
inductive Moment.RaisedBy
    (octaves : Option Int → Int) : Moment → Moment → Prop where
  | directive (d : Directive) :
      RaisedBy octaves (.directive d) (.directive d)
  | barline (measure : Nat) :
      RaisedBy octaves (.barline measure) (.barline measure)
  | part (key : BeatKey)
      (index count : Nat)
      (b : Beat)
      {slot slot' : Slot Attack}
      (hSlot : slot.RaisedBy (octaves (some key.block)) slot') :
      RaisedBy octaves (.part ⟨key, index, count, b, slot⟩)
        (.part ⟨key, index, count, b, slot'⟩)

section Moments

variable {octaves : Option Int → Int}

/- The parts of a beat are raised as its slots are. -/
theorem Beat.parts_raised
    {key : BeatKey}
    {slots slots' : List (Slot Attack)}
    (hSlots :
      List.Forall₂
        (Slot.RaisedBy (octaves (some key.block))) slots
        slots')
    (b : Beat)
    (count first : Nat) :
    List.Forall₂ (Moment.RaisedBy octaves)
      (b.parts key count first slots)
      (b.parts key count first slots') := by
  induction hSlots generalizing first with
  | nil =>
      exact .nil
  | cons hSlot _ ih =>
      rw [parts_cons, parts_cons]
      exact .cons (.part key first count b hSlot)
        (ih (first + 1))

/- The moments of a block are raised as its cues are. -/
theorem Cue.moments_raised
    {block : Int}
    {cues cues' : List (Cue Attack)}
    (hCues :
      List.Forall₂ (Cue.RaisedBy (octaves (some block)))
        cues cues')
    (index : Nat) :
    List.Forall₂ (Moment.RaisedBy octaves)
      (moments block index cues)
      (moments block index cues') := by
  induction hCues generalizing index with
  | nil =>
      exact .nil
  | cons hCue _ ih =>
      cases hCue with
      | directive d =>
          exact .cons (.directive d) (ih index)
      | barline measure =>
          exact .cons (.barline measure) (ih index)
      | @beat b slots slots' hSlots =>
          have hDirectives :
              List.Forall₂ (Moment.RaisedBy octaves)
                (b.directives.map .directive)
                (b.directives.map .directive) := by
            rw [List.forall₂_map_left_iff,
              List.forall₂_map_right_iff, List.forall₂_same]
            exact fun d _ => .directive d
          have hEmpty : slots = [] ↔ slots' = [] := by
            rw [← List.length_eq_zero_iff,
              ← List.length_eq_zero_iff, hSlots.length_eq]
          have hNext :
              (if slots = [] then index else index + 1) =
                if slots' = [] then index
                else index + 1 := by
            simp only [hEmpty]
          have hParts :=
            @Beat.parts_raised octaves ⟨block, index⟩ _ _
              hSlots b slots.length 0
          rw [moments, moments, ← hSlots.length_eq, hNext]
          exact List.rel_append
            (List.rel_append hDirectives hParts) (ih _)

/- Raised by no octaves, a cue is what it is. -/
theorem Cue.raisedBy_zero
    (cue : Cue Attack) :
    cue.RaisedBy 0 cue := by
  have hVoices (voices : List Voice) :
      voices = voices.map (Voice.raise 0) :=
    (List.map_id'' Voice.raise_zero voices).symm
  cases cue with
  | directive d =>
      exact .directive d
  | barline measure =>
      exact .barline measure
  | beat b slots =>
      refine .beat b (List.forall₂_same.mpr ?_)
      exact fun slot _ => ⟨rfl, rfl, hVoices _⟩

/- Blocks that are not raised have the same moments. -/
theorem blockMoments_same
    {index : Nat}
    {bs : List Block}
    (hSame :
      ∀ i,
        index ≤ i →
          i < index + bs.length →
          octaves (some (i : Int)) = 0) :
    List.Forall₂ (Moment.RaisedBy octaves)
      (blockMoments index bs) (blockMoments index bs) := by
  induction bs generalizing index with
  | nil =>
      exact .nil
  | cons b bs ih =>
      rw [List.length_cons] at hSame
      have hFirst :
          List.Forall₂
            (Cue.RaisedBy (octaves (some (index : Int))))
            b.voices b.voices := by
        rw [hSame index (by omega) (by omega),
          List.forall₂_same]
        exact fun cue _ => cue.raisedBy_zero
      have hRest :=
        @ih (index + 1) fun i hLeast hMost =>
          hSame i (by omega) (by omega)
      exact List.rel_append (Cue.moments_raised hFirst 0) hRest

end Moments

/- The moments of a score in which one block is raised. -/
theorem Score.moments_withBlock
    {s : Score}
    {i : Nat}
    {b b' : Block}
    {d : Int}
    (hBlock : s.blocks[i]? = some b)
    (hRaised :
      List.Forall₂ (Cue.RaisedBy d) b.voices b'.voices) :
    List.Forall₂ (Moment.RaisedBy (raiseAt i d)) s.moments
      (s.withBlock i b').moments := by
  have hIndex : i < s.blocks.length :=
    (List.getElem?_eq_some_iff.mp hBlock).1
  have hBlock' : (s.withBlock i b').blocks[i]? = some b' := by
    simp [withBlock, hIndex]
  have hBefore :
      (s.withBlock i b').blocks.take i =
        s.blocks.take i := by
    simp [withBlock, List.take_set_of_le]
  have hAfter :
      (s.withBlock i b').blocks.drop (i + 1) =
        s.blocks.drop (i + 1) := by
    simp [withBlock, List.drop_set_of_lt]
  have hOther (j : Nat) (hApart : j ≠ i) :
      raiseAt i d (some (j : Int)) = 0 := by
    rw [raiseAt, if_neg]
    simpa using hApart
  have hHere :
      List.Forall₂
        (Cue.RaisedBy (raiseAt i d (some (i : Int))))
        b.voices b'.voices := by
    rw [raiseAt, if_pos rfl]
    exact hRaised
  rw [moments_split hBlock, moments_split hBlock', hBefore,
    hAfter]
  refine List.rel_append
    (List.rel_append ?_ (Cue.moments_raised hHere 0)) ?_
  · apply blockMoments_same
    intro j _ hMost
    rw [List.length_take] at hMost
    exact hOther j (by omega)
  · apply blockMoments_same
    intro j hLeast _
    exact hOther j (by omega)

------------------------------------------------------------
-- Raised actions
------------------------------------------------------------

/- An action with what it strikes so many octaves higher. -/
def Action.raise
    (d : Int)
    (a : Action) : Action :=
  match a.act with
  | .strike v velocity =>
      { a with act := .strike (v.raise d) velocity }
  | _ => a

/- An action that is no release. -/
def Action.isHeard
    (a : Action) : Bool :=
  match a.act with
  | .release _ => false
  | _ => true

/- Actions without the releases among them. -/
def heardOf
    (as : List Action) : List Action :=
  as.filter Action.isHeard

theorem heardOf_append
    (as more : List Action) :
    heardOf (as ++ more) = heardOf as ++ heardOf more :=
  List.filter_append as more

namespace Player

variable {octaves : Option Int → Int}
variable {ticksPerQuarter : Int}

/- Releases are not heard to start. -/
theorem heardOf_releases
    (p : Player)
    (notes : List Int) :
    heardOf (notes.map fun note => p.act (.release note)) =
      [] := by
  simp [heardOf, act, Action.isHeard]

/-
  What is heard of an attack are its
  programs and its strikes.
-/
theorem heardOf_attack
    {p q : Player}
    {a : Attack}
    {done : List Action}
    (hAttack : p.attack a = .ok (done, q)) :
    heardOf done =
      (a.delivery.handed.filterMap Directive.program?).map
          (fun n => p.act (.program n)) ++
        a.voices.map fun v =>
          p.act
            (.strike v
              (velocityOfPercent
                (velocityAfter p.velocity
                  a.delivery.handed))) := by
  rcases attack_eq_ok hAttack with ⟨rfl, -⟩
  rw [heardOf_append, heardOf_append, heardOf_releases]
  simp [heardOf, act, Action.isHeard, List.filter_map,
    Function.comp_def]

/-
  Directives of the lyric stream are
  followed whatever sounds.
-/
theorem followLyrics_sounding
    (p : Player)
    (notes : List Int)
    (d : Directive) :
    followLyrics { p with sounding := notes } d =
      ((p.followLyrics d).1,
        { (p.followLyrics d).2 with
          sounding := notes }) := by
  cases hOrder : d.order with
  | tempo bpm =>
      simp only [followLyrics, hOrder, updateTempo, act]
      split <;> rfl
  | beatUnit code =>
      simp only [followLyrics, hOrder, updateTempo, act]
      split <;> rfl
  | _ =>
      simp only [followLyrics, hOrder]

/-
  A slot and a raised one, by players that may differ in what
  sounds: the same is heard of both, but raised.
-/
theorem sound_raised
    {d : Int}
    {p p' q q' : Player}
    {slot slot' : Slot Attack}
    {done done' : List Action}
    (hSame : p' = { p with sounding := p'.sounding })
    (hRaised : slot.RaisedBy d slot')
    (hSound : p.sound slot = .ok (done, q))
    (hSound' : p'.sound slot' = .ok (done', q')) :
    q' = { q with sounding := q'.sounding } ∧
      heardOf done' = (heardOf done).map (Action.raise d) := by
  have hNow : p'.now = p.now := by rw [hSame]
  have hVelocity : p'.velocity = p.velocity := by rw [hSame]
  by_cases hIsAttack : slot.subdivision.IsAttack
  · have hIsAttack' : slot'.subdivision.IsAttack := by
      rwa [hRaised.subdivision]
    rw [sound, if_pos hIsAttack] at hSound
    rw [sound, if_pos hIsAttack'] at hSound'
    constructor
    · rw [(attack_eq_ok hSound).2, (attack_eq_ok hSound').2,
        hRaised.content.handed, hVelocity, hSame]
    · rw [heardOf_attack hSound, heardOf_attack hSound',
        hRaised.content.handed, hRaised.content.voices,
        hVelocity]
      simp [act, hNow, Action.raise, Function.comp_def]
  · have hIsAttack' : ¬ slot'.subdivision.IsAttack := by
      rwa [hRaised.subdivision]
    rw [sound, if_neg hIsAttack] at hSound
    rw [sound, if_neg hIsAttack',
      hRaised.subdivision] at hSound'
    by_cases hSilence : slot.subdivision.IsSilence
    · rw [if_pos hSilence] at hSound hSound'
      simp only [silence, Except.ok.injEq,
        Prod.mk.injEq] at hSound hSound'
      rcases hSound with ⟨rfl, rfl⟩
      rcases hSound' with ⟨rfl, rfl⟩
      rw [heardOf_releases, heardOf_releases]
      refine ⟨?_, rfl⟩
      rw [hSame]
    · rw [if_neg hSilence] at hSound hSound'
      simp only [Except.ok.injEq,
        Prod.mk.injEq] at hSound hSound'
      rcases hSound with ⟨rfl, rfl⟩
      rcases hSound' with ⟨rfl, rfl⟩
      exact ⟨hSame, rfl⟩

/-
  A moment and a raised one: the same is heard, raised as
  its block is.
-/
theorem moment_raised
    {p p' q q' : Player}
    {m m' : Moment}
    {done done' : List Action}
    (hSame : p' = { p with sounding := p'.sounding })
    (hRaised : m.RaisedBy octaves m')
    (hMoment : p.moment ticksPerQuarter m = .ok (done, q))
    (hMoment' :
      p'.moment ticksPerQuarter m' = .ok (done', q')) :
    q' = { q with sounding := q'.sounding } ∧
      heardOf done' =
        (heardOf done).map
          (Action.raise (octaves m.block?)) := by
  cases hRaised with
  | directive d =>
      simp only [moment, Except.ok.injEq] at hMoment hMoment'
      have hTempos :
          ∀ a ∈ done, a.raise (octaves none) = a := by
        intro a hAction
        rcases (frame_followLyrics hMoment).2 a hAction with
          ⟨tempo, rfl⟩
        rfl
      rw [hSame, followLyrics_sounding, hMoment,
        Prod.mk.injEq] at hMoment'
      rcases hMoment' with ⟨rfl, rfl⟩
      refine ⟨rfl, ?_⟩
      exact
        ((List.map_congr_left fun a hAction =>
          hTempos a (List.mem_of_mem_filter hAction)).trans
            (List.map_id _)).symm
  | barline measure =>
      simp only [moment, Except.ok.injEq,
        Prod.mk.injEq] at hMoment hMoment'
      rcases hMoment with ⟨rfl, rfl⟩
      rcases hMoment' with ⟨rfl, rfl⟩
      exact ⟨hSame, rfl⟩
  | part key index count b hSlot =>
      have hUnit : p'.unit = p.unit := by rw [hSame]
      simp only [moment, Outcome.bind_eq_ok,
        Outcome.pure_eq, Except.ok.injEq,
        Prod.mk.injEq] at hMoment hMoment'
      rcases hMoment with
        ⟨ticks, hTicks, ⟨done, r⟩, hSound, rfl, rfl⟩
      rcases hMoment' with
        ⟨ticks', hTicks', ⟨done', r'⟩, hSound', rfl, rfl⟩
      rw [hUnit, hTicks, Except.ok.injEq] at hTicks'
      subst hTicks'
      rcases sound_raised hSame hSlot hSound hSound' with
        ⟨hNext, hHeard⟩
      refine ⟨?_, hHeard⟩
      rw [hNext]
      rfl

/-
  Over all moments the same is heard, each
  block raised as it is.
-/
theorem moments_raised
    {p p' q q' : Player}
    {ms ms' : List Moment}
    {done done' : List (Moment × List Action)}
    (hSame : p' = { p with sounding := p'.sounding })
    (hRaised : List.Forall₂ (Moment.RaisedBy octaves) ms ms')
    (hRun : p.moments ticksPerQuarter ms = .ok (done, q))
    (hRun' : p'.moments ticksPerQuarter ms' = .ok (done', q')) :
    done'.map (fun d => (d.1.block?, heardOf d.2)) =
      done.map fun d =>
        (d.1.block?,
          (heardOf d.2).map
            (Action.raise (octaves d.1.block?))) := by
  induction hRaised generalizing p p' done done' with
  | nil =>
      rcases moments_nil_eq_ok hRun with ⟨rfl, -⟩
      rcases moments_nil_eq_ok hRun' with ⟨rfl, -⟩
      rfl
  | @cons m m' ms ms' hMoment _ ih =>
      rcases moments_cons_eq_ok hRun with
        ⟨first, r, more, hFirst, hMore, rfl⟩
      rcases moments_cons_eq_ok hRun' with
        ⟨first', r', more', hFirst', hMore', rfl⟩
      rcases moment_raised hSame hMoment hFirst hFirst' with
        ⟨hNext, hHeard⟩
      have hBlock : m'.block? = m.block? := by
        cases hMoment <;> rfl
      simp only [List.map_cons]
      rw [ih hNext hMore hMore', hHeard, hBlock]

end Player

------------------------------------------------------------
-- Strikes and changes
------------------------------------------------------------

/- A strike that is raised if it is one of the block `i`. -/
def Strike.raiseIn
    (i : Nat)
    (d : Int)
    (x : Strike) : Strike :=
  if x.block = some (i : Int) then
    { x with number := x.number + 12 * d } else x

/- The strike of a raised action is the raised strike. -/
theorem strike?_raise
    (block : Option Int)
    (i : Nat)
    (d : Int)
    (a : Action) :
    (a.raise (raiseAt i d block)).act.strike? block
        (a.raise (raiseAt i d block)).tick =
      (a.act.strike? block a.tick).map
        (Strike.raiseIn i d) := by
  cases hAct : a.act with
  | strike v velocity =>
      by_cases hBlock : block = some (i : Int)
      · simp [Action.raise, hAct, Act.strike?, raiseAt,
          hBlock, Strike.raiseIn, Voice.midiNumber_raise,
          Action.tick]
      · simp [Action.raise, hAct, Act.strike?, raiseAt,
          hBlock, Strike.raiseIn, Action.tick]
  | _ =>
      simp [Action.raise, hAct, Act.strike?]

/- Raising an action changes nothing but what it strikes. -/
theorem change?_raise
    (d : Int)
    (a : Action) :
    (a.raise d).act.change?.map ((a.raise d).tick, ·) =
      a.act.change?.map (a.tick, ·) := by
  cases hAct : a.act <;> simp [Action.raise, hAct, Act.change?]

/-
  What is observed of actions is observed of
  those that are heard.
-/
theorem filterMap_heardOf
    {α : Type}
    {observed? : Action → Option α}
    (hSilent :
      ∀ a : Action, a.isHeard = false → observed? a = none)
    (as : List Action) :
    (heardOf as).filterMap observed? =
      as.filterMap observed? := by
  rw [heardOf, List.filterMap_filter]
  apply List.filterMap_congr
  intro a _
  by_cases hHeard : a.isHeard
  · rw [if_pos hHeard]
  · rw [if_neg hHeard, hSilent a (by simpa using hHeard)]

namespace Performance.Renders

variable {settings : AudioSettings}
variable {s s' : Score}
variable {perf perf' : Performance}
variable {done done' : List (Moment × List Action)}
variable {last last' : Player}
variable {i : Nat}
variable {d : Int}

/-
  What is heard at the moments of two scores, one of them
  raised in a block.
-/
theorem heard_raised
    (hRenders : perf.Renders settings s done last)
    (hRenders' : perf'.Renders settings s' done' last')
    (hRaised :
      List.Forall₂ (Moment.RaisedBy (raiseAt i d)) s.moments
        s'.moments) :
    done'.map (fun x => (x.1.block?, heardOf x.2)) =
      done.map fun x =>
        (x.1.block?,
          (heardOf x.2).map
            (Action.raise (raiseAt i d x.1.block?))) :=
  Player.moments_raised rfl hRaised hRenders.run hRenders'.run

/-
  What is read off actions that are heard is read off what
  is heard at the moments.
-/
theorem flatMap_heardOf
    {β : Type}
    {f : Option Int → Action → Option β}
    (hSilent : ∀ block a, a.isHeard = false → f block a = none)
    (done : List (Moment × List Action)) :
    (done.flatMap fun x => x.2.filterMap (f x.1.block?)) =
      (done.map fun x => (x.1.block?, heardOf x.2)).flatMap
        fun x => x.2.filterMap (f x.1) := by
  rw [List.flatMap_map]
  exact List.flatMap_congr fun x _ =>
    (filterMap_heardOf (hSilent x.1.block?) x.2).symm

/-
  If the moments of a block are raised, so are its strikes,
  and no others.
-/
theorem strikes_raised
    (hRenders : perf.Renders settings s done last)
    (hRenders' : perf'.Renders settings s' done' last')
    (hRaised :
      List.Forall₂ (Moment.RaisedBy (raiseAt i d)) s.moments
        s'.moments) :
    perf'.strikes = perf.strikes.map (Strike.raiseIn i d) := by
  have hSilent :
      ∀ (block : Option Int) (a : Action),
        a.isHeard = false →
          a.act.strike? block a.tick = none := by
    intro block a hRelease
    cases hAct : a.act <;>
      simp [Action.isHeard, hAct, Act.strike?] at hRelease ⊢
  rw [hRenders.strikes_eq, hRenders'.strikes_eq,
    flatMap_heardOf hSilent, flatMap_heardOf hSilent,
    heard_raised hRenders hRenders' hRaised,
    List.map_flatMap, List.flatMap_map, List.flatMap_map]
  apply List.flatMap_congr
  intro x _
  rw [List.filterMap_map, List.map_filterMap]
  exact List.filterMap_congr fun a _ =>
    strike?_raise x.1.block? i d a

/-
  If the moments of a block are raised,
  nothing else changes.
-/
theorem changes_raised
    (hRenders : perf.Renders settings s done last)
    (hRenders' : perf'.Renders settings s' done' last')
    (hRaised :
      List.Forall₂ (Moment.RaisedBy (raiseAt i d)) s.moments
        s'.moments) :
    perf'.changes = perf.changes := by
  have hSilent :
      ∀ (_ : Option Int) (a : Action),
        a.isHeard = false →
          a.act.change?.map (a.tick, ·) = none := by
    intro _ a hRelease
    cases hAct : a.act <;>
      simp [Action.isHeard, hAct, Act.change?] at hRelease ⊢
  rw [hRenders.changes_eq, hRenders'.changes_eq,
    flatMap_heardOf hSilent, flatMap_heardOf hSilent,
    heard_raised hRenders hRenders' hRaised,
    List.flatMap_map, List.flatMap_map]
  congr 1
  apply List.flatMap_congr
  intro x _
  rw [List.filterMap_map]
  exact List.filterMap_congr fun a _ => change?_raise _ a

end Performance.Renders

/-
  Transposition.  If a block sounds at all, a pitch or a chord
  of it is resolved first.  With so many more octaves of shift
  on its only or first pitch, each strike of the block has a
  number that is as many times twelve higher, with the same
  tick, accidental and velocity; the strikes of other blocks
  are the same, and tempos and programs are changed to as
  before, at the same ticks.
-/
theorem Score.block_transposes_by_first_pitch
    {settings : AudioSettings}
    {s : Score}
    {i : Nat}
    {b : Block}
    (hBlock : s.blocks[i]? = some b) :
    (b.resolvedVoices ≠ [] →
        ∃ place x, b.FirstResolved place x) ∧
      ∀ place x, b.FirstResolved place x →
        ∀ (d : Int) events raisedEvents,
          s.events settings = .ok events →
            (s.withBlock i (b.raise d place x)).events
                settings =
              .ok raisedEvents →
              ∃ perf raised,
                s.performance settings = .ok perf ∧
                  perf.events = events ∧
                  (s.withBlock i
                      (b.raise d place x)).performance
                        settings =
                    .ok raised ∧
                  raised.events = raisedEvents ∧
                  raised.strikes =
                    perf.strikes.map (fun strike =>
                      if strike.block = some (i : Int) then
                        { strike with
                          number := strike.number + 12 * d }
                      else strike) ∧
                  raised.changes = perf.changes := by
  constructor
  · intro hSounds
    apply Block.exists_firstResolved
    rcases List.exists_mem_of_ne_nil _ hSounds with ⟨v, hVoice⟩
    rcases List.mem_flatMap.mp hVoice with ⟨cue, hCue, hVoice⟩
    rcases List.mem_flatMap.mp hVoice with ⟨slot, hSlot, hVoice⟩
    exact ⟨cue, hCue, slot, hSlot, List.ne_nil_of_mem hVoice⟩
  · intro place x hFirst d events raisedEvents hEvents
      hRaisedEvents
    rcases Score.performance_of_events hEvents with
      ⟨perf, hPerformance, hSame⟩
    rcases Score.performance_of_events hRaisedEvents with
      ⟨raised, hRaised, hRaisedSame⟩
    rcases Score.performance_eq_ok hPerformance with
      ⟨done, last, hRenders⟩
    rcases Score.performance_eq_ok hRaised with
      ⟨done', last', hRenders'⟩
    have hMoments :=
      Score.moments_withBlock hBlock (hFirst.voices_raise d)
    exact
      ⟨perf, raised, hPerformance, hSame, hRaised, hRaisedSame,
        hRenders.strikes_raised hRenders' hMoments,
        hRenders.changes_raised hRenders' hMoments⟩

/-
  The pitch lines of a block that starts with a key and a chord
  without pitches; a flat in the chord behind it holds for a
  letter of the same measure.
-/
def Score.refrainPlace : SoundingPlace where
  directives := [⟨.key (some .sharp) 1, {}⟩]
  elementsBefore := [.chord {}]
  elementsAfter := [
    .directive ⟨.instrument 20, {}⟩,
    .pitch { letter := .b },
    .pitch { letter := .f }]
  barline := true
  measuresAfter :=
    [{ elements := [.pitch { letter := .b, shift := 1 }] }]

def Score.refrainChord : Sounding :=
  .chord
    { pitches :=
        [{ letter := .f },
          { letter := .b, accidental := some .flat }] }

/- A block that is sung twice. -/
def Score.refrain : Score where
  blocks :=
    let sung : Beat :=
      { elements := [
          .subdivision ⟨.syllable, "la", {}⟩,
          .subdivision ⟨.syllable, "lu", {}⟩] }
    let block : Block :=
      { lyricLines := [
          { measures := [
              { beats := [sung, sung], barline := true },
              { beats := [sung] }] }]
        pitchLines := refrainPlace.plug refrainChord }
    [block, block]

/-
  Its first block is seven octaves
  lower, and the rest stays.
-/
theorem Score.refrain_transposes :
    ∃ b perf raised,
      refrain.blocks[0]? = some b ∧
        b.FirstResolved refrainPlace refrainChord ∧
        refrain.performance {} = .ok perf ∧
        (refrain.withBlock 0
            (b.raise (-7) refrainPlace
              refrainChord)).performance {} =
          .ok raised ∧
        raised.changes = perf.changes ∧
        perf.strikes.map Strike.number =
          [66, 70, 70, 66, 83, 66, 70, 70, 66, 83] ∧
        raised.strikes.map Strike.number =
          [-18, -14, -14, -18, -1, 66, 70, 70, 66, 83] := by
  have hBlock :
      refrain.blocks[0]? = some refrain.blocks[0] :=
    rfl
  have hFirst :
      refrain.blocks[0].FirstResolved refrainPlace
        refrainChord :=
    ⟨rfl, by decide +kernel⟩
  have hOk : (refrain.events {}).isOk = true := by
    decide +kernel
  have hRaisedOk :
      ((refrain.withBlock 0
          (refrain.blocks[0].raise (-7) refrainPlace
            refrainChord)).events {}).isOk =
        true := by
    decide +kernel
  rcases Outcome.exists_eq_ok hOk with ⟨events, hEvents⟩
  rcases Outcome.exists_eq_ok hRaisedOk with
    ⟨raisedEvents, hRaisedEvents⟩
  rcases (Score.block_transposes_by_first_pitch hBlock).2 _
    _ hFirst (-7) _ _ hEvents hRaisedEvents with
    ⟨perf, raised, hPerformance, -, hRaised, -, hStrikes,
      hChanges⟩
  have hNumbers :
      (refrain.performance {}).map (fun perf =>
          perf.strikes.map fun strike =>
            (strike.block, strike.number)) =
        .ok
          [(some 0, 66), (some 0, 70), (some 0, 70),
            (some 0, 66), (some 0, 83), (some 1, 66),
            (some 1, 70), (some 1, 70), (some 1, 66),
            (some 1, 83)] := by
    decide +kernel
  rw [hPerformance, Outcome.map_ok, Except.ok.injEq] at hNumbers
  refine ⟨_, perf, raised, hBlock, hFirst, hPerformance,
    hRaised, hChanges, ?_, ?_⟩
  · have hBefore := congrArg (List.map Prod.snd) hNumbers
    rw [List.map_map] at hBefore
    exact hBefore
  · have hAfter :=
      congrArg
        (List.map fun strike : Option Int × Int =>
          if strike.1 = some 0 then strike.2 + 12 * -7
          else strike.2) hNumbers
    rw [List.map_map] at hAfter
    rw [hStrikes, List.map_map]
    refine Eq.trans
      (List.map_congr_left fun strike _ => ?_) hAfter
    by_cases hHere : strike.block = some 0 <;> simp [hHere]

end LyricScore
