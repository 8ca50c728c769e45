import LyricScore.Stream.Voicing

/-
  This file proves that the two streams of a block stay
  aligned.  Barlines cut both streams into segments; the
  attacks of a lyric segment take in turn what the pitch
  segment of the same index holds, and nothing else.

  Key definitions include:
    * `segmentOf`
    * `PitchStream.segment`
    * `PitchStream.share`
    * `Cue.received`

  Key theorems include:
    * `PitchStream.attack_eq_share`
    * `PitchStream.segment_passBarline`
    * `PitchStream.receivedBy_fill`
    * `PitchStream.received_segment_cues`
    * `Block.attacks_receive_shares`
-/

namespace LyricScore

------------------------------------------------------------
-- Segments of a list
------------------------------------------------------------

section Segments

variable {α : Type}
variable (isCut : α → Bool)

/-
  The part of a list between its cuts that has the index `i`;
  it is empty if there are fewer cuts.
-/
def segmentOf
    (l : List α)
    (i : Nat) : List α :=
  (l.splitOnP isCut)[i]?.getD []

@[simp] theorem segmentOf_nil
    (i : Nat) :
    segmentOf isCut [] i = [] := by
  cases i <;> simp [segmentOf]

variable {isCut}

/- A cut at the start leaves nothing before it. -/
theorem segmentOf_cut_zero
    {a : α}
    (hCut : isCut a)
    (l : List α) :
    segmentOf isCut (a :: l) 0 = [] := by
  simp [segmentOf, List.splitOnP_cons_eq_if_modifyHead, hCut]

/- A cut at the start counts as one. -/
theorem segmentOf_cut_succ
    {a : α}
    (hCut : isCut a)
    (l : List α)
    (i : Nat) :
    segmentOf isCut (a :: l) (i + 1) = segmentOf isCut l i := by
  simp [segmentOf, List.splitOnP_cons_eq_if_modifyHead, hCut]

theorem segmentOf_cons_zero
    {a : α}
    (hCut : isCut a = false)
    (l : List α) :
    segmentOf isCut (a :: l) 0 = a :: segmentOf isCut l 0 := by
  rcases List.exists_cons_of_ne_nil
    (List.splitOnP_ne_nil isCut l) with
    ⟨head, tail, hSplit⟩
  simp [segmentOf, List.splitOnP_cons_eq_if_modifyHead,
    hCut, hSplit]

theorem segmentOf_cons_succ
    {a : α}
    (hCut : isCut a = false)
    (l : List α)
    (i : Nat) :
    segmentOf isCut (a :: l) (i + 1) =
      segmentOf isCut l (i + 1) := by
  rcases List.exists_cons_of_ne_nil
    (List.splitOnP_ne_nil isCut l) with
    ⟨head, tail, hSplit⟩
  simp [segmentOf, List.splitOnP_cons_eq_if_modifyHead,
    hCut, hSplit]

end Segments

------------------------------------------------------------
-- Pitch segments
------------------------------------------------------------

namespace PitchItem

/- A barline of a pitch stream. -/
def isBarline : PitchItem → Bool
  | barline => true
  | _ => false

/- A pitch or a chord. -/
def isSounding : PitchItem → Bool
  | sounding _ => true
  | _ => false

/- The pitch or chord that an item is. -/
def sounding? : PitchItem → Option Sounding
  | sounding s => some s
  | _ => none

/- The directive that an item is. -/
def directive? : PitchItem → Option Directive
  | directive d => some d
  | _ => none

end PitchItem

namespace PitchStream

/- The segment `i` of a pitch stream. -/
def segment
    (s : PitchStream)
    (i : Nat) : PitchStream :=
  segmentOf PitchItem.isBarline s i

@[simp] theorem segment_nil
    (i : Nat) :
    segment [] i = [] :=
  segmentOf_nil _ i

@[simp] theorem segment_barline_zero
    (s : PitchStream) :
    segment (.barline :: s) 0 = [] :=
  segmentOf_cut_zero rfl s

@[simp] theorem segment_barline_succ
    (s : PitchStream)
    (i : Nat) :
    segment (.barline :: s) (i + 1) = segment s i :=
  segmentOf_cut_succ rfl s i

@[simp] theorem segment_sounding_zero
    (x : Sounding)
    (s : PitchStream) :
    segment (.sounding x :: s) 0 = .sounding x :: segment s 0 :=
  segmentOf_cons_zero rfl s

@[simp] theorem segment_sounding_succ
    (x : Sounding)
    (s : PitchStream)
    (i : Nat) :
    segment (.sounding x :: s) (i + 1) = segment s (i + 1) :=
  segmentOf_cons_succ rfl s i

@[simp] theorem segment_directive_zero
    (d : Directive)
    (s : PitchStream) :
    segment (.directive d :: s) 0 =
      .directive d :: segment s 0 :=
  segmentOf_cons_zero rfl s

@[simp] theorem segment_directive_succ
    (d : Directive)
    (s : PitchStream)
    (i : Nat) :
    segment (.directive d :: s) (i + 1) = segment s (i + 1) :=
  segmentOf_cons_succ rfl s i

/- The pitches and chords of a stretch of pitch stream. -/
def soundings
    (s : PitchStream) : List Sounding :=
  s.filterMap PitchItem.sounding?

/-
  The directives of a stretch of pitch stream, in runs: those
  before the first pitch or chord, those between each and the
  next, and those behind the last.
-/
def directiveRuns
    (s : PitchStream) : List (List Directive) :=
  (s.splitOnP PitchItem.isSounding).map
    (List.filterMap PitchItem.directive?)

/-
  What a stretch of pitch stream holds for the attack `j`: its
  pitch or chord `j`, and the directives that stand before
  that and behind the one before.
-/
def share
    (s : PitchStream)
    (j : Nat) : Delivery where
  handed := s.directiveRuns[j]?.getD []
  element := s.soundings[j]?

/-
  A stretch that starts with a pitch or chord
  has an empty first run.
-/
theorem directiveRuns_sounding
    (x : Sounding)
    (s : PitchStream) :
    directiveRuns (.sounding x :: s) =
      [] :: directiveRuns s := by
  simp [directiveRuns, List.splitOnP_cons_eq_if_modifyHead,
    PitchItem.isSounding]

/-
  A directive at the head of a stretch joins its first run.
-/
theorem directiveRuns_directive
    (d : Directive)
    (s : PitchStream) :
    ∃ run runs,
      directiveRuns s = run :: runs ∧
        directiveRuns (.directive d :: s) =
          (d :: run) :: runs := by
  rcases List.exists_cons_of_ne_nil
    (List.splitOnP_ne_nil PitchItem.isSounding s) with
    ⟨first, others, hSplit⟩
  refine
    ⟨first.filterMap PitchItem.directive?,
      others.map (List.filterMap PitchItem.directive?), ?_, ?_⟩
  · simp [directiveRuns, hSplit]
  · simp [directiveRuns,
      List.splitOnP_cons_eq_if_modifyHead,
      PitchItem.isSounding, PitchItem.directive?, hSplit]

@[simp] theorem share_nil
    (j : Nat) :
    share [] j = {} := by
  cases j <;> simp [share, directiveRuns, soundings]

@[simp] theorem share_sounding_zero
    (x : Sounding)
    (s : PitchStream) :
    share (.sounding x :: s) 0 = ⟨[], some x⟩ := by
  simp [share, directiveRuns_sounding, soundings,
    PitchItem.sounding?]

@[simp] theorem share_sounding_succ
    (x : Sounding)
    (s : PitchStream)
    (j : Nat) :
    share (.sounding x :: s) (j + 1) = share s j := by
  simp [share, directiveRuns_sounding, soundings,
    PitchItem.sounding?]

@[simp] theorem share_directive_zero
    (d : Directive)
    (s : PitchStream) :
    share (.directive d :: s) 0 =
      { share s 0 with handed := d :: (share s 0).handed } := by
  rcases directiveRuns_directive d s with
    ⟨run, runs, hRuns, hMore⟩
  simp [share, hRuns, hMore, soundings, PitchItem.sounding?,
    List.filterMap_cons]

@[simp] theorem share_directive_succ
    (d : Directive)
    (s : PitchStream)
    (j : Nat) :
    share (.directive d :: s) (j + 1) = share s (j + 1) := by
  rcases directiveRuns_directive d s with
    ⟨run, runs, hRuns, hMore⟩
  simp [share, hRuns, hMore, soundings, PitchItem.sounding?,
    List.filterMap_cons]

------------------------------------------------------------
-- Taking from a segment
------------------------------------------------------------

/-
  An attack receives the first share of the segment at hand.
-/
theorem attack_eq_share
    (s : PitchStream) :
    s.attack.1 = (s.segment 0).share 0 := by
  induction s with
  | nil =>
      simp [attack]
  | cons item s ih =>
      cases item with
      | barline =>
          simp [attack]
      | sounding x =>
          simp [attack]
      | directive d =>
          simp [attack, ih]

/-
  Behind an attack the segment at hand has
  lost its first share.
-/
theorem share_segment_attack
    (s : PitchStream)
    (j : Nat) :
    (s.attack.2.segment 0).share j =
      (s.segment 0).share (j + 1) := by
  induction s with
  | nil =>
      simp [attack]
  | cons item s ih =>
      cases item with
      | barline =>
          simp [attack]
      | sounding x =>
          simp [attack]
      | directive d =>
          simp [attack, ih]

/- An attack leaves the later segments alone. -/
theorem segment_attack_succ
    (s : PitchStream)
    (i : Nat) :
    s.attack.2.segment (i + 1) = s.segment (i + 1) := by
  induction s with
  | nil =>
      rfl
  | cons item s ih =>
      cases item with
      | barline =>
          rfl
      | sounding x =>
          simp [attack]
      | directive d =>
          simp [attack, ih]

/- Behind a barline the next segment is at hand. -/
theorem segment_passBarline
    (s : PitchStream)
    (i : Nat) :
    s.passBarline.2.segment i = s.segment (i + 1) := by
  induction s with
  | nil =>
      simp [passBarline]
  | cons item s ih =>
      cases item with
      | barline =>
          simp [passBarline]
      | sounding x =>
          simp [passBarline, ih]
      | directive d =>
          simp [passBarline, ih]

end PitchStream

------------------------------------------------------------
-- Attacks of the lyric stream
------------------------------------------------------------

/- How many of some subdivisions are attacks. -/
def attackCount
    (subs : List Subdivision) : Nat :=
  subs.countP fun s => s.IsAttack

namespace LyricItem

/- A barline of a lyric stream. -/
def isBarline : LyricItem → Bool
  | barline _ => true
  | _ => false

/- The subdivisions of an item. -/
def subdivisions : LyricItem → List Subdivision
  | beat b => b.subdivisions
  | _ => []

end LyricItem

/- The segment `i` of the lyric stream of a block. -/
def Block.lyricSegment
    (b : Block)
    (i : Nat) : List LyricItem :=
  segmentOf LyricItem.isBarline b.lyricStream i

------------------------------------------------------------
-- What cues received
------------------------------------------------------------

/- What the attacks among slots received, in order. -/
def receivedBy
    (slots : List (Slot Delivery)) : List Delivery :=
  slots.filterMap fun s =>
    if s.subdivision.IsAttack then some s.content else none

/-
  What slots behind slots received is behind what these did.
-/
theorem receivedBy_append
    (slots more : List (Slot Delivery)) :
    receivedBy (slots ++ more) =
      receivedBy slots ++ receivedBy more :=
  List.filterMap_append

namespace Cue

variable {α β : Type}

/- The item of the lyric stream that a cue is. -/
def item : Cue α → LyricItem
  | directive d => .directive d
  | beat b _ => .beat b
  | barline i => .barline i

/- The slots of a cue. -/
def slots : Cue α → List (Slot α)
  | beat _ slots => slots
  | _ => []

/- A cue with something else in its slots. -/
def map
    (f : α → β) : Cue α → Cue β
  | directive d => .directive d
  | beat b slots =>
      .beat b
        (slots.map fun s => ⟨s.subdivision, f s.content⟩)
  | barline i => .barline i

/- A barline. -/
def isBarline
    (c : Cue α) : Bool :=
  c.item.isBarline

/- What the attacks of cues received, in order. -/
def received
    (cues : List (Cue Delivery)) : List Delivery :=
  receivedBy (cues.flatMap slots)

end Cue

/- The segment `i` of the cues of a block. -/
def Block.cueSegment
    (b : Block)
    (i : Nat) : List (Cue Delivery) :=
  segmentOf Cue.isBarline b.cues i

------------------------------------------------------------
-- Beats
------------------------------------------------------------

namespace PitchStream

/- Every subdivision gets a slot. -/
theorem subdivisions_fill
    (s : PitchStream)
    (subs : List Subdivision) :
    (s.fill subs).1.map Slot.subdivision = subs := by
  induction subs generalizing s with
  | nil =>
      rfl
  | cons sub subs ih =>
      simp [fill, ih]

/- A subdivision that is no attack receives nothing. -/
theorem content_fill_of_not_isAttack
    (s : PitchStream)
    (subs : List Subdivision)
    {slot : Slot Delivery}
    (hSlot : slot ∈ (s.fill subs).1)
    (hHolds : ¬ slot.subdivision.IsAttack) :
    slot.content = {} := by
  induction subs generalizing s with
  | nil =>
      simp [fill] at hSlot
  | cons sub subs ih =>
      simp only [fill, List.mem_cons] at hSlot
      rcases hSlot with rfl | hSlot
      · simp only at hHolds
        simp [hHolds]
      · exact ih _ hSlot

/-
  The subdivisions of a beat leave the later segments alone.
-/
theorem segment_fill_succ
    (s : PitchStream)
    (subs : List Subdivision)
    (i : Nat) :
    (s.fill subs).2.segment (i + 1) = s.segment (i + 1) := by
  induction subs generalizing s with
  | nil =>
      rfl
  | cons sub subs ih =>
      by_cases hAttack : sub.IsAttack
      · simp [fill, hAttack, ih, segment_attack_succ]
      · simp [fill, hAttack, ih]

/-
  Behind a beat the segment at hand has lost a
  share for each attack.
-/
theorem share_segment_fill
    (s : PitchStream)
    (subs : List Subdivision)
    (j : Nat) :
    ((s.fill subs).2.segment 0).share j =
      (s.segment 0).share (attackCount subs + j) := by
  induction subs generalizing s with
  | nil =>
      simp [fill, attackCount]
  | cons sub subs ih =>
      by_cases hAttack : sub.IsAttack
      · have hCount :
            attackCount (sub :: subs) + j =
              attackCount subs + j + 1 := by
          simp [attackCount, hAttack]
          omega
        rw [hCount, ← share_segment_attack]
        simp [fill, hAttack, ih]
      · simp [fill, hAttack, ih, attackCount]

/-
  The attacks of a beat receive the first shares of the
  segment at hand.
-/
theorem receivedBy_fill
    (s : PitchStream)
    (subs : List Subdivision) :
    receivedBy (s.fill subs).1 =
      (List.range (attackCount subs)).map
        (s.segment 0).share := by
  induction subs generalizing s with
  | nil =>
      rfl
  | cons sub subs ih =>
      by_cases hAttack : sub.IsAttack
      · have hShares :
            (s.attack.2.segment 0).share =
              (s.segment 0).share ∘ Nat.succ := by
          funext j
          exact share_segment_attack s j
        have hCount :
            attackCount (sub :: subs) =
              attackCount subs + 1 := by
          simp [attackCount, hAttack]
        have hFirst :
            receivedBy (s.fill (sub :: subs)).1 =
              s.attack.1 ::
                receivedBy (s.attack.2.fill subs).1 := by
          simp [fill, receivedBy, hAttack]
        rw [hFirst, ih, hShares, hCount,
          List.range_succ_eq_map, attack_eq_share]
        simp
      · have hNone :
            receivedBy (s.fill (sub :: subs)).1 =
              receivedBy (s.fill subs).1 := by
          simp [fill, receivedBy, hAttack]
        rw [hNone, ih]
        simp [attackCount, hAttack]

------------------------------------------------------------
-- Blocks
------------------------------------------------------------

/- The cues of a lyric stream are its items. -/
theorem map_item_cues
    (s : PitchStream)
    (items : List LyricItem) :
    (s.cues items).map Cue.item = items := by
  induction items generalizing s with
  | nil =>
      rfl
  | cons item items ih =>
      cases item <;> simp [cues, Cue.item, ih]

/-
  The attacks of the lyric segment `i` receive the shares of
  the pitch segment `i` in turn.  The induction is on the
  lyric stream, over any pitch stream that is left: a beat
  uses up shares of the segment at hand, and a barline moves
  on to the next segment on both sides.
-/
theorem received_segment_cues
    (s : PitchStream)
    (items : List LyricItem)
    (i : Nat) :
    Cue.received (segmentOf Cue.isBarline (s.cues items) i) =
      (List.range
        (attackCount
          ((segmentOf LyricItem.isBarline items i).flatMap
            LyricItem.subdivisions))).map
        (s.segment i).share := by
  induction items generalizing s i with
  | nil =>
      simp [cues, Cue.received, receivedBy, attackCount]
  | cons item items ih =>
      cases item with
      | directive d =>
          cases i with
          | zero =>
              rw [cues, segmentOf_cons_zero rfl,
                segmentOf_cons_zero rfl]
              exact ih s 0
          | succ i =>
              rw [cues, segmentOf_cons_succ rfl,
                segmentOf_cons_succ rfl]
              exact ih s (i + 1)
      | barline measure =>
          cases i with
          | zero =>
              rw [cues, segmentOf_cut_zero rfl,
                segmentOf_cut_zero rfl]
              rfl
          | succ i =>
              rw [cues, segmentOf_cut_succ rfl,
                segmentOf_cut_succ rfl, ih,
                segment_passBarline]
      | beat b =>
          cases i with
          | zero =>
              have hLater :
                  ((s.fill b.subdivisions).2.segment 0).share =
                    fun j =>
                      (s.segment 0).share
                        (attackCount b.subdivisions +
                          j) := by
                funext j
                exact share_segment_fill s b.subdivisions j
              have hCount (rest : List Subdivision) :
                  attackCount (b.subdivisions ++ rest) =
                    attackCount b.subdivisions +
                      attackCount rest := by
                simp [attackCount]
              rw [cues, segmentOf_cons_zero rfl,
                segmentOf_cons_zero rfl]
              simp only [Cue.received, List.flatMap_cons,
                Cue.slots, receivedBy_append,
                LyricItem.subdivisions, hCount,
                List.range_add, List.map_append,
                List.map_map]
              rw [receivedBy_fill]
              have hRest := ih (s.fill b.subdivisions).2 0
              rw [hLater] at hRest
              exact congrArg _ hRest
          | succ i =>
              rw [cues, segmentOf_cons_succ rfl,
                segmentOf_cons_succ rfl, ih,
                segment_fill_succ]

/- The slots of the cues of a lyric stream, by their beats. -/
theorem slots_of_mem_cues
    (s : PitchStream)
    (items : List LyricItem)
    {cue : Cue Delivery}
    (hCue : cue ∈ s.cues items) :
    cue.slots.map Slot.subdivision = cue.item.subdivisions ∧
      ∀ slot ∈ cue.slots,
        ¬ slot.subdivision.IsAttack →
          slot.content = {} := by
  induction items generalizing s with
  | nil =>
      simp [cues] at hCue
  | cons item items ih =>
      cases item with
      | directive d =>
          rcases List.mem_cons.mp hCue with rfl | hRest
          · simp [Cue.slots, Cue.item, LyricItem.subdivisions]
          · exact ih s hRest
      | barline measure =>
          rcases List.mem_cons.mp hCue with rfl | hRest
          · simp [Cue.slots, Cue.item, LyricItem.subdivisions]
          · exact ih _ hRest
      | beat b =>
          rcases List.mem_cons.mp hCue with rfl | hRest
          · exact ⟨subdivisions_fill s b.subdivisions,
              fun slot hSlot =>
                content_fill_of_not_isAttack s
                  b.subdivisions hSlot⟩
          · exact ih _ hRest

end PitchStream

------------------------------------------------------------
-- Voices
------------------------------------------------------------

namespace Voicing

/- A voiced attack keeps what it received. -/
@[simp] theorem delivery_attack
    (v : Voicing)
    (delivery : Delivery) :
    (v.attack delivery).1.delivery = delivery := by
  cases hElement : delivery.element <;> simp [attack, hElement]

/- Voiced slots keep what they received. -/
theorem map_delivery_slots
    (v : Voicing)
    (slots : List (Slot Delivery)) :
    (v.slots slots).1.map (fun s =>
        ⟨s.subdivision, s.content.delivery⟩) =
      slots := by
  induction slots generalizing v with
  | nil =>
      rfl
  | cons slot slots ih =>
      simp [Voicing.slots, ih]

/- Voiced cues keep what they received. -/
theorem map_delivery_cues
    (v : Voicing)
    (cues : List (Cue Delivery)) :
    (v.cues cues).map (Cue.map Attack.delivery) = cues := by
  induction cues generalizing v with
  | nil =>
      rfl
  | cons cue cues ih =>
      cases cue with
      | directive d =>
          simp [Voicing.cues, Cue.map, ih]
      | barline measure =>
          simp [Voicing.cues, Cue.map, ih]
      | beat b slots =>
          simp [Voicing.cues, Cue.map, ih, map_delivery_slots]

/-
  A slot has the voices that some voicing
  makes of what it received.
-/
theorem exists_of_mem_slots
    {v : Voicing}
    {received : List (Slot Delivery)}
    {slot : Slot Attack}
    (hSlot : slot ∈ (v.slots received).1) :
    ∃ r ∈ received,
      ∃ w : Voicing,
        slot = ⟨r.subdivision, (w.attack r.content).1⟩ := by
  induction received generalizing v with
  | nil =>
      cases hSlot
  | cons r received ih =>
      simp only [Voicing.slots, List.mem_cons] at hSlot
      rcases hSlot with rfl | hSlot
      · exact ⟨r, List.mem_cons_self, v, rfl⟩
      · rcases ih hSlot with ⟨other, hOther, w, hSame⟩
        exact ⟨other, List.mem_cons_of_mem _ hOther, w, hSame⟩

/- Each slot of voiced cues sounds what a slot received. -/
theorem exists_of_mem_cues
    {v : Voicing}
    {received : List (Cue Delivery)}
    {cue : Cue Attack}
    (hCue : cue ∈ v.cues received)
    {slot : Slot Attack}
    (hSlot : slot ∈ cue.slots) :
    ∃ other ∈ received, ∃ r ∈ other.slots, ∃ w : Voicing,
      slot = ⟨r.subdivision, (w.attack r.content).1⟩ := by
  induction received generalizing v with
  | nil =>
      cases hCue
  | cons first received ih =>
      cases first with
      | directive d =>
          rcases List.mem_cons.mp hCue with rfl | hCue
          · cases hSlot
          · rcases ih hCue with ⟨other, hOther, hRest⟩
            exact ⟨other, List.mem_cons_of_mem _ hOther, hRest⟩
      | barline measure =>
          rcases List.mem_cons.mp hCue with rfl | hCue
          · cases hSlot
          · rcases ih hCue with ⟨other, hOther, hRest⟩
            exact ⟨other, List.mem_cons_of_mem _ hOther, hRest⟩
      | beat b slots =>
          rcases List.mem_cons.mp hCue with rfl | hCue
          · exact ⟨.beat b slots, List.mem_cons_self,
              exists_of_mem_slots hSlot⟩
          · rcases ih hCue with ⟨other, hOther, hRest⟩
            exact ⟨other, List.mem_cons_of_mem _ hOther, hRest⟩

end Voicing

theorem Cue.item_map
    {α β : Type}
    (f : α → β)
    (cue : Cue α) :
    (cue.map f).item = cue.item := by
  cases cue <;> rfl

theorem Cue.subdivisions_map
    {α β : Type}
    (f : α → β)
    (cue : Cue α) :
    (cue.map f).slots.map Slot.subdivision =
      cue.slots.map Slot.subdivision := by
  cases cue <;> simp [Cue.map, Cue.slots]

namespace Block

/- The voices of a block run along its lyric stream. -/
theorem map_item_voices
    (b : Block) :
    b.voices.map Cue.item = b.lyricStream := by
  have hCues :=
    PitchStream.map_item_cues b.pitchStream b.lyricStream
  rw [← Block.cues, ← Voicing.map_delivery_cues {} b.cues,
    ← Block.voices, List.map_map] at hCues
  rw [← hCues]
  exact List.map_congr_left fun cue _ =>
    (Cue.item_map Attack.delivery cue).symm

/- The slots of a cue have the subdivisions of its item. -/
theorem subdivisions_of_mem_voices
    {b : Block}
    {cue : Cue Attack}
    (hCue : cue ∈ b.voices) :
    cue.slots.map Slot.subdivision = cue.item.subdivisions := by
  have hReceived : cue.map Attack.delivery ∈ b.cues := by
    rw [← Voicing.map_delivery_cues {} b.cues]
    exact List.mem_map_of_mem hCue
  rw [← Cue.subdivisions_map Attack.delivery,
    ← Cue.item_map Attack.delivery]
  exact (PitchStream.slots_of_mem_cues _ _ hReceived).1

/- A subdivision that is no attack sounds nothing. -/
theorem voices_of_not_isAttack
    {b : Block}
    {cue : Cue Attack}
    (hCue : cue ∈ b.voices)
    {slot : Slot Attack}
    (hSlot : slot ∈ cue.slots)
    (hHolds : ¬ slot.subdivision.IsAttack) :
    slot.content.voices = [] := by
  rcases Voicing.exists_of_mem_cues hCue hSlot with
    ⟨other, hOther, r, hReceived, w, rfl⟩
  have hNothing : r.content = {} :=
    (PitchStream.slots_of_mem_cues _ _ hOther).2 r
      hReceived hHolds
  rw [hNothing]
  rfl

end Block

/-
  Alignment.  The cues of a block are its lyric stream, with a
  slot for each subdivision.  In the lyric segment `i`, attack
  by attack, the shares of the pitch segment `i` are received
  in turn, an empty one where the segment has no more; a
  subdivision that is no attack receives nothing.  The voices
  that drawing and playing start from hold the same.
-/
theorem Block.attacks_receive_shares
    (b : Block) :
    b.cues.map Cue.item = b.lyricStream ∧
      (∀ cue ∈ b.cues,
        cue.slots.map Slot.subdivision =
            cue.item.subdivisions ∧
          ∀ slot ∈ cue.slots,
            ¬ slot.subdivision.IsAttack →
              slot.content = {}) ∧
      (∀ i,
        Cue.received (b.cueSegment i) =
          (List.range
            (attackCount
              ((b.lyricSegment i).flatMap
                LyricItem.subdivisions))).map
            (PitchStream.segment b.pitchStream i).share) ∧
      b.voices.map (Cue.map Attack.delivery) = b.cues := by
  refine ⟨?_, ?_, ?_, ?_⟩
  · exact PitchStream.map_item_cues b.pitchStream b.lyricStream
  · intro cue hCue
    exact PitchStream.slots_of_mem_cues b.pitchStream
      b.lyricStream hCue
  · intro i
    exact PitchStream.received_segment_cues b.pitchStream
      b.lyricStream i
  · exact Voicing.map_delivery_cues {} b.cues

end LyricScore
