import LyricScore.Score.LyricDraft
import Mathlib.Data.List.SplitBy
import Mathlib.Data.List.TakeWhile

/-
  This file says what written lyric lines mean, without a
  draft: measures end at barlines, beats are the longest runs
  of units without white space between them, and every unit
  has its share of its beat.  The reader of lyric lines makes
  the same line, unit by unit.

  Key definitions include:
    * `Share`, `LyricUnit.share`
    * `lineShares`
    * `beatsOf`
    * `measuresOf`
    * `LyricLine.ofLines`

  Key theorems include:
    * `LyricDraft.addUnits_eq`
    * `LyricDraft.addShares_run`
    * `LyricDraft.addShares_line`
    * `LyricLine.ofUnits_eq`
-/

namespace LyricScore

------------------------------------------------------------
-- Shares
------------------------------------------------------------

/- A unit, and what it adds to its beat. -/
structure Share where
  unit : LyricUnit
  elements : List BeatElement
deriving DecidableEq, Repr

namespace LyricUnit

/-
  A unit that a line has content from: any token but a dot.
-/
def isContent : LyricUnit → Bool
  | mark t => t.kind ≠ .dot
  | group _ => false

/- The directives of a unit. -/
def directives : LyricUnit → List Directive
  | mark _ => []
  | group g => g.directives

/-
  What a unit adds to its beat.  Groups add their directives,
  but those before any content of the line add nothing.
-/
def share
    (met : Bool) : LyricUnit → Share
  | mark t => ⟨mark t, t.beatElements⟩
  | group g =>
      ⟨group g,
        if met then g.directives.map .directive else []⟩

end LyricUnit

/-
  The shares of units, where `met` tells whether content
  stands before them.
-/
def shares
    (met : Bool) : List LyricUnit → List Share
  | [] => []
  | u :: us => u.share met :: shares (met || u.isContent) us

/- The shares of the units of written lines, line by line. -/
def lineShares
    (met : Bool) : List (List LyricUnit) → List (List Share)
  | [] => []
  | line :: lines =>
      shares met line ::
        lineShares
          (met || line.any LyricUnit.isContent) lines

/- The directives of the groups before any content. -/
def leadingDirectives
    (met : Bool)
    (units : List LyricUnit) : List Directive :=
  if met then []
  else
    (units.takeWhile fun u => !u.isContent).flatMap
      LyricUnit.directives

------------------------------------------------------------
-- Beats and measures
------------------------------------------------------------

namespace Share

/-
  No white space stands between a unit
  and the one behind it.
-/
def touches
    (x y : Share) : Bool :=
  y.unit.first.AdjacentTo x.unit.last

/- A share that ends no measure. -/
def isInside
    (x : Share) : Bool :=
  !x.unit.isBarline

end Share

/-
  The beat of some elements, which starts at the first; no
  elements are no beat.
-/
def beatOf? : List BeatElement → Option Beat
  | [] => none
  | e :: es => some ⟨e :: es, e.location⟩

/-
  The beats of a measure: one for each run without white
  space, if it adds something.
-/
def beatsOf
    (xs : List Share) : List Beat :=
  (xs.splitBy Share.touches).filterMap fun run =>
    beatOf? (run.flatMap Share.elements)

/-
  The measures of a line: up to each barline, and what stands
  behind the last one if there are beats.
-/
def measuresOf
    (xs : List Share) : List LyricMeasure :=
  match _h : xs.dropWhile Share.isInside with
  | [] =>
      if beatsOf xs = [] then []
      else [⟨beatsOf xs, false, {}⟩]
  | bar :: rest =>
    ⟨beatsOf (xs.takeWhile Share.isInside), true,
        bar.unit.first.location⟩ :: measuresOf rest
termination_by xs.length
decreasing_by
  have hLength :=
    (List.dropWhile_suffix Share.isInside
      (l := xs)).length_le
  rw [_h, List.length_cons] at hLength
  omega

/-
  Shares without a barline are one measure without a
  barline, if they have beats.
-/
theorem measuresOf_inside
    {xs : List Share}
    (hInside : ∀ x ∈ xs, x.isInside = true) :
    measuresOf xs =
      if beatsOf xs = [] then []
      else [⟨beatsOf xs, false, {}⟩] := by
  have hDrop : xs.dropWhile Share.isInside = [] :=
    List.dropWhile_eq_nil_iff.mpr hInside
  rw [measuresOf, hDrop]

/- Shares before a barline are a measure of their own. -/
theorem measuresOf_barline
    {xs : List Share}
    {bar : Share}
    (hInside : ∀ x ∈ xs, x.isInside = true)
    (hBarline : bar.isInside = false)
    (ys : List Share) :
    measuresOf (xs ++ bar :: ys) =
      ⟨beatsOf xs, true, bar.unit.first.location⟩ ::
        measuresOf ys := by
  have hStop : ¬ bar.isInside = true := by
    simp [hBarline]
  have hTake :
      (xs ++ bar :: ys).takeWhile Share.isInside = xs := by
    rw [List.takeWhile_append_of_pos hInside,
      List.takeWhile_cons_of_neg hStop, List.append_nil]
  have hDrop :
      (xs ++ bar :: ys).dropWhile Share.isInside =
        bar :: ys := by
    rw [List.dropWhile_append_of_pos hInside,
      List.dropWhile_cons_of_neg hStop]
  rw [measuresOf, hTake, hDrop]

/-
  Lines are all inside of one measure, or
  have a first barline.
-/
@[elab_as_elim]
theorem measures_induction
    {motive : List Share → Prop}
    (hInside : ∀ xs, (∀ x ∈ xs, x.isInside = true) → motive xs)
    (hBarline :
      ∀ xs bar ys,
        (∀ x ∈ xs, x.isInside = true) →
          bar.isInside = false →
          motive ys →
          motive (xs ++ bar :: ys))
    (xs : List Share) :
    motive xs := by
  generalize hLength : xs.length = n
  induction n using Nat.strongRecOn generalizing xs with
  | ind n ih =>
      have hSplit :=
        List.takeWhile_append_dropWhile
          (p := Share.isInside) (l := xs)
      have hTaken :
          ∀ x ∈ xs.takeWhile Share.isInside,
            x.isInside = true :=
        fun x hx => List.mem_takeWhile_imp hx
      cases hRest : xs.dropWhile Share.isInside with
      | nil =>
          rw [hRest, List.append_nil] at hSplit
          exact hInside xs (hSplit ▸ hTaken)
      | cons bar ys =>
          have hEnds : bar.isInside = false := by
            have hHead :=
              List.head?_dropWhile_not Share.isInside xs
            rw [hRest] at hHead
            simpa using hHead
          rw [hRest] at hSplit
          have hShorter : ys.length < n := by
            rw [← hLength, ← hSplit, List.length_append,
              List.length_cons]
            omega
          rw [← hSplit]
          exact hBarline _ bar ys hTaken hEnds
            (ih ys.length hShorter ys rfl)

/- The lyric line that written lines mean. -/
def LyricLine.ofLines
    (lines : List (List LyricUnit)) : LyricLine :=
  let measures := (lineShares false lines).flatMap measuresOf
  ⟨leadingDirectives false lines.flatten, measures,
    ⟨(measures.head?.map (·.location.line)).getD 0, 0⟩⟩

------------------------------------------------------------
-- Nothing is lost
------------------------------------------------------------

theorem LyricUnit.share_unit
    (met : Bool)
    (u : LyricUnit) :
    (u.share met).unit = u := by
  cases u <;> rfl

/- Every unit has its share, in order. -/
theorem map_unit_shares
    (met : Bool)
    (us : List LyricUnit) :
    (shares met us).map Share.unit = us := by
  induction us generalizing met with
  | nil =>
      rfl
  | cons u us ih =>
      rw [shares, List.map_cons, ih, u.share_unit]

/- The shares of lines are those of their units, in order. -/
theorem map_unit_lineShares
    (met : Bool)
    (lines : List (List LyricUnit)) :
    (lineShares met lines).flatten.map Share.unit =
      lines.flatten := by
  induction lines generalizing met with
  | nil =>
      rfl
  | cons line lines ih =>
      rw [lineShares, List.flatten_cons, List.map_append,
        ih, map_unit_shares, List.flatten_cons]

/-
  A beat has the elements that it is made of; without
  elements there is none.
-/
theorem elements_beatOf?
    (es : List BeatElement) :
    (beatOf? es).toList.flatMap Beat.elements = es := by
  cases es with
  | nil =>
      rfl
  | cons e es =>
      exact List.append_nil _

/-
  The beats of a measure have the shares
  of its units, in order.
-/
theorem elements_beatsOf
    (xs : List Share) :
    (beatsOf xs).flatMap Beat.elements =
      xs.flatMap Share.elements := by
  have hRuns :
      ∀ runs : List (List Share),
        (runs.filterMap fun run =>
            beatOf? (run.flatMap Share.elements)).flatMap
            Beat.elements =
          runs.flatten.flatMap Share.elements := by
    intro runs
    induction runs with
    | nil =>
        rfl
    | cons run runs ih =>
        have hFirst :=
          elements_beatOf? (run.flatMap Share.elements)
        rw [List.filterMap_cons, List.flatten_cons,
          List.flatMap_append, ← ih]
        cases hBeat : beatOf? (run.flatMap Share.elements) with
        | none =>
            rw [hBeat] at hFirst
            rw [← hFirst]
            rfl
        | some b =>
            rw [hBeat] at hFirst
            rw [← hFirst]
            simp
  rw [beatsOf, hRuns, List.flatten_splitBy]

/-
  The measures of a line have the shares
  of its units, in order.
-/
theorem elements_measuresOf
    (xs : List Share) :
    (measuresOf xs).flatMap (fun m =>
        m.beats.flatMap Beat.elements) =
      (xs.filter Share.isInside).flatMap
        Share.elements := by
  induction xs using measures_induction with
  | hInside xs hInside =>
      rw [measuresOf_inside hInside,
        List.filter_eq_self.mpr hInside, ← elements_beatsOf]
      by_cases hNone : beatsOf xs = []
      · rw [if_pos hNone, hNone]
        rfl
      · rw [if_neg hNone]
        simp
  | hBarline xs bar ys hInside hEnds ih =>
      rw [measuresOf_barline hInside hEnds,
        List.flatMap_cons, ih, List.filter_append,
        List.filter_cons_of_neg (by simp [hEnds]),
        List.filter_eq_self.mpr hInside,
        List.flatMap_append, elements_beatsOf]

/- Every barline ends a measure. -/
theorem countP_barline_measuresOf
    (xs : List Share) :
    (measuresOf xs).countP LyricMeasure.barline =
      xs.countP fun x => x.unit.isBarline := by
  have hNone :
      ∀ us : List Share,
        (∀ x ∈ us, x.isInside = true) →
          (us.countP fun x => x.unit.isBarline) = 0 := by
    intro us hInside
    rw [List.countP_eq_zero]
    intro x hx
    simpa [Share.isInside] using hInside x hx
  induction xs using measures_induction with
  | hInside xs hInside =>
      rw [measuresOf_inside hInside, hNone xs hInside]
      split <;> rfl
  | hBarline xs bar ys hInside hEnds ih =>
      have hBar : bar.unit.isBarline = true := by
        simpa [Share.isInside] using hEnds
      rw [measuresOf_barline hInside hEnds,
        List.countP_cons_of_pos rfl, ih, List.countP_append,
        hNone xs hInside, Nat.zero_add]
      exact (List.countP_cons_of_pos
        (p := fun x : Share => x.unit.isBarline) hBar).symm

------------------------------------------------------------
-- Drafts by shares
------------------------------------------------------------

namespace LyricDraft

variable {d : LyricDraft}
variable {previous : Option LyricUnit}

/- Add the share of a unit. -/
def addShare
    (d : LyricDraft)
    (x : Share) : LyricDraft :=
  if x.unit.isBarline then
    d.closeMeasure true x.unit.first.location
  else { d with elements := d.elements ++ x.elements }

/- Add the shares of a written line. -/
def addShares
    (d : LyricDraft)
    (previous : Option LyricUnit) : List Share → LyricDraft
  | [] => d
  | x :: xs =>
    addShares
      ((if Gap previous x.unit then
          d.closeBeat
        else d).addShare x) (some x.unit) xs

/- A draft with other directives of its line. -/
def withDirectives
    (directives : List Directive)
    (d : LyricDraft) : LyricDraft :=
  { d with directives := directives }

@[simp]
theorem withDirectives_self :
    d.withDirectives d.directives = d :=
  rfl

@[simp]
theorem withDirectives_withDirectives
    (first second : List Directive) :
    (d.withDirectives first).withDirectives second =
      d.withDirectives second :=
  rfl

@[simp]
theorem directives_withDirectives
    (directives : List Directive) :
    (d.withDirectives directives).directives = directives :=
  rfl

/- To close a beat makes a beat of the open elements. -/
theorem closeBeat_eq
    (d : LyricDraft) :
    d.closeBeat =
      { d with
        beats := d.beats ++ (beatOf? d.elements).toList,
        elements := [] } := by
  rcases d with ⟨directives, measures, beats, _ | ⟨e, es⟩⟩
  · simp [closeBeat, beatOf?]
  · rfl

/-
  To close a measure makes a measure of the beats, if there
  are any or if it ends with a barline.
-/
theorem closeMeasure_eq
    (barline : Bool)
    (location : Location)
    (d : LyricDraft) :
    d.closeMeasure barline location =
      if d.closeBeat.beats ≠ [] ∨ barline then
        { d with
          measures :=
            d.measures ++
                [⟨d.closeBeat.beats, barline, location⟩],
                beats :=
              [],
          elements := [] }
      else d.closeBeat := by
  rw [closeMeasure]
  simp only [closeBeat_eq]

/-
  A beat that is about to be ended by a
  measure may be ended before.
-/
theorem closeMeasure_closeBeat
    (barline : Bool)
    (location : Location)
    (d : LyricDraft) :
    d.closeBeat.closeMeasure barline location =
      d.closeMeasure barline location := by
  simp [closeMeasure_eq, closeBeat_eq, beatOf?]

------------------------------------------------------------
-- Content
------------------------------------------------------------

/-
  To close a beat does not change whether there is content.
-/
@[simp]
theorem hasContent_closeBeat :
    d.closeBeat.HasContent ↔ d.HasContent := by
  rcases d with ⟨directives, measures, beats, _ | ⟨e, es⟩⟩
  · rfl
  · simp [closeBeat, HasContent]

/- A barline is content. -/
@[simp]
theorem hasContent_closeMeasure
    (barline : Bool)
    (location : Location) :
    (d.closeMeasure barline location).HasContent ↔
      d.HasContent ∨ barline = true := by
  refine Iff.trans ?_ (or_congr_left hasContent_closeBeat)
  rw [closeMeasure_eq]
  by_cases hEnds : d.closeBeat.beats ≠ [] ∨ barline = true
  · rw [if_pos hEnds]
    refine iff_of_true (.inl (by simp)) ?_
    exact hEnds.imp (fun hBeats => .inr (.inl hBeats)) id
  · rw [if_neg hEnds]
    rw [not_or] at hEnds
    exact (or_iff_left hEnds.2).symm

/- A token that is no dot adds something to its beat. -/
theorem beatElements_eq_nil_iff
    (t : Token) :
    t.beatElements = [] ↔ t.kind = .dot := by
  unfold Token.beatElements
  split <;> simp_all

/- A unit adds content if it is some. -/
theorem hasContent_addUnit
    (d : LyricDraft)
    (u : LyricUnit) :
    (d.addUnit u).HasContent ↔
      d.HasContent ∨ u.isContent = true := by
  cases u with
  | mark t =>
      by_cases hBarline : t.kind = .barline
      · simp [addUnit, hBarline, LyricUnit.isContent]
      · simp only [addUnit, if_neg hBarline, HasContent,
          LyricUnit.isContent, ne_eq,
          List.append_eq_nil_iff, beatElements_eq_nil_iff,
          not_and_or, decide_not, Bool.not_eq_true',
          decide_eq_false_iff_not, or_assoc]
  | group g =>
      by_cases hContent : d.HasContent
      · simp only [addUnit, if_pos hContent,
          LyricUnit.isContent]
        refine iff_of_true ?_ (.inl hContent)
        exact hContent.imp id
          (.imp id fun hElements => by simp [hElements])
      · simp only [addUnit, if_neg hContent,
          LyricUnit.isContent, reduceCtorEq, or_false]
        exact Iff.rfl

------------------------------------------------------------
-- Units add their shares
------------------------------------------------------------

/- Directives do not change how a measure is closed. -/
theorem closeMeasure_withDirectives
    (directives : List Directive)
    (barline : Bool)
    (location : Location)
    (d : LyricDraft) :
    (d.withDirectives directives).closeMeasure barline
        location =
      (d.closeMeasure barline location).withDirectives
        directives := by
  simp only [closeMeasure_eq, closeBeat_eq, withDirectives]
  split <;> rfl

theorem addShare_withDirectives
    (directives : List Directive)
    (d : LyricDraft)
    (x : Share) :
    (d.withDirectives directives).addShare x =
      (d.addShare x).withDirectives directives := by
  unfold addShare
  split
  · exact closeMeasure_withDirectives directives true _ d
  · rfl

/- Directives do not change what shares add. -/
theorem addShares_withDirectives
    (directives : List Directive)
    (d : LyricDraft)
    (previous : Option LyricUnit)
    (xs : List Share) :
    (d.withDirectives directives).addShares previous xs =
      (d.addShares previous xs).withDirectives directives := by
  induction xs generalizing d previous with
  | nil =>
      rfl
  | cons x xs ih =>
      rw [addShares, addShares, ← ih, ← addShare_withDirectives]
      split
      · simp only [closeBeat_eq, withDirectives]
      · rfl

/-
  A unit adds its share, and its directives if no content
  was met before.
-/
theorem addUnit_eq
    (d : LyricDraft)
    (u : LyricUnit) :
    d.addUnit u =
      (d.addShare
        (u.share (decide d.HasContent))).withDirectives
        (d.directives ++
          if d.HasContent then [] else u.directives) := by
  cases u with
  | mark t =>
      have hDirectives :
          d.directives ++
            (if d.HasContent then
                []
              else (LyricUnit.mark t).directives) =
            d.directives := by
        simp [LyricUnit.directives]
      rw [hDirectives]
      simp only [addUnit, addShare, LyricUnit.share,
        LyricUnit.isBarline, decide_eq_true_eq]
      split
      · simp only [closeMeasure_eq, closeBeat_eq,
          withDirectives, LyricUnit.first]
        split <;> rfl
      · rfl
  | group g =>
      by_cases hContent : d.HasContent
      · simp [addUnit, addShare, LyricUnit.share,
          LyricUnit.isBarline, hContent, withDirectives]
      · simp [addUnit, addShare, LyricUnit.share,
          LyricUnit.isBarline, hContent, withDirectives,
          LyricUnit.directives]

/- Directives lead as long as no content is met. -/
theorem leadingDirectives_cons
    (met : Bool)
    (u : LyricUnit)
    (us : List LyricUnit) :
    leadingDirectives met (u :: us) =
      (if met = true then [] else u.directives) ++
        leadingDirectives (met || u.isContent) us := by
  cases met with
  | true =>
      rfl
  | false =>
      cases hContent : u.isContent with
      | false =>
          simp [leadingDirectives, hContent]
      | true =>
          have hNone : u.directives = [] := by
            cases u with
            | mark t =>
                rfl
            | group g =>
                cases hContent
          simp [leadingDirectives, hContent, hNone]

/-
  The units of a line add their shares, and their leading
  directives to the line.
-/
theorem addUnits_eq
    (d : LyricDraft)
    (previous : Option LyricUnit)
    (us : List LyricUnit) :
    d.addUnits previous us =
      (d.addShares previous
        (shares (decide d.HasContent) us)).withDirectives
        (d.directives ++
          leadingDirectives (decide d.HasContent) us) := by
  induction us generalizing d previous with
  | nil =>
      simp [addUnits, shares, addShares, leadingDirectives]
  | cons u us ih =>
      obtain ⟨e, hDraft⟩ :
          ∃ e,
            e = if Gap previous u then d.closeBeat else d :=
        ⟨_, rfl⟩
      have hContent :
          decide e.HasContent = decide d.HasContent := by
        rw [hDraft]
        split <;> simp
      have hDirectives : e.directives = d.directives := by
        rw [hDraft, closeBeat_eq]
        split <;> rfl
      have hNext :
          decide (e.addUnit u).HasContent =
            (decide d.HasContent || u.isContent) := by
        rw [Bool.eq_iff_iff, decide_eq_true_eq,
          hasContent_addUnit, Bool.or_eq_true, ← hContent,
          decide_eq_true_eq]
      have hAdded := addUnit_eq e u
      rw [hContent, hDirectives] at hAdded
      rw [addUnits, ← hDraft, ih, hNext, shares, addShares,
        u.share_unit, ← hDraft, hAdded,
        addShares_withDirectives, leadingDirectives_cons]
      simp [List.append_assoc, ← hContent]

------------------------------------------------------------
-- Runs, measures, lines
------------------------------------------------------------

/- A gap stands where two units do not touch. -/
theorem gap_some_iff
    (last x : Share) :
    Gap (some last.unit) x.unit ↔ last.touches x = false := by
  simp [Gap, Share.touches]

/- Shares that touch are one beat. -/
theorem beatsOf_run
    {run : List Share}
    (hRun : run.IsChain fun x y => x.touches y)
    (hNonempty : run ≠ []) :
    beatsOf run =
      (beatOf? (run.flatMap Share.elements)).toList := by
  rw [beatsOf, List.splitBy_of_isChain hNonempty hRun]
  cases hBeat : beatOf? (run.flatMap Share.elements) <;>
    simp [hBeat]

/- Beats end where two units do not touch. -/
theorem beatsOf_append_cons
    {run xs : List Share}
    {last x : Share}
    (hLast : run.getLast? = some last)
    (hGap : last.touches x = false) :
    beatsOf (run ++ x :: xs) =
      beatsOf run ++ beatsOf (x :: xs) := by
  have hApart : ∀ y ∈ run.getLast?, y.touches x = false := by
    rintro y hy
    cases hLast.symm.trans hy
    exact hGap
  rw [beatsOf, List.splitBy_append_cons xs hApart,
    List.filterMap_append]
  rfl

/- The open beat has the elements of the run that goes on. -/
theorem addShares_run
    {run xs : List Share}
    {last : Share}
    (hLast : run.getLast? = some last)
    (hRun : run.IsChain fun x y => x.touches y)
    (hElements : d.elements = run.flatMap Share.elements)
    (hInside : ∀ x ∈ xs, x.isInside = true) :
    (d.addShares (some last.unit) xs).closeBeat =
      { d with
        beats := d.beats ++ beatsOf (run ++ xs),
        elements := [] } := by
  have hNonempty : run ≠ [] := by
    rintro rfl
    cases hLast
  induction xs generalizing d run last with
  | nil =>
      rw [addShares, closeBeat_eq, List.append_nil,
        beatsOf_run hRun hNonempty, hElements]
  | cons x xs ih =>
      rw [List.forall_mem_cons] at hInside
      have hNoBarline : ¬ x.unit.isBarline = true := by
        simpa [Share.isInside] using hInside.1
      rw [addShares]
      by_cases hGap : Gap (some last.unit) x.unit
      · have hApart := (gap_some_iff last x).mp hGap
        rw [if_pos hGap, addShare, if_neg hNoBarline,
          beatsOf_append_cons hLast hApart,
          beatsOf_run hRun hNonempty, ← hElements]
        have hAlone : [x].getLast? = some x := rfl
        rw [ih hAlone (List.isChain_singleton x) _ hInside.2
          (List.cons_ne_nil x [])]
        · simp [closeBeat_eq]
        · simp [closeBeat_eq]
      · have hTouch : last.touches x = true := by
          rw [gap_some_iff, Bool.not_eq_false] at hGap
          exact hGap
        rw [if_neg hGap, addShare, if_neg hNoBarline]
        have hLonger : (run ++ [x]).getLast? = some x :=
          List.getLast?_concat
        have hChain :
            (run ++ [x]).IsChain fun x y =>
              x.touches y := by
          refine List.isChain_append.mpr
            ⟨hRun, List.isChain_singleton x, ?_⟩
          rintro y hy z ⟨⟩
          cases hLast.symm.trans hy
          exact hTouch
        rw [ih hLonger hChain _ hInside.2
          (List.concat_ne_nil x run)]
        · rw [List.append_assoc, List.singleton_append]
        · simp [hElements]

/-
  In an open measure without an open beat, the units make
  the beats of the measure.
-/
theorem addShares_measure
    {xs : List Share}
    (hElements : d.elements = [])
    (hInside : ∀ x ∈ xs, x.isInside = true) :
    (d.addShares previous xs).closeBeat =
      { d with
        beats := d.beats ++ beatsOf xs,
        elements := [] } := by
  cases xs with
  | nil =>
      rw [addShares, closeBeat_eq, hElements]
      rfl
  | cons x xs =>
      rw [List.forall_mem_cons] at hInside
      have hNoBarline : ¬ x.unit.isBarline = true := by
        simpa [Share.isInside] using hInside.1
      have hNoBeat :
          (if Gap previous x.unit then d.closeBeat else d) =
            d := by
        split
        · simp [closeBeat, hElements]
        · rfl
      rw [addShares, hNoBeat, addShare, if_neg hNoBarline]
      have hAlone : [x].getLast? = some x := rfl
      rw [addShares_run hAlone (List.isChain_singleton x) _
        hInside.2]
      · rfl
      · simp [hElements]

theorem addShares_append
    (d : LyricDraft)
    (previous : Option LyricUnit)
    (xs ys : List Share) :
    d.addShares previous (xs ++ ys) =
      (d.addShares previous xs).addShares
        ((xs.getLast?.map Share.unit).or previous) ys := by
  induction xs generalizing d previous with
  | nil =>
      rfl
  | cons x xs ih =>
      rw [List.cons_append, addShares, addShares, ih,
        List.getLast?_cons]
      cases xs.getLast? <;> rfl

/-
  What a measure that ends without a barline adds to a line.
-/
theorem closeMeasure_of_closeBeat
    {e : LyricDraft}
    {beats : List Beat}
    (barline : Bool)
    (location : Location)
    (hBeats : d.beats = [])
    (hClosed :
      e.closeBeat =
        { d with
          beats := d.beats ++ beats, elements := [] }) :
    e.closeMeasure barline location =
      { d with
        measures :=
          d.measures ++
            if beats ≠ [] ∨ barline then
              [⟨beats, barline, location⟩]
            else [],
        elements := [] } := by
  rw [hBeats, List.nil_append] at hClosed
  have hDirectives : e.directives = d.directives := by
    have hSame := congrArg LyricDraft.directives hClosed
    rwa [closeBeat_eq] at hSame
  have hMeasures : e.measures = d.measures := by
    have hSame := congrArg LyricDraft.measures hClosed
    rwa [closeBeat_eq] at hSame
  have hOpen : e.closeBeat.beats = beats := by
    rw [hClosed]
  rw [closeMeasure_eq, hOpen]
  by_cases hEnds : beats ≠ [] ∨ barline = true
  · rw [if_pos hEnds, if_pos hEnds, hDirectives, hMeasures,
      hBeats]
  · rw [if_neg hEnds, if_neg hEnds, hClosed,
      List.append_nil, hBeats]
    rw [not_or, not_not] at hEnds
    rw [hEnds.1]

/- A written line makes its measures. -/
theorem addShares_line
    {xs : List Share}
    (hBeats : d.beats = [])
    (hElements : d.elements = []) :
    (d.addShares previous xs).closeMeasure false {} =
      { d with measures := d.measures ++ measuresOf xs } := by
  induction xs using measures_induction generalizing d
    previous with
  | hInside xs hInside =>
      rw [closeMeasure_of_closeBeat false {} hBeats
          (addShares_measure hElements hInside),
        measuresOf_inside hInside, hElements]
      by_cases hNone : beatsOf xs = []
      · simp [hNone]
      · simp [hNone]
  | hBarline xs bar ys hInside hEnds ih =>
      have hBar : bar.unit.isBarline = true := by
        simpa [Share.isInside] using hEnds
      have hClosed :
          (d.addShares previous xs).closeBeat =
            { d with
              beats := d.beats ++ beatsOf xs,
              elements := [] } :=
        addShares_measure hElements hInside
      have hMeasure :=
        closeMeasure_of_closeBeat true
          bar.unit.first.location hBeats hClosed
      rw [if_pos (.inr rfl)] at hMeasure
      generalize hEnded : closeMeasure true
        bar.unit.first.location (d.addShares previous xs) =
        e at hMeasure
      have hBeats' : e.beats = [] := by
        rw [hMeasure]
        exact hBeats
      have hElements' : e.elements = [] := by
        rw [hMeasure]
      rw [measuresOf_barline hInside hEnds,
        addShares_append, addShares, addShare, if_pos hBar,
        apply_ite
          (closeMeasure true bar.unit.first.location),
        closeMeasure_closeBeat, ite_self, hEnded,
        ih hBeats' hElements', hMeasure, hElements,
        List.append_assoc]
      rfl

/- Units add content if one of them is some. -/
theorem hasContent_addUnits
    (d : LyricDraft)
    (previous : Option LyricUnit)
    (us : List LyricUnit) :
    (d.addUnits previous us).HasContent ↔
      d.HasContent ∨ us.any LyricUnit.isContent = true := by
  induction us generalizing d previous with
  | nil =>
      simp [addUnits]
  | cons u us ih =>
      rw [addUnits, ih, hasContent_addUnit, List.any_cons,
        Bool.or_eq_true, or_assoc]
      refine or_congr_left ?_
      split
      · exact hasContent_closeBeat
      · exact Iff.rfl

/-
  A written line is added to a draft
  whose measures are ended.
-/
theorem addLine_eq
    (line : List LyricUnit)
    (hBeats : d.beats = [])
    (hElements : d.elements = []) :
    d.addLine line =
      { d with
        directives :=
          d.directives ++
            leadingDirectives (decide d.HasContent) line,
        measures :=
          d.measures ++
            measuresOf
              (shares (decide d.HasContent) line) } := by
  rw [addLine, addUnits_eq, closeMeasure_withDirectives,
    addShares_line hBeats hElements]
  rfl

/-
  A line has content, unless it is all directives and dots.
-/
theorem hasContent_addLine
    (d : LyricDraft)
    (line : List LyricUnit) :
    (d.addLine line).HasContent ↔
      d.HasContent ∨
        line.any LyricUnit.isContent = true := by
  rw [addLine, hasContent_closeMeasure, hasContent_addUnits]
  simp

/-
  Directives that lead a line lead all lines, as long as no
  content is met.
-/
theorem leadingDirectives_append
    (met : Bool)
    (us vs : List LyricUnit) :
    leadingDirectives met (us ++ vs) =
      leadingDirectives met us ++
        leadingDirectives
          (met || us.any LyricUnit.isContent) vs := by
  induction us generalizing met with
  | nil =>
      simp [leadingDirectives]
  | cons u us ih =>
      rw [List.cons_append, leadingDirectives_cons,
        leadingDirectives_cons, ih, List.any_cons,
        List.append_assoc, Bool.or_assoc]

/-
  A draft of lines has the measures of their shares and the
  directives before all content.
-/
theorem foldl_addLine
    (lines : List (List LyricUnit))
    (hBeats : d.beats = [])
    (hElements : d.elements = []) :
    lines.foldl addLine d =
      { d with
        directives :=
          d.directives ++
            leadingDirectives (decide d.HasContent)
              lines.flatten,
        measures :=
          d.measures ++
            (lineShares (decide d.HasContent)
              lines).flatMap measuresOf } := by
  induction lines generalizing d with
  | nil =>
      simp [lineShares, leadingDirectives]
  | cons line lines ih =>
      have hAdded := addLine_eq line hBeats hElements
      have hContent :
          decide (d.addLine line).HasContent =
            (decide d.HasContent ||
              line.any LyricUnit.isContent) := by
        rw [Bool.eq_iff_iff, decide_eq_true_eq,
          hasContent_addLine, Bool.or_eq_true,
          decide_eq_true_eq]
      have hBeats' : (d.addLine line).beats = [] := by
        rw [hAdded]
        exact hBeats
      have hElements' : (d.addLine line).elements = [] := by
        rw [hAdded]
        exact hElements
      rw [List.foldl_cons, ih hBeats' hElements', hContent,
        hAdded, lineShares, List.flatten_cons,
        leadingDirectives_append, List.flatMap_cons]
      simp only [List.append_assoc]

end LyricDraft

/- The reader of lyric lines makes the line that they mean. -/
theorem LyricLine.ofUnits_eq
    (lines : List (List LyricUnit)) :
    ofUnits lines = ofLines lines := by
  rw [ofUnits, LyricDraft.foldl_addLine lines rfl rfl]
  rfl

end LyricScore
