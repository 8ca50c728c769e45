import LyricScore.Proofs.Manuscript.Trace
import LyricScore.Proofs.Partition
import LyricScore.Proofs.Score.LyricGrammar
import LyricScore.Score.Parse

/-
  This file reads lines of a score in order: the directives of
  the line first, and behind what a measure holds its barline.
  A line has the nodes of the units that it is written with,
  in their order.  It has no beat without elements, and of
  measures without a barline none is empty.

  Key definitions include:
    * `LyricLine.nodes`, `PitchLine.nodes`
    * `Beat.IsPlaced`
    * `LyricMeasure.IsFilled`, `PitchMeasure.IsFilled`
    * `Share.nodes`
    * `Block.IsReadFrom`

  Key theorems include:
    * `LyricLine.forall_mem_nodes`, `PitchLine.forall_mem_nodes`
    * `measuresOf_nodes`, `shares_nodes`
    * `PitchDraft.addUnit_nodes`
    * `LyricLine.ofUnits_nodes`, `PitchLine.ofUnits_nodes`
    * `LyricLine.ofUnits_filled`, `PitchLine.ofUnits_filled`
    * `Score.blocks_are_read`
-/

namespace LyricScore

------------------------------------------------------------
-- Lines in reading order
------------------------------------------------------------

/- The barline of a measure, if it has one. -/
def barlineNodes
    (barline : Bool)
    (location : Location) : List Node :=
  if barline then [.barline location] else []

/- The elements of a beat, in order. -/
def Beat.nodes
    (b : Beat) : List Node :=
  b.elements.map BeatElement.node

/- The beats of a measure, and its barline. -/
def LyricMeasure.nodes
    (m : LyricMeasure) : List Node :=
  m.beats.flatMap Beat.nodes ++
    barlineNodes m.barline m.location

/- The directives of a line, and its measures. -/
def LyricLine.nodes
    (l : LyricLine) : List Node :=
  l.directives.map .directive ++
    l.measures.flatMap LyricMeasure.nodes

/-
  An element of a measure; a chord
  stands before its pitches.
-/
def PitchElement.nodes : PitchElement → List Node
  | pitch p => [.pitch p]
  | chord c => .chord c.location :: c.pitches.map .pitch
  | directive d => [.directive d]

/- The elements of a measure, and its barline. -/
def PitchMeasure.nodes
    (m : PitchMeasure) : List Node :=
  m.elements.flatMap PitchElement.nodes ++
    barlineNodes m.barline m.location

/- The directives of a line, and its measures. -/
def PitchLine.nodes
    (l : PitchLine) : List Node :=
  l.directives.map .directive ++
    l.measures.flatMap PitchMeasure.nodes

section Members

variable {P : Node → Prop}

/- A barline node is there just for a barline. -/
theorem forall_mem_barlineNodes
    {barline : Bool}
    {location : Location} :
    (∀ node ∈ barlineNodes barline location, P node) ↔
      (barline = true → P (.barline location)) := by
  cases barline <;> simp [barlineNodes]

/-
  What holds of all nodes of a lyric line holds wherever the
  line has one.
-/
theorem LyricLine.forall_mem_nodes
    {l : LyricLine} :
    (∀ node ∈ l.nodes, P node) ↔
      (∀ d ∈ l.directives, P (.directive d)) ∧
        ∀ m ∈ l.measures,
          (∀ b ∈ m.beats, ∀ e ∈ b.elements, P e.node) ∧
            (m.barline = true → P (.barline m.location)) := by
  simp only [nodes, LyricMeasure.nodes, Beat.nodes,
    List.forall_mem_append, List.forall_mem_map,
    List.forall_mem_flatMap, forall_mem_barlineNodes]

/- The same of a pitch line. -/
theorem PitchLine.forall_mem_nodes
    {l : PitchLine} :
    (∀ node ∈ l.nodes, P node) ↔
      (∀ d ∈ l.directives, P (.directive d)) ∧
        ∀ m ∈ l.measures,
          (∀ e ∈ m.elements, ∀ node ∈ e.nodes, P node) ∧
            (m.barline = true → P (.barline m.location)) := by
  simp only [nodes, PitchMeasure.nodes,
    List.forall_mem_append, List.forall_mem_map,
    List.forall_mem_flatMap, forall_mem_barlineNodes]

end Members

------------------------------------------------------------
-- Nothing is empty
------------------------------------------------------------

/-
  A beat has elements, and starts where the
  first of them stands.
-/
def Beat.IsPlaced
    (b : Beat) : Prop :=
  ∃ e ∈ b.elements.head?, b.location = e.location

/-
  The beats of a measure have elements; without a barline
  there is a beat.
-/
structure LyricMeasure.IsFilled
    (m : LyricMeasure) : Prop where
  beats : ∀ b ∈ m.beats, b.IsPlaced
  nonempty : m.barline = false → m.beats ≠ []

/- Without a barline there is an element. -/
def PitchMeasure.IsFilled
    (m : PitchMeasure) : Prop :=
  m.barline = false → m.elements ≠ []

------------------------------------------------------------
-- Lyric lines
------------------------------------------------------------

/- The nodes of the share of a unit. -/
def Share.nodes
    (x : Share) : List Node :=
  if x.unit.isBarline then [.barline x.unit.first.location]
  else x.elements.map BeatElement.node

/- A beat stands at its first element. -/
theorem Beat.isPlaced_of_beatOf?
    {es : List BeatElement}
    {b : Beat}
    (hBeat : beatOf? es = some b) :
    b.IsPlaced := by
  cases es with
  | nil =>
      cases hBeat
  | cons e es =>
      cases hBeat
      exact ⟨e, rfl, rfl⟩

/- Beats stand at their first elements. -/
theorem beatsOf_isPlaced
    (xs : List Share) :
    ∀ b ∈ beatsOf xs, b.IsPlaced := by
  intro b hMember
  rcases List.mem_filterMap.mp hMember with ⟨run, -, hBeat⟩
  exact Beat.isPlaced_of_beatOf? hBeat

/- Measures without a barline have beats. -/
theorem measuresOf_filled
    (xs : List Share) :
    ∀ m ∈ measuresOf xs, m.IsFilled := by
  induction xs using measures_induction with
  | hInside xs hInside =>
      rw [measuresOf_inside hInside]
      by_cases hBeats : beatsOf xs = []
      · rw [if_pos hBeats]
        exact fun m hMember => absurd hMember List.not_mem_nil
      · rw [if_neg hBeats, List.forall_mem_singleton]
        exact ⟨beatsOf_isPlaced xs, fun _ => hBeats⟩
  | hBarline xs bar ys hInside hEnds ih =>
      rw [measuresOf_barline hInside hEnds,
        List.forall_mem_cons]
      exact ⟨⟨beatsOf_isPlaced xs,
          fun hNone => by cases hNone⟩, ih⟩

/- The beats of a measure have the nodes of its units. -/
theorem beatsOf_nodes
    {xs : List Share}
    (hInside : ∀ x ∈ xs, x.isInside = true) :
    (beatsOf xs).flatMap Beat.nodes =
      xs.flatMap Share.nodes := by
  have hElements :=
    congrArg (List.map BeatElement.node)
      (elements_beatsOf xs)
  rw [List.map_flatMap, List.map_flatMap] at hElements
  refine hElements.trans (List.flatMap_congr fun x hx => ?_)
  have hUnit : x.unit.isBarline = false := by
    simpa [Share.isInside] using hInside x hx
  rw [Share.nodes, hUnit, if_neg Bool.false_ne_true]

/-
  The nodes of the measures are those of
  the shares, in order.
-/
theorem measuresOf_nodes
    (xs : List Share) :
    (measuresOf xs).flatMap LyricMeasure.nodes =
      xs.flatMap Share.nodes := by
  induction xs using measures_induction with
  | hInside xs hInside =>
      rw [measuresOf_inside hInside, ← beatsOf_nodes hInside]
      by_cases hNone : beatsOf xs = []
      · rw [if_pos hNone, hNone]
        rfl
      · rw [if_neg hNone]
        simp [LyricMeasure.nodes, barlineNodes]
  | hBarline xs bar ys hInside hEnds ih =>
      have hBar : bar.unit.isBarline = true := by
        simpa [Share.isInside] using hEnds
      rw [measuresOf_barline hInside hEnds,
        List.flatMap_cons, ih, List.flatMap_append,
        List.flatMap_cons, Share.nodes, if_pos hBar,
        LyricMeasure.nodes, barlineNodes, if_pos rfl,
        beatsOf_nodes hInside, List.append_assoc]

/-
  The directives that lead, and the shares, are all that
  units are read as.
-/
theorem shares_nodes
    (met : Bool)
    (us : List LyricUnit) :
    (leadingDirectives met us).map .directive ++
        (shares met us).flatMap Share.nodes =
      us.flatMap LyricUnit.nodes := by
  induction us generalizing met with
  | nil =>
      cases met <;> rfl
  | cons u us ih =>
      rw [LyricDraft.leadingDirectives_cons, shares,
        List.flatMap_cons, List.flatMap_cons,
        ← ih (met || u.isContent)]
      cases u with
      | mark t =>
          have hShare :
              Share.nodes ((LyricUnit.mark t).share met) =
                (LyricUnit.mark t).nodes := by
            simp only [LyricUnit.share, Share.nodes,
              LyricUnit.nodes, LyricUnit.isBarline,
              LyricUnit.first, decide_eq_true_eq]
          rw [hShare]
          by_cases hDot : t.kind = .dot
          · have hNone : (LyricUnit.mark t).nodes = [] := by
              simp [LyricUnit.nodes, Token.beatElements, hDot]
            simp [hNone, LyricUnit.directives]
          · have hMet :
                (met || (LyricUnit.mark t).isContent) =
                  true := by
              simp [LyricUnit.isContent, hDot]
            rw [hMet]
            simp [leadingDirectives, LyricUnit.directives]
      | group g =>
          cases met with
          | true =>
              simp [leadingDirectives, LyricUnit.share,
                Share.nodes, LyricUnit.isBarline,
                LyricUnit.nodes, BracketGroup.nodes,
                BeatElement.node, Function.comp_def]
          | false =>
              simp [LyricUnit.share, Share.nodes,
                LyricUnit.isBarline, LyricUnit.nodes,
                BracketGroup.nodes, LyricUnit.directives]

/- The shares of lines are those of all their units. -/
theorem flatten_lineShares
    (met : Bool)
    (lines : List (List LyricUnit)) :
    (lineShares met lines).flatten =
      shares met lines.flatten := by
  have hAppend :
      ∀ (met : Bool) (us vs : List LyricUnit),
        shares met (us ++ vs) =
          shares met us ++
            shares (met || us.any LyricUnit.isContent)
              vs := by
    intro met us vs
    induction us generalizing met with
    | nil =>
        simp [shares]
    | cons u us ih =>
        rw [List.cons_append, shares, shares, ih,
          List.any_cons, Bool.or_assoc, List.cons_append]
  induction lines generalizing met with
  | nil =>
      rfl
  | cons line lines ih =>
      rw [lineShares, List.flatten_cons, ih,
        List.flatten_cons, hAppend]

/- A lyric line has the nodes of its units, in order. -/
theorem LyricLine.ofUnits_nodes
    (lines : List (List LyricUnit)) :
    (LyricLine.ofUnits lines).nodes =
      lines.flatten.flatMap LyricUnit.nodes := by
  rw [LyricLine.ofUnits_eq, LyricLine.ofLines, nodes,
    ← shares_nodes false, ← flatten_lineShares]
  simp only [List.flatMap_assoc, measuresOf_nodes,
    ← List.flatMap_id, id]

/- The measures of a lyric line are filled. -/
theorem LyricLine.ofUnits_filled
    (lines : List (List LyricUnit)) :
    ∀ m ∈ (LyricLine.ofUnits lines).measures, m.IsFilled := by
  rw [LyricLine.ofUnits_eq]
  intro m hMember
  rcases List.mem_flatMap.mp hMember with ⟨xs, -, hMeasure⟩
  exact measuresOf_filled xs m hMeasure

------------------------------------------------------------
-- Pitch drafts
------------------------------------------------------------

namespace PitchDraft

/- What a draft has so far, in order. -/
def nodes
    (d : PitchDraft) : List Node :=
  d.directives.map .directive ++
    d.measures.flatMap PitchMeasure.nodes ++
    d.elements.flatMap PitchElement.nodes

/-
  To close a measure adds its barline to the
  nodes, if it has one.
-/
theorem closeMeasure_nodes
    (barline : Bool)
    (location : Location)
    (d : PitchDraft) :
    (d.closeMeasure barline location).nodes =
      d.nodes ++ barlineNodes barline location := by
  unfold closeMeasure
  by_cases hEmpty : d.elements ≠ [] ∨ barline = true
  · rw [if_pos hEmpty]
    simp [nodes, PitchMeasure.nodes]
  · rw [if_neg hEmpty]
    rw [not_or] at hEmpty
    simp [barlineNodes, hEmpty.2]

/- No elements are open behind the end of a measure. -/
theorem closeMeasure_elements
    (barline : Bool)
    (location : Location)
    (d : PitchDraft) :
    (d.closeMeasure barline location).elements = [] := by
  unfold closeMeasure
  by_cases hEmpty : d.elements ≠ [] ∨ barline = true
  · rw [if_pos hEmpty]
  · rw [if_neg hEmpty]
    rw [not_or, not_not] at hEmpty
    exact hEmpty.1

/-
  To close a measure adds none that is
  empty and has no barline.
-/
theorem closeMeasure_filled
    {d : PitchDraft}
    (barline : Bool)
    (location : Location)
    (hFilled : ∀ m ∈ d.measures, m.IsFilled) :
    ∀ m ∈ (d.closeMeasure barline location).measures,
      m.IsFilled := by
  unfold closeMeasure
  by_cases hEnds : d.elements ≠ [] ∨ barline = true
  · rw [if_pos hEnds, List.forall_mem_append,
      List.forall_mem_singleton]
    refine ⟨hFilled, fun hBarline => hEnds.resolve_right ?_⟩
    exact Bool.not_eq_true _ ▸ hBarline
  · rw [if_neg hEnds]
    exact hFilled

/-
  The elements of a unit are its nodes, if it is no barline.
-/
theorem elements_nodes
    {unit : PitchUnit}
    (hBarline : ∀ t, unit ≠ .barline t) :
    unit.elements.flatMap PitchElement.nodes = unit.nodes := by
  cases unit with
  | barline t =>
      exact absurd rfl (hBarline t)
  | group g =>
      rw [PitchUnit.elements, List.flatMap_map]
      exact List.flatMap_pure_eq_map _ _
  | chord opening entries =>
      simp [PitchUnit.elements, PitchUnit.nodes,
        PitchElement.nodes]
  | run ps =>
      rw [PitchUnit.elements, List.flatMap_map]
      exact List.flatMap_pure_eq_map _ _
  | stray t =>
      rfl

/- A unit that is no barline adds its nodes. -/
theorem addElements_nodes
    (d : PitchDraft)
    {unit : PitchUnit}
    (hBarline : ∀ t, unit ≠ .barline t) :
    nodes
        { d with elements := d.elements ++ unit.elements } =
      d.nodes ++ unit.nodes := by
  simp only [nodes, List.flatMap_append,
    elements_nodes hBarline, List.append_assoc]

/- A unit adds its nodes, behind all that is there. -/
theorem addUnit_nodes
    (d : PitchDraft)
    (unit : PitchUnit) :
    (d.addUnit unit).nodes = d.nodes ++ unit.nodes := by
  cases unit with
  | barline t =>
      exact closeMeasure_nodes true t.location d
  | group g =>
      rw [addUnit]
      by_cases hContent : d.HasContent
      · rw [if_pos hContent]
        exact d.addElements_nodes nofun
      · rw [if_neg hContent]
        simp only [HasContent, not_or, not_not] at hContent
        simp [nodes, PitchUnit.nodes, BracketGroup.nodes,
          hContent]
  | chord opening entries =>
      exact d.addElements_nodes nofun
  | run ps =>
      exact d.addElements_nodes nofun
  | stray t =>
      exact d.addElements_nodes nofun

/- A unit adds no measure that is empty and has no barline. -/
theorem addUnit_filled
    {d : PitchDraft}
    (unit : PitchUnit)
    (hFilled : ∀ m ∈ d.measures, m.IsFilled) :
    ∀ m ∈ (d.addUnit unit).measures, m.IsFilled := by
  cases unit with
  | barline t =>
      exact closeMeasure_filled true t.location hFilled
  | group g =>
      rw [addUnit]
      split
      · exact hFilled
      · exact hFilled
  | _ =>
      exact hFilled

/- Units add their nodes, in order. -/
theorem addUnits_nodes
    (d : PitchDraft)
    (units : List PitchUnit) :
    (units.foldl addUnit d).nodes =
      d.nodes ++ units.flatMap PitchUnit.nodes := by
  induction units generalizing d with
  | nil =>
      exact (List.append_nil _).symm
  | cons unit units ih =>
      rw [List.foldl_cons, ih, addUnit_nodes,
        List.flatMap_cons, List.append_assoc]

theorem addUnits_filled
    {d : PitchDraft}
    (units : List PitchUnit)
    (hFilled : ∀ m ∈ d.measures, m.IsFilled) :
    ∀ m ∈ (units.foldl addUnit d).measures, m.IsFilled := by
  induction units generalizing d with
  | nil =>
      exact hFilled
  | cons unit units ih =>
      exact ih (addUnit_filled unit hFilled)

/- A line adds the nodes of its units. -/
theorem addLine_nodes
    (d : PitchDraft)
    (units : List PitchUnit) :
    (d.addLine units).nodes =
      d.nodes ++ units.flatMap PitchUnit.nodes := by
  rw [addLine, closeMeasure_nodes, addUnits_nodes,
    barlineNodes, if_neg Bool.false_ne_true,
    List.append_nil]

/-
  Written lines add the nodes of their units, and leave no
  measure open.
-/
theorem addLines_nodes
    (d : PitchDraft)
    (lines : List (List PitchUnit))
    (hClosed : d.elements = []) :
    (lines.foldl addLine d).nodes =
        d.nodes ++ lines.flatten.flatMap PitchUnit.nodes ∧
      (lines.foldl addLine d).elements = [] := by
  induction lines generalizing d with
  | nil =>
      exact ⟨(List.append_nil _).symm, hClosed⟩
  | cons units lines ih =>
      rcases ih (d.addLine units)
          (closeMeasure_elements false {} _) with
        ⟨hNodes, hClosed⟩
      rw [List.foldl_cons, hNodes, addLine_nodes,
        List.flatten_cons, List.flatMap_append,
        List.append_assoc]
      exact ⟨rfl, hClosed⟩

/- Lines add no measure that is empty and has no barline. -/
theorem addLines_filled
    {d : PitchDraft}
    (lines : List (List PitchUnit))
    (hFilled : ∀ m ∈ d.measures, m.IsFilled) :
    ∀ m ∈ (lines.foldl addLine d).measures, m.IsFilled := by
  induction lines generalizing d with
  | nil =>
      exact hFilled
  | cons units lines ih =>
      exact ih
        (closeMeasure_filled false {}
          (addUnits_filled units hFilled))

end PitchDraft

/- A pitch line has the nodes of its units, in order. -/
theorem PitchLine.ofUnits_nodes
    (lines : List (List PitchUnit)) :
    (PitchLine.ofUnits lines).nodes =
      lines.flatten.flatMap PitchUnit.nodes := by
  rcases PitchDraft.addLines_nodes {} lines rfl with
    ⟨hNodes, hClosed⟩
  rw [PitchDraft.nodes, hClosed] at hNodes
  exact (List.append_nil _).symm.trans hNodes

theorem PitchLine.ofUnits_filled
    (lines : List (List PitchUnit)) :
    ∀ m ∈ (PitchLine.ofUnits lines).measures, m.IsFilled :=
  PitchDraft.addLines_filled lines fun _ hMember =>
    absurd hMember List.not_mem_nil

------------------------------------------------------------
-- Scores of texts
------------------------------------------------------------

/- The nodes of a line are read off these tokens, in order. -/
def ReadFrom
    (fin : Token)
    (ts : List Token)
    (nodes : List Node) : Prop :=
  ∃ after rest, Traced fin [] ts after rest nodes

/-
  Every node is read off a few tokens that
  stand between the others.
-/
theorem ReadFrom.exists_reads
    {fin : Token}
    {ts : List Token}
    {nodes : List Node}
    {node : Node}
    (hRead : ReadFrom fin ts nodes)
    (hNode : node ∈ nodes) :
    ∃ before taken behind first,
      ts = before ++ (taken ++ behind) ∧
        Reads fin before taken behind first ∧
        node ∈ first := by
  rcases hRead with ⟨after, rest, hTraced⟩
  exact hTraced.exists_reads hNode

/-
  A block has one line of each sort, read off these tokens.
-/
structure Block.IsReadFrom
    (fin : Token)
    (ts : List Token)
    (b : Block) : Prop where
  lyrics :
    ∃ line,
      b.lyricLines = [line] ∧
        ReadFrom fin ts line.nodes ∧
        ∀ m ∈ line.measures, m.IsFilled
  pitches :
    ∃ line,
      b.pitchLines = [line] ∧
        ReadFrom fin ts line.nodes ∧
        ∀ m ∈ line.measures, m.IsFilled

/-
  The lines of a block are read from the tokens that the
  stanza was traced in.
-/
theorem Block.ofStanza_isReadFrom
    {fin : Token}
    {ts : List Token}
    {stanza : Stanza}
    (hTraced : stanza.TracedIn fin [] ts) :
    (Block.ofStanza stanza).IsReadFrom fin ts := by
  rcases hTraced with ⟨hLyrics, hPitches⟩
  refine ⟨⟨_, rfl, ?_, LyricLine.ofUnits_filled _⟩,
    ⟨_, rfl, ?_, PitchLine.ofUnits_filled _⟩⟩
  · rw [LyricLine.ofUnits_nodes]
    exact hLyrics
  · rw [PitchLine.ofUnits_nodes]
    exact hPitches

/- The tokens of a text but for the last, which closes it. -/
theorem exists_tokenize_eq
    (text : String) :
    ∃ body fin,
      tokenize text = body ++ [fin] ∧
        fin.kind = .endOfText ∧
        ∀ t ∈ body, t.kind ≠ .endOfText := by
  rcases (tokenize_written text).closed with
    ⟨body, fin, row, hTokens, hFin, hBody, -⟩
  exact ⟨body, fin, hTokens, hFin, hBody⟩

/- The blocks of a text are read off its tokens. -/
theorem Score.blocks_are_read
    {text : String}
    {score : Score}
    (hParse : parse text = .ok score) :
    ∃ body fin,
      tokenize text = body ++ [fin] ∧
        (∀ t ∈ body, t.kind ≠ .endOfText) ∧
        ∀ b ∈ score.blocks, b.IsReadFrom fin body := by
  rcases exists_tokenize_eq text with
    ⟨body, fin, hTokens, hFin, hBody⟩
  refine ⟨body, fin, hTokens, hBody, ?_⟩
  rw [parse, ofTokens, hTokens,
    Manuscript.read_append hFin hBody] at hParse
  cases hRead : Manuscript.ofBody fin body with
  | error s =>
      rw [hRead] at hParse
      cases hParse
  | ok m =>
      rw [hRead] at hParse
      cases hParse
      intro b hMember
      rcases List.mem_map.mp hMember with ⟨stanza, hStanza, rfl⟩
      exact Block.ofStanza_isReadFrom
        (Manuscript.ofBody_traced hRead stanza hStanza)

end LyricScore
