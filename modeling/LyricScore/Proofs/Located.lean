import LyricScore.Proofs.Manuscript.Located
import LyricScore.Proofs.Score.Nodes

/-
  This file shows that the locations of a score are true.
  What is located stands in the text where it is said to, and
  a line that is read in order visits its locations in the
  order of the text.

  Key definitions include:
    * `LyricLine.locations`, `PitchLine.locations`
    * `LyricLine.IsLocated`, `PitchLine.IsLocated`
    * `KeepsOrder`

  Key theorems include:
    * `Traced.exists_marks`
    * `LyricLine.pair_of_equals`
    * `LyricLine.keepsOrder`
    * `Score.locations_are_true`
-/

namespace LyricScore

------------------------------------------------------------
-- Lines
------------------------------------------------------------

def PitchElement.IsLocated
    (rows : List (List Char))
    (fin : Token)
    (body : List Token) : PitchElement → Prop
  | pitch p => p.IsLocated rows body
  | chord c =>
      StandsAt rows c.location ['('] ∧
        ∀ p ∈ c.pitches, p.IsLocated rows body
  | directive d => d.IsLocated rows fin body

/-
  The locations of a beat: its own, and
  those of its elements.
-/
def Beat.locations
    (b : Beat) : List Location :=
  b.location :: b.elements.map BeatElement.location

/-
  The locations of a measure: those of its beats, and that
  of its barline.
-/
def LyricMeasure.locations
    (m : LyricMeasure) : List Location :=
  m.beats.flatMap Beat.locations ++
    if m.barline then [m.location] else []

/-
  The locations of a lyric line: those of its directives,
  and of its measures.
-/
def LyricLine.locations
    (l : LyricLine) : List Location :=
  l.directives.map Directive.location ++
    l.measures.flatMap LyricMeasure.locations

/- The subdivisions of a lyric line, in order. -/
def LyricLine.subdivisions
    (l : LyricLine) : List Subdivision :=
  l.measures.flatMap fun m => m.beats.flatMap Beat.subdivisions

def PitchElement.locations : PitchElement → List Location
  | pitch p => [p.location]
  | chord c => c.location :: c.pitches.map Pitch.location
  | directive d => [d.location]

/-
  The locations of a measure: those of its elements, and
  that of its barline.
-/
def PitchMeasure.locations
    (m : PitchMeasure) : List Location :=
  m.elements.flatMap PitchElement.locations ++
    if m.barline then [m.location] else []

/-
  The locations of a pitch line: those of its directives,
  and of its measures.
-/
def PitchLine.locations
    (l : PitchLine) : List Location :=
  l.directives.map Directive.location ++
    l.measures.flatMap PitchMeasure.locations

/- All locations of a lyric line are true, and in order. -/
structure LyricLine.IsLocated
    (rows : List (List Char))
    (fin : Token)
    (body : List Token)
    (l : LyricLine) : Prop where
  directives : ∀ d ∈ l.directives, d.IsLocated rows fin body
  beats :
    ∀ m ∈ l.measures,
      ∀ b ∈ m.beats,
        ∃ e ∈ b.elements.head?, b.location = e.location
  elements :
    ∀ m ∈ l.measures,
      ∀ b ∈ m.beats,
        ∀ e ∈ b.elements, e.IsLocated rows fin body
  barlines :
    ∀ m ∈ l.measures,
      m.barline = true → StandsAt rows m.location ['|']
  /-
    An equals sign is the place of two hyphens, and of
    nothing else.
  -/
  equals :
    ∀ s ∈ l.subdivisions,
      StandsAt rows s.location ['='] →
        s.kind = .hyphen ∧
          l.subdivisions.filter (fun u =>
              u.location = s.location) =
            [s, s]
  ordered : l.locations.Pairwise Location.NotAfter

/- All locations of a pitch line are true, and in order. -/
structure PitchLine.IsLocated
    (rows : List (List Char))
    (fin : Token)
    (body : List Token)
    (l : PitchLine) : Prop where
  directives : ∀ d ∈ l.directives, d.IsLocated rows fin body
  elements :
    ∀ m ∈ l.measures,
      ∀ e ∈ m.elements, e.IsLocated rows fin body
  barlines :
    ∀ m ∈ l.measures,
      m.barline = true → StandsAt rows m.location ['|']
  ordered : l.locations.Pairwise Location.NotAfter

------------------------------------------------------------
-- Equals signs
------------------------------------------------------------

/- The subdivisions that a token adds to its beat. -/
def Token.subdivisions
    (t : Token) : List Subdivision :=
  Beat.subdivisions ⟨t.beatElements, t.location⟩

/- The subdivision that a node is. -/
def Node.subdivision? : Node → Option Subdivision
  | subdivision s => some s
  | _ => none

/-
  The subdivisions among the nodes of elements are those of
  the elements.
-/
theorem Node.subdivision?_node
    (es : List BeatElement)
    (location : Location) :
    (es.map BeatElement.node).filterMap subdivision? =
      Beat.subdivisions ⟨es, location⟩ := by
  rw [List.filterMap_map, Beat.subdivisions]
  congr 1
  funext e
  cases e <;> rfl

/-
  The subdivisions of a stretch are those of some of its
  tokens, in order.
-/
theorem Traced.exists_marks
    {fin : Token}
    {before ts after rest : List Token}
    {nodes : List Node}
    (hTraced : Traced fin before ts after rest nodes) :
    ∃ marks : List Token,
      marks.Sublist ts ∧
        (∀ t ∈ marks, t.kind ≠ .newline) ∧
        nodes.filterMap Node.subdivision? =
          marks.flatMap Token.subdivisions := by
  induction hTraced with
  | refl before ts =>
      exact ⟨[], List.nil_sublist ts, by simp, rfl⟩
  | @step before taken behind _ _ first more hReads _ ih =>
      rcases ih with ⟨marks, hMarks, hLine, hMore⟩
      rw [List.filterMap_append, hMore]
      have hLater :=
        hMarks.trans
          (List.sublist_append_right taken behind)
      cases hReads with
      | @mark t _ hNewline _ _ =>
          refine ⟨t :: marks, hMarks.cons_cons t,
            List.forall_mem_cons.mpr ⟨hNewline, hLine⟩, ?_⟩
          rw [Node.subdivision?_node t.beatElements
              t.location, List.flatMap_cons]
          rfl
      | run g =>
          have hPitches :
              (g.pitches.map Node.pitch).filterMap
                  Node.subdivision? =
                [] := by
            rw [List.filterMap_map]
            exact List.filterMap_eq_nil_iff.mpr fun p _ => rfl
          exact ⟨marks, hLater, hLine,
            by rw [hPitches, List.nil_append]⟩
      | _ =>
          exact ⟨marks, hLater, hLine, rfl⟩

theorem LyricLine.subdivisions_eq
    (l : LyricLine) :
    l.subdivisions = l.nodes.filterMap Node.subdivision? := by
  have hBeat :
      ∀ b : Beat,
        b.nodes.filterMap Node.subdivision? =
          b.subdivisions :=
    fun b => Node.subdivision?_node b.elements b.location
  have hBarline :
      ∀ m : LyricMeasure,
        (barlineNodes m.barline m.location).filterMap
            Node.subdivision? =
          [] := by
    intro m
    cases hEnds : m.barline <;> rfl
  have hDirectives :
      (l.directives.map Node.directive).filterMap
          Node.subdivision? =
        [] := by
    rw [List.filterMap_map]
    exact List.filterMap_eq_nil_iff.mpr fun d _ => rfl
  simp only [nodes, LyricMeasure.nodes,
    List.filterMap_append, List.filterMap_flatMap, hBeat,
    hBarline, hDirectives, List.append_nil, List.nil_append,
    subdivisions]

namespace Token

variable {rows : List (List Char)}
variable {t : Token}

theorem location_of_mem_subdivisions
    {s : Subdivision}
    (hMember : s ∈ t.subdivisions) :
    s.location = t.location := by
  rcases List.mem_filterMap.mp hMember with ⟨e, hElement, hSame⟩
  have hLocation := t.beatElements_location e hElement
  cases e with
  | subdivision u =>
      cases hSame
      exact hLocation
  | directive d =>
      cases hSame

/-
  The subdivisions at a token are its own, if no other token
  stands there.
-/
theorem filter_subdivisions
    {marks : List Token}
    (hOrdered : marks.Pairwise Before)
    (hMember : t ∈ marks) :
    (marks.flatMap subdivisions).filter (fun u =>
        u.location = t.location) =
      t.subdivisions := by
  have hApart :
      ∀ us : List Token,
        (∀ u ∈ us, u.location ≠ t.location) →
          (us.flatMap subdivisions).filter (fun u =>
              u.location = t.location) =
            [] := by
    intro us hElsewhere
    refine List.filter_eq_nil_iff.mpr fun s hs => ?_
    rcases List.mem_flatMap.mp hs with ⟨u, hu, hSub⟩
    rw [location_of_mem_subdivisions hSub]
    simpa using hElsewhere u hu
  have hNe :
      ∀ u v : Token,
        u.Before v → u.location ≠ v.location := by
    intro u v hBefore hSame
    simp only [location, Location.mk.injEq] at hSame
    unfold Before at hBefore
    omega
  rcases List.append_of_mem hMember with ⟨earlier, later, rfl⟩
  rcases List.pairwise_append.mp hOrdered with
    ⟨-, hLater, hEarlier⟩
  rw [List.flatMap_append, List.flatMap_cons,
    List.filter_append, List.filter_append,
    hApart earlier fun u hu =>
      hNe u t (hEarlier u hu t List.mem_cons_self),
    hApart later fun u hu =>
      (hNe t u
        ((List.pairwise_cons.mp hLater).1 u hu)).symm,
    List.nil_append, List.append_nil, List.filter_eq_self]
  intro s hs
  simpa using location_of_mem_subdivisions hs

/- A token at an equals sign is one. -/
theorem kind_of_equals
    (hStands : t.Stands rows)
    (hNewline : t.kind ≠ .newline)
    (hEnd : t.kind ≠ .endOfText)
    (hEquals : StandsAt rows t.location ['=']) :
    t.kind = .equals := by
  cases hStands with
  | newline => exact absurd rfl hNewline
  | fin => exact absurd rfl hEnd
  | @word n a row word more kind hLine hText _ hWord =>
      rcases hEquals with
        ⟨m, b, row', hLocation, hRow, after, hSign⟩
      simp only [location, at_line, at_column,
        Location.mk.injEq] at hLocation
      obtain rfl : m = n := by omega
      obtain rfl : b = a := by omega
      cases hLine.symm.trans hRow
      rw [hText] at hSign
      cases hWord with
      | @identifier word _ hNonempty hName _ =>
          rcases List.exists_cons_of_ne_nil hNonempty with
            ⟨c, cs, rfl⟩
          cases hSign
          cases hName '=' List.mem_cons_self
      | @number word _ hNonempty hDigit _ =>
          rcases List.exists_cons_of_ne_nil hNonempty with
            ⟨c, cs, rfl⟩
          cases hSign
          cases hDigit '=' List.mem_cons_self
      | doubled hDouble =>
          cases hSign
          cases hDouble
      | single hDouble _ =>
          cases hSign
          cases hDouble
      | symbol hSymbol =>
          cases hSign
          cases hSymbol
          rfl

/- An equals sign is two hyphens at one place. -/
theorem subdivisions_of_equals
    (hKind : t.kind = .equals) :
    t.subdivisions =
      [⟨.hyphen, "-", t.location⟩,
        ⟨.hyphen, "-", t.location⟩] := by
  simp [subdivisions, beatElements, hKind, Beat.subdivisions]

end Token

/-
  An equals sign is the place of two
  hyphens, and of nothing else.
-/
theorem LyricLine.pair_of_equals
    {rows : List (List Char)}
    {fin : Token}
    {ts : List Token}
    {l : LyricLine}
    {s : Subdivision}
    (hRead : ReadFrom fin ts l.nodes)
    (hStands : ∀ t ∈ ts, t.Stands rows ∧ t.kind ≠ .endOfText)
    (hOrdered : ts.Pairwise Token.Before)
    (hMember : s ∈ l.subdivisions)
    (hEquals : StandsAt rows s.location ['=']) :
    s.kind = .hyphen ∧
      l.subdivisions.filter (fun u =>
          u.location = s.location) =
        [s, s] := by
  rcases hRead with ⟨after, rest, hTraced⟩
  rcases hTraced.exists_marks with
    ⟨marks, hMarks, hLine, hSubdivisions⟩
  rw [l.subdivisions_eq, hSubdivisions] at hMember ⊢
  rcases List.mem_flatMap.mp hMember with ⟨t, ht, hs⟩
  have hHere := Token.location_of_mem_subdivisions hs
  rw [hHere] at hEquals
  rcases hStands t (hMarks.subset ht) with ⟨hToken, hEnd⟩
  have hKind :=
    Token.kind_of_equals hToken (hLine t ht) hEnd hEquals
  have hPair := Token.subdivisions_of_equals hKind
  have hSame : s = ⟨.hyphen, "-", t.location⟩ := by
    simpa [hPair] using hs
  rw [hHere,
    Token.filter_subdivisions (hOrdered.sublist hMarks) ht,
    hPair, hSame]
  exact ⟨rfl, rfl⟩

------------------------------------------------------------
-- Order along a line
------------------------------------------------------------

/-
  A list has the entries of another one, some more than
  once, and in order if that is.
-/
structure KeepsOrder
    {α : Type}
    (R : α → α → Prop)
    (xs ys : List α) : Prop where
  entries : ∀ y ∈ ys, y ∈ xs
  ordered : xs.Pairwise R → ys.Pairwise R

namespace KeepsOrder

variable {α β : Type}
variable {R : α → α → Prop}
variable {xs xs' ys ys' : List α}

theorem refl
    (R : α → α → Prop)
    (xs : List α) :
    KeepsOrder R xs xs :=
  ⟨fun _ hMember => hMember, id⟩

theorem append
    (hFirst : KeepsOrder R xs ys)
    (hThen : KeepsOrder R xs' ys') :
    KeepsOrder R (xs ++ xs') (ys ++ ys') where
  entries := by
    intro y hMember
    rcases List.mem_append.mp hMember with
      hFirstEntry | hThenEntry
    · exact List.mem_append_left _
        (hFirst.entries y hFirstEntry)
    · exact List.mem_append_right _ (hThen.entries y hThenEntry)
  ordered := by
    intro hAll
    rcases List.pairwise_append.mp hAll with
      ⟨hLeft, hRight, hAcross⟩
    refine List.pairwise_append.mpr
      ⟨hFirst.ordered hLeft, hThen.ordered hRight, ?_⟩
    exact fun x hx y hy =>
      hAcross x (hFirst.entries x hx) y (hThen.entries y hy)

theorem flatMap
    {f g : β → List α}
    {bs : List β}
    (hEach : ∀ b ∈ bs, KeepsOrder R (f b) (g b)) :
    KeepsOrder R (bs.flatMap f) (bs.flatMap g) := by
  induction bs with
  | nil =>
      exact .refl R []
  | cons b bs ih =>
      rw [List.forall_mem_cons] at hEach
      exact hEach.1.append (ih hEach.2)

end KeepsOrder

theorem BeatElement.node_location
    (e : BeatElement) :
    e.node.location = e.location := by
  cases e <;> rfl

/- A measure with a barline adds the place of the barline. -/
theorem barlineNodes_locations
    (barline : Bool)
    (location : Location) :
    (barlineNodes barline location).map Node.location =
      if barline then [location] else [] := by
  cases barline <;> rfl

/-
  A beat that is located at its first
  element adds nothing new.
-/
theorem Beat.keepsOrder
    {b : Beat}
    (hPlaced : b.IsPlaced) :
    KeepsOrder Location.NotAfter (b.nodes.map Node.location)
      b.locations := by
  rcases hPlaced with ⟨e, hHead, hLocation⟩
  have hNodes :
      b.nodes.map Node.location =
        b.elements.map BeatElement.location := by
    rw [nodes, List.map_map]
    exact List.map_congr_left fun e _ => e.node_location
  rw [hNodes, locations, hLocation]
  cases hElements : b.elements with
  | nil =>
      rw [hElements] at hHead
      cases hHead
  | cons first es =>
      rw [hElements] at hHead
      cases hHead
      rw [List.map_cons]
      refine ⟨fun y hMember => ?_, fun hOrdered => ?_⟩
      · exact (List.mem_cons.mp hMember).elim
          (fun hSame => hSame ▸ List.mem_cons_self) id
      · refine .cons (fun y hMember => ?_) hOrdered
        rcases List.mem_cons.mp hMember with rfl | hLater
        · exact .refl _
        · exact (List.pairwise_cons.mp hOrdered).1 y hLater

/-
  The places of a lyric line are those of its
  nodes, in their order.
-/
theorem LyricLine.keepsOrder
    {l : LyricLine}
    (hFilled : ∀ m ∈ l.measures, m.IsFilled) :
    KeepsOrder Location.NotAfter (l.nodes.map Node.location)
      l.locations := by
  rw [nodes, List.map_append, List.map_map,
    List.map_flatMap, locations]
  refine KeepsOrder.append (.refl _ _)
    (.flatMap fun m hMeasure => ?_)
  rw [LyricMeasure.nodes, List.map_append, List.map_flatMap,
    LyricMeasure.locations, barlineNodes_locations]
  refine KeepsOrder.append (.flatMap fun b hBeat => ?_)
    (.refl _ _)
  exact Beat.keepsOrder ((hFilled m hMeasure).beats b hBeat)

theorem PitchLine.locations_eq
    (l : PitchLine) :
    l.locations = l.nodes.map Node.location := by
  have hElement :
      ∀ e : PitchElement,
        e.nodes.map Node.location = e.locations := by
    intro e
    cases e <;>
      simp [PitchElement.nodes, PitchElement.locations,
        Node.location]
  simp only [locations, nodes, PitchMeasure.nodes,
    List.map_append, List.map_flatMap, List.map_map,
    hElement, barlineNodes_locations]
  rfl

------------------------------------------------------------
-- Scores
------------------------------------------------------------

section Lines

variable {rows : List (List Char)}
variable {fin : Token}
variable {body : List Token}

/-
  What was read from standing tokens stands
  in the rows of the text.
-/
theorem ReadFrom.isLocated
    {nodes : List Node}
    (hRead : ReadFrom fin body nodes)
    (hStands : ∀ t ∈ body, t.Stands rows) :
    ∀ node ∈ nodes, node.IsLocated rows fin body := by
  intro node hNode
  rcases hRead.exists_reads hNode with
    ⟨before, taken, behind, first, rfl, hReads, hFirst⟩
  rw [List.forall_mem_append, List.forall_mem_append] at hStands
  exact hReads.isLocated hStands.2.1 node hFirst

/- What was read from tokens in order is in order. -/
theorem ReadFrom.ordered
    {nodes : List Node}
    (hRead : ReadFrom fin body nodes)
    (hStands : ∀ t ∈ body, t.Stands rows)
    (hOrdered : body.Pairwise Token.Before) :
    (nodes.map Node.location).Pairwise Location.NotAfter := by
  rcases hRead with ⟨after, rest, hTraced⟩
  exact List.pairwise_map.mpr (hTraced.ordered hStands hOrdered)

/-
  A lyric line that was read stands in the
  rows of the text, in order.
-/
theorem LyricLine.isLocated_of_read
    {l : LyricLine}
    (hRead : ReadFrom fin body l.nodes)
    (hFilled : ∀ m ∈ l.measures, m.IsFilled)
    (hStands : ∀ t ∈ body, t.Stands rows ∧ t.kind ≠ .endOfText)
    (hOrdered : body.Pairwise Token.Before) :
    l.IsLocated rows fin body := by
  have hWords : ∀ t ∈ body, t.Stands rows :=
    fun t hMember => (hStands t hMember).1
  rcases forall_mem_nodes.mp (hRead.isLocated hWords) with
    ⟨hDirectives, hMeasures⟩
  refine ⟨hDirectives,
    fun m hMeasure => (hFilled m hMeasure).beats, ?_,
    fun m hMeasure => (hMeasures m hMeasure).2, ?_, ?_⟩
  · intro m hMeasure b hBeat e hElement
    have hNode := (hMeasures m hMeasure).1 b hBeat e hElement
    cases e with
    | subdivision s => exact hNode
    | directive d => exact hNode
  · exact fun s hMember hEquals =>
      pair_of_equals hRead hStands hOrdered hMember hEquals
  · exact (keepsOrder hFilled).ordered
      (hRead.ordered hWords hOrdered)

/-
  A pitch line that was read stands in the
  rows of the text, in order.
-/
theorem PitchLine.isLocated_of_read
    {l : PitchLine}
    (hRead : ReadFrom fin body l.nodes)
    (hStands : ∀ t ∈ body, t.Stands rows)
    (hOrdered : body.Pairwise Token.Before) :
    l.IsLocated rows fin body := by
  rcases forall_mem_nodes.mp (hRead.isLocated hStands) with
    ⟨hDirectives, hMeasures⟩
  refine ⟨hDirectives, ?_,
    fun m hMeasure => (hMeasures m hMeasure).2, ?_⟩
  · intro m hMeasure e hElement
    have hNode := (hMeasures m hMeasure).1 e hElement
    cases e with
    | pitch p =>
        exact hNode _ (List.mem_singleton_self _)
    | chord c =>
        rw [PitchElement.nodes, List.forall_mem_cons,
          List.forall_mem_map] at hNode
        exact hNode
    | directive d =>
        exact hNode _ (List.mem_singleton_self _)
  · rw [l.locations_eq]
    exact hRead.ordered hStands hOrdered

end Lines

/-
  Every location in the score of a text is true of the rows
  and the tokens of the text, of which the last closes it.
-/
theorem Score.locations_are_true
    {text : String}
    {score : Score}
    (hParse : parse text = .ok score) :
    ∃ body fin,
      tokenize text = body ++ [fin] ∧
        ∀ b ∈ score.blocks,
          (∀ line ∈ b.lyricLines,
              line.IsLocated (rowsOf text) fin body) ∧
            ∀ line ∈ b.pitchLines,
              line.IsLocated (rowsOf text) fin body := by
  rcases blocks_are_read hParse with
    ⟨body, fin, hTokens, hOpen, hBlocks⟩
  have hWritten := tokenize_written text
  have hStands := hWritten.stands fun row _ => isCut_zero row
  have hOrdered := hWritten.ordered
  rw [hTokens, List.forall_mem_append] at hStands
  rw [hTokens] at hOrdered
  have hBody := (List.pairwise_append.mp hOrdered).1
  refine ⟨body, fin, hTokens, fun b hMember => ?_⟩
  rcases hBlocks b hMember with
    ⟨⟨lyrics, hLyrics, hLyricRead, hLyricFilled⟩,
      ⟨pitches, hPitches, hPitchRead, -⟩⟩
  rw [hLyrics, hPitches, List.forall_mem_singleton,
    List.forall_mem_singleton]
  have hTaken :
      ∀ t ∈ body,
        t.Stands (rowsOf text) ∧ t.kind ≠ .endOfText :=
    fun t ht => ⟨hStands.1 t ht, hOpen t ht⟩
  exact ⟨LyricLine.isLocated_of_read hLyricRead hLyricFilled
      hTaken hBody,
    PitchLine.isLocated_of_read hPitchRead hStands.1 hBody⟩

/-
  A text with what a location has to follow: equals signs, a
  beat that starts with a directive, a run of letters behind
  modifiers with blanks between them, and shifts that cancel.
-/
def scattered : String :=
  "T\r\n\r\n [T90] la=- [N2]*|=\r\n do |\r\n^ # cde(f&&g) ^/ 5 a|[O4] b\r\n"

/- Its nodes stand where their locations say. -/
theorem scattered_locations_are_true :
    ∃ score,
      Score.parse scattered = .ok score ∧
        ∃ body fin,
          tokenize scattered = body ++ [fin] ∧
            ∀ b ∈ score.blocks,
              (∀ line ∈ b.lyricLines,
                  line.IsLocated (rowsOf scattered) fin
                    body) ∧
                ∀ line ∈ b.pitchLines,
                  line.IsLocated (rowsOf scattered) fin
                    body := by
  have hRead : (Score.parse scattered).isOk = true := by
    decide +kernel
  rcases Outcome.exists_eq_ok hRead with ⟨score, hParse⟩
  exact ⟨score, hParse, Score.locations_are_true hParse⟩

end LyricScore
