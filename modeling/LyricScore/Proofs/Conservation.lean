import LyricScore.Proofs.Manuscript.Conservation
import LyricScore.Score.Parse

/-
  This file shows that nothing is lost in a pitch section.
  The pitch line of a block has the barlines, the chords and
  the letters of its section, in order, and the shifts and
  accidentals of the section altogether.

  Key definitions include:
    * `PitchLine.marks`, `PitchLine.pitches`
    * `PitchDraft.marks`, `PitchDraft.pitches`
    * `PitchLine.HoldsAll`

  Key theorems include:
    * `PitchDraft.addUnit_keeps`
    * `PitchLine.ofUnits_keeps`
    * `Score.pitch_sections_kept`
-/

namespace LyricScore

------------------------------------------------------------
-- What pitch lines say
------------------------------------------------------------

/- What an element of a measure says. -/
def PitchElement.marks : PitchElement → List PitchMark
  | pitch p => [.letter p.letter]
  | chord c => .opening :: pitchMarks c.pitches ++ [.closing]
  | directive _ => []

/- The pitches of an element, those of a chord included. -/
def PitchElement.pitches : PitchElement → List Pitch
  | pitch p => [p]
  | chord c => c.pitches
  | directive _ => []

/- What a measure says. -/
def PitchMeasure.marks
    (m : PitchMeasure) : List PitchMark :=
  m.elements.flatMap PitchElement.marks ++
    if m.barline then [.barline] else []

/- The pitches of a measure. -/
def PitchMeasure.pitches
    (m : PitchMeasure) : List Pitch :=
  m.elements.flatMap PitchElement.pitches

/- What a pitch line says. -/
def PitchLine.marks
    (l : PitchLine) : List PitchMark :=
  l.measures.flatMap PitchMeasure.marks

/- The pitches of a pitch line, in order. -/
def PitchLine.pitches
    (l : PitchLine) : List Pitch :=
  l.measures.flatMap PitchMeasure.pitches

------------------------------------------------------------
-- Drafts
------------------------------------------------------------

namespace PitchDraft

/- What a draft says, the open measure included. -/
def marks
    (d : PitchDraft) : List PitchMark :=
  d.measures.flatMap PitchMeasure.marks ++
    d.elements.flatMap PitchElement.marks

/-
  The pitches of a draft, those of the
  open measure included.
-/
def pitches
    (d : PitchDraft) : List Pitch :=
  d.measures.flatMap PitchMeasure.pitches ++
    d.elements.flatMap PitchElement.pitches

/-
  A measure that ends keeps its elements, and a barline is
  added to them.
-/
theorem closeMeasure_keeps
    (d : PitchDraft)
    (barline : Bool)
    (location : Location) :
    (d.closeMeasure barline location).marks =
        d.marks ++ (if barline then [.barline] else []) ∧
      (d.closeMeasure barline location).pitches = d.pitches ∧
        (d.closeMeasure barline location).elements = [] := by
  unfold closeMeasure
  by_cases hEmpty : d.elements ≠ [] ∨ barline = true
  · rw [if_pos hEmpty]
    simp [marks, pitches, PitchMeasure.marks,
      PitchMeasure.pitches]
  · rw [if_neg hEmpty]
    simp only [not_or, not_not, Bool.not_eq_true] at hEmpty
    simp [marks, hEmpty]

end PitchDraft

/-
  The elements of a unit say what the unit
  says, if it is no barline.
-/
theorem PitchUnit.elements_marks
    {unit : PitchUnit}
    (hBarline : ∀ t, unit ≠ .barline t) :
    unit.elements.flatMap PitchElement.marks = unit.marks := by
  cases unit with
  | barline t =>
      exact absurd rfl (hBarline t)
  | group g =>
      simp [elements, marks, PitchElement.marks,
        List.flatMap_map]
  | chord opening entries =>
      simp [elements, marks, PitchElement.marks]
  | run ps =>
      induction ps <;>
        simp_all [elements, marks, PitchElement.marks,
          pitchMarks]
  | stray t =>
      rfl

/- The pitches of a unit are those of its elements. -/
theorem PitchUnit.elements_pitches
    (unit : PitchUnit) :
    unit.elements.flatMap PitchElement.pitches =
      unit.pitches := by
  cases unit with
  | barline t =>
      rfl
  | group g =>
      simp [elements, pitches, PitchElement.pitches,
        List.flatMap_map]
  | chord opening entries =>
      simp [elements, pitches, PitchElement.pitches]
  | run ps =>
      induction ps <;>
        simp_all [elements, pitches, PitchElement.pitches]
  | stray t =>
      rfl

namespace PitchDraft

/- The elements of a unit add what they say. -/
theorem addElements_keep
    (d : PitchDraft)
    {unit : PitchUnit}
    (hBarline : ∀ t, unit ≠ .barline t) :
    marks
          { d with
            elements := d.elements ++ unit.elements } =
        d.marks ++ unit.marks ∧
      pitches
          { d with
            elements := d.elements ++ unit.elements } =
        d.pitches ++ unit.pitches := by
  simp only [marks, pitches, List.flatMap_append,
    PitchUnit.elements_pitches,
    PitchUnit.elements_marks hBarline, List.append_assoc,
    and_self]

/- A unit adds what it says. -/
theorem addUnit_keeps
    (d : PitchDraft)
    (unit : PitchUnit) :
    (d.addUnit unit).marks = d.marks ++ unit.marks ∧
      (d.addUnit unit).pitches = d.pitches ++ unit.pitches := by
  cases unit with
  | barline t =>
      rcases d.closeMeasure_keeps true t.location with
        ⟨hMarks, hPitches, -⟩
      exact ⟨hMarks, hPitches.trans (List.append_nil _).symm⟩
  | group g =>
      rw [addUnit]
      split
      · exact d.addElements_keep nofun
      · exact ⟨(List.append_nil _).symm,
          (List.append_nil _).symm⟩
  | chord opening entries =>
      exact d.addElements_keep nofun
  | run ps =>
      exact d.addElements_keep nofun
  | stray t =>
      exact d.addElements_keep nofun

/-
  Units that are added to a draft add their marks and
  pitches, and nothing else.
-/
theorem addUnits_keep
    (d : PitchDraft)
    (units : List PitchUnit) :
    (units.foldl addUnit d).marks =
        d.marks ++ units.flatMap PitchUnit.marks ∧
      (units.foldl addUnit d).pitches =
        d.pitches ++ units.flatMap PitchUnit.pitches := by
  induction units generalizing d with
  | nil =>
      exact ⟨(List.append_nil _).symm, (List.append_nil _).symm⟩
  | cons unit units ih =>
      rcases ih (d.addUnit unit) with ⟨hMarks, hPitches⟩
      rcases d.addUnit_keeps unit with
        ⟨hUnitMarks, hUnitPitches⟩
      rw [List.foldl_cons, List.flatMap_cons,
        List.flatMap_cons, hMarks, hPitches, hUnitMarks,
        hUnitPitches, List.append_assoc, List.append_assoc]
      exact ⟨rfl, rfl⟩

/-
  A written line adds what its units say, and leaves no
  measure open.
-/
theorem addLine_keeps
    (d : PitchDraft)
    (units : List PitchUnit) :
    (d.addLine units).marks =
        d.marks ++ units.flatMap PitchUnit.marks ∧
      (d.addLine units).pitches =
        d.pitches ++ units.flatMap PitchUnit.pitches ∧
      (d.addLine units).elements = [] := by
  rcases d.addUnits_keep units with ⟨hMarks, hPitches⟩
  rcases (units.foldl addUnit d).closeMeasure_keeps false
    {} with
    ⟨hCloseMarks, hClosePitches, hClosed⟩
  refine ⟨?_, hClosePitches.trans hPitches, hClosed⟩
  rw [addLine, hCloseMarks, hMarks,
    if_neg Bool.false_ne_true, List.append_nil]

/-
  Lines that are added to a draft add their marks and
  pitches, and each closes its measure.
-/
theorem addLines_keep
    (d : PitchDraft)
    (lines : List (List PitchUnit))
    (hClosed : d.elements = []) :
    (lines.foldl addLine d).marks =
        d.marks ++ lines.flatten.flatMap PitchUnit.marks ∧
      (lines.foldl addLine d).pitches =
        d.pitches ++
          lines.flatten.flatMap PitchUnit.pitches ∧
      (lines.foldl addLine d).elements = [] := by
  induction lines generalizing d with
  | nil =>
      exact ⟨(List.append_nil _).symm,
        (List.append_nil _).symm, hClosed⟩
  | cons units lines ih =>
      rcases d.addLine_keeps units with
        ⟨hLineMarks, hLinePitches, hLineClosed⟩
      rcases ih (d.addLine units) hLineClosed with
        ⟨hMarks, hPitches, hAllClosed⟩
      rw [List.foldl_cons, List.flatten_cons,
        List.flatMap_append, List.flatMap_append, hMarks,
        hPitches, hLineMarks, hLinePitches,
        List.append_assoc, List.append_assoc]
      exact ⟨rfl, rfl, hAllClosed⟩

end PitchDraft

/-
  A pitch line says what the units say
  that it is written with.
-/
theorem PitchLine.ofUnits_keeps
    (lines : List (List PitchUnit)) :
    (PitchLine.ofUnits lines).marks =
        lines.flatten.flatMap PitchUnit.marks ∧
      (PitchLine.ofUnits lines).pitches =
        lines.flatten.flatMap PitchUnit.pitches := by
  rcases PitchDraft.addLines_keep {} lines rfl with
    ⟨hMarks, hPitches, hClosed⟩
  rw [PitchDraft.marks, hClosed] at hMarks
  rw [PitchDraft.pitches, hClosed] at hPitches
  exact ⟨(List.append_nil _).symm.trans hMarks,
    (List.append_nil _).symm.trans hPitches⟩

------------------------------------------------------------
-- Barlines and shifts
------------------------------------------------------------

/- The elements of a measure hold no barline. -/
theorem PitchElement.barline_not_mem_marks
    (e : PitchElement) :
    .barline ∉ e.marks := by
  cases e <;> simp [marks, pitchMarks]

/- Every barline of a line ends a measure. -/
theorem PitchLine.count_barline
    (l : PitchLine) :
    l.marks.count .barline =
      l.measures.countP fun m => m.barline := by
  rw [marks]
  induction l.measures with
  | nil =>
      rfl
  | cons m ms ih =>
      have hElements :
          (m.elements.flatMap PitchElement.marks).count
              .barline =
            0 := by
        rw [List.count_eq_zero, List.mem_flatMap]
        rintro ⟨e, -, hMember⟩
        exact e.barline_not_mem_marks hMember
      rw [List.flatMap_cons, List.count_append, ih,
        PitchMeasure.marks, List.count_append, hElements,
        List.countP_cons]
      cases m.barline <;> simp [Nat.add_comm]

/- The barlines of a section stand on its lines. -/
theorem PitchPlace.count_barline
    (p : PitchPlace) :
    p.marks.count .barline =
      if p.nesting = .line ∧ p.token.kind = .barline then 1
      else 0 := by
  have hLetters : .barline ∉ p.token.letterMarks := by
    simp [Token.letterMarks]
  have hNone := List.count_eq_zero.mpr hLetters
  rcases p with ⟨n, t, rest⟩
  cases n with
  | line =>
      rw [marks]
      by_cases hBarline : t.kind = .barline
      · simp [hBarline]
      · by_cases hOpening : t.kind = .openParenthesis <;>
          simp [hBarline, hOpening, hNone]
  | group =>
      rfl
  | chord =>
      rw [marks]
      by_cases hClosing : t.kind = .closeParenthesis <;>
        simp [hClosing, hNone]

/-
  The barlines among the marks of a section are its tokens
  that are barlines on the line.
-/
theorem count_barline_marks
    (ps : List PitchPlace) :
    (ps.flatMap PitchPlace.marks).count .barline =
      ps.countP fun p =>
        p.nesting = .line ∧ p.token.kind = .barline := by
  induction ps with
  | nil =>
      rfl
  | cons p ps ih =>
      rw [List.flatMap_cons, List.count_append,
        List.countP_cons, ih, p.count_barline, Nat.add_comm]
      simp only [decide_eq_true_eq]

/- Shifts up count one, and shifts down minus one. -/
theorem sum_octaves
    (ps : List PitchPlace) :
    (ps.map PitchPlace.octaves).sum =
      (ps.countP (PitchPlace.IsOfKind .caret) : Int) -
        ps.countP (PitchPlace.IsOfKind .slash) := by
  induction ps with
  | nil =>
      rfl
  | cons p ps ih =>
      have hPlace :
          p.octaves =
            (if p.IsOfKind .caret then 1 else 0 : Int) -
              if p.IsOfKind .slash then 1 else 0 := by
        unfold PitchPlace.octaves PitchPlace.IsOfKind
          Token.isShift Token.octaves
        by_cases hNesting : p.nesting = .group
        · simp [hNesting]
        · by_cases hCaret : p.token.kind = .caret
          · simp [hNesting, hCaret]
          · by_cases hSlash : p.token.kind = .slash <;>
              simp [hNesting, hCaret, hSlash]
      rw [List.map_cons, List.sum_cons, List.countP_cons,
        List.countP_cons, ih, hPlace]
      simp only [decide_eq_true_eq]
      split <;> split <;> omega

------------------------------------------------------------
-- Blocks
------------------------------------------------------------

/-
  Nothing of a section is lost in a pitch line.  The
  barlines on the lines of the section are measures with
  a barline; its letters are pitches, in order, in a
  chord where parentheses enclose them; and the pitches
  have its shifts and accidentals.
-/
structure PitchLine.HoldsAll
    (l : PitchLine)
    (ps : List PitchPlace) : Prop where
  barlines :
    (l.measures.countP fun m => m.barline) =
      ps.countP fun p =>
        p.nesting = .line ∧ p.token.kind = .barline
  letters : l.marks = ps.flatMap PitchPlace.marks
  octaves :
    (l.pitches.map Pitch.shift).sum =
      (ps.countP (PitchPlace.IsOfKind .caret) : Int) -
        ps.countP (PitchPlace.IsOfKind .slash)
  accidentals :
    (l.pitches.countP fun p => p.accidental.isSome) =
      ps.countP (PitchPlace.IsOfKind .accidental)

/-
  Every block of a text has one pitch line, which has all that
  its section says, unless modifiers that cancel swallow a
  token in that section or before.
-/
theorem Score.pitch_sections_kept
    {text : String}
    {score : Score}
    {index : Nat}
    {block : Block}
    (hParse : Score.parse text = .ok score)
    (hBlock : score.blocks[index]? = some block)
    (hKeeps :
      ∀ ps ∈ (Manuscript.pitchSections (tokenize text)).take
        (index + 1),
        ∀ p ∈ ps, ¬ p.Swallows) :
    ∃ ps line,
      (Manuscript.pitchSections (tokenize text))[index]? =
          some ps ∧
        block.pitchLines = [line] ∧
        line.HoldsAll ps := by
  rcases exists_manuscript hParse with ⟨m, hRead, rfl⟩
  have hWrites := Manuscript.read_writes index hKeeps hRead
  simp only [ofManuscript, List.getElem?_map,
    Option.map_eq_some_iff] at hBlock
  rcases hBlock with ⟨stanza, hStanza, rfl⟩
  rw [hStanza] at hWrites
  cases hSection :
    (Manuscript.pitchSections (tokenize text))[index]? with
  | none =>
      rw [hSection] at hWrites
      cases hWrites
  | some ps =>
      rw [hSection] at hWrites
      cases hWrites with
      | some hWrites =>
          rcases PitchLine.ofUnits_keeps stanza.pitches with
            ⟨hMarks, hPitches⟩
          refine ⟨ps, .ofUnits stanza.pitches, rfl, rfl, ?_,
            ?_, ?_, ?_⟩
          · rw [← PitchLine.count_barline, hMarks,
              ← hWrites.marks_eq, count_barline_marks]
          · rw [hMarks, hWrites.marks_eq]
          · rw [hPitches, ← sum_octaves, hWrites.octaves_eq,
              totalOctaves]
          · rw [hPitches, hWrites.accidentals_eq,
              accidentalCount]

/-
  A pitch section with all there is: a group, a chord over two
  lines, run-together letters, and shifts that cancel before a
  letter and before a token without meaning.
-/
def tangled : String :=
  "T\n\nla la|\n[K#2]^c(e/&g\n)^/ab ^/x #f|\n"

/-
  Nothing of it is lost, as its shifts that cancel swallow
  no token with a meaning.
-/
theorem tangled_kept :
    ∃ score block,
      Score.parse tangled = .ok score ∧
        score.blocks[0]? = some block ∧
        (∀ ps ∈
            (Manuscript.pitchSections
              (tokenize tangled)).take 1,
            ∀ p ∈ ps, ¬ p.Swallows) ∧
        ∃ ps line,
          (Manuscript.pitchSections
                (tokenize tangled))[0]? =
              some ps ∧
            block.pitchLines = [line] ∧
            line.HoldsAll ps := by
  have hRead : (Score.parse tangled).isOk = true := by
    decide +kernel
  rcases Outcome.exists_eq_ok hRead with ⟨score, hParse⟩
  have hBlocks :
      (Score.parse tangled).map (fun score =>
          score.blocks.length) =
        .ok 1 := by
    decide +kernel
  rw [hParse, Outcome.map_ok, Except.ok.injEq] at hBlocks
  have hFirst : 0 < score.blocks.length := by
    omega
  have hBlock := List.getElem?_eq_getElem hFirst
  have hKeeps :
      ∀ ps ∈
        (Manuscript.pitchSections (tokenize tangled)).take
        1,
        ∀ p ∈ ps, ¬ p.Swallows := by
    decide +kernel
  exact ⟨score, _, hParse, hBlock, hKeeps,
    Score.pitch_sections_kept hParse hBlock hKeeps⟩

end LyricScore
