import LyricScore.Proofs.Manuscript.Piece
import LyricScore.Proofs.Score.LyricGrammar
import LyricScore.Proofs.Token.Step
import LyricScore.Score.Parse

/-
  This file states that the lyric sections of a text follow
  their grammar: the lyric line of a block is what the written
  lines of its section mean, and nothing of the section is
  lost, doubled or moved.

  Key definitions include:
    * `lyricSections`, `Manuscript.lyricSections`
    * `LyricLine.HoldsAll`

  Key theorems include:
    * `readStanzas_lyrics`
    * `LyricLine.ofLines_holdsAll`
    * `Score.lyrics_follow_grammar`
-/

namespace LyricScore

------------------------------------------------------------
-- Sections
------------------------------------------------------------

/-
  What follows the pitch lines of a block;
  an error ends the text.
-/
def behindPitches
    (fin : Token)
    (ts : List Token) : List Token :=
  match readPitchLines fin ts with
  | .ok (_, rest) => rest
  | .error _ => []

/-
  What stands behind the pitch lines is
  a part of the tokens.
-/
theorem behindPitches_suffix
    (fin : Token)
    (ts : List Token) :
    behindPitches fin ts <:+ ts := by
  unfold behindPitches
  cases hPitches : readPitchLines fin ts with
  | ok step =>
      exact readPitchLines_suffix hPitches
  | error s =>
      exact List.nil_suffix

/- The lyric sections of the stanzas that some tokens are. -/
def lyricSections
    (fin : Token)
    (ts : List Token) : List (List Token) :=
  match ts with
  | [] => []
  | t :: rest =>
    if _hStart : t.kind = .newline then
      lyricSections fin rest
    else
      takeLyrics false false (t :: rest) ::
        lyricSections fin
          (behindPitches fin
            (skipLyrics false false (t :: rest)))
termination_by ts.length
decreasing_by
  · simp
  · rw [skipLyrics_of_start _hStart]
    have hPitches :=
      (behindPitches_suffix fin
        (skipLyrics (t.kind = .openBracket)
          (t.kind = .barline) rest)).length_le
    have hLyrics :=
      (skipLyrics_suffix (t.kind = .openBracket)
        (t.kind = .barline) rest).length_le
    simp only [List.length_cons]
    omega

/- The lyric sections of a text: those behind its title. -/
def Manuscript.lyricSections
    (ts : List Token) : List (List Token) :=
  match ts.find? closes with
  | some fin => LyricScore.lyricSections fin (behindTitle ts)
  | none => []

/-
  A section starts with the first token that ends no line,
  and the next follows the pitch lines.
-/
theorem lyricSections_cons
    (fin t : Token)
    (rest : List Token) :
    lyricSections fin (t :: rest) =
      if t.kind = .newline then lyricSections fin rest
      else
        takeLyrics false false (t :: rest) ::
          lyricSections fin
            (behindPitches fin
              (skipLyrics false false (t :: rest))) := by
  rw [lyricSections]
  rfl

/- Sections are parts of the text, one behind the other. -/
theorem lyricSections_sublist
    (fin : Token)
    (ts : List Token) :
    (lyricSections fin ts).flatten.Sublist ts := by
  induction ts using lyricSections.induct fin with
  | case1 =>
      rw [lyricSections]
      exact List.Sublist.refl _
  | case2 t rest hNewline ih =>
      rw [lyricSections_cons, if_pos hNewline]
      exact ih.cons t
  | case3 t rest hNewline ih =>
      rw [lyricSections_cons, if_neg hNewline,
        List.flatten_cons]
      have hBehind :=
        ih.trans (behindPitches_suffix fin _).sublist
      have hSection :=
        hBehind.append_left
          (takeLyrics false false (t :: rest))
      rwa [takeLyrics_append] at hSection

/-
  The lyric lines of stanzas are the written
  lines of the sections.
-/
theorem readStanzas_lyrics
    {fin : Token}
    {ts : List Token}
    {stanzas : List Stanza}
    (hStanzas : readStanzas fin ts = .ok stanzas) :
    stanzas.map Stanza.lyrics =
      (lyricSections fin ts).map physicalLines := by
  rw [readStanzas_iff] at hStanzas
  induction hStanzas with
  | done =>
      rw [lyricSections]
      rfl
  | newline hNewline _ ih =>
      rw [lyricSections_cons, if_pos hNewline]
      exact ih
  | @stanza t rest after stanza stanzas hStart hStanza _ ih =>
      rcases readStanza_eq_ok.mp hStanza with
        ⟨between, hLyrics, hPitches⟩
      have hBehind : behindPitches fin between = after := by
        rw [behindPitches, hPitches]
      rw [lyricSections_cons, if_neg hStart,
        readLyricLines_skips hLyrics, hBehind,
        List.map_cons, List.map_cons,
        readLyricLines_pieces hLyrics, ih]

/-
  The lyric lines of a manuscript are the written lines of
  its sections.
-/
theorem Manuscript.read_lyrics
    {ts : List Token}
    {m : Manuscript}
    (hRead : read ts = .ok m) :
    m.stanzas.map Stanza.lyrics =
      (lyricSections ts).map physicalLines := by
  rcases exists_readStanzas hRead with ⟨fin, hFin, hStanzas⟩
  rw [lyricSections, hFin]
  exact readStanzas_lyrics hStanzas

/-
  The lyric sections are apart, and in the
  order of the tokens.
-/
theorem Manuscript.lyricSections_sublist
    (ts : List Token) :
    (lyricSections ts).flatten.Sublist ts := by
  have hBehind :
      behindTitle ts <:+
        (ts.takeWhile fun t => !closes t) :=
    (readTitle_suffix _).trans (List.dropWhile_suffix _)
  unfold lyricSections
  cases ts.find? closes with
  | some fin =>
      exact ((LyricScore.lyricSections_sublist fin _).trans
        hBehind.sublist).trans (List.takeWhile_sublist _)
  | none =>
      exact List.nil_sublist ts

------------------------------------------------------------
-- Lines of sections
------------------------------------------------------------

/-
  Nothing of a section is lost in a line, nothing is there
  twice, and nothing is moved.  The tokens of the section are
  those of its pieces; the pieces that end no line are the
  units of the written lines; and the shares of the units, but
  for barlines, are the elements of the beats of the line,
  whose measures with a barline are as many as its barlines.
-/
structure LyricLine.HoldsAll
    (line : LyricLine)
    (taken : List Token) : Prop where
  tokens : (pieces taken).flatMap LyricPiece.tokens = taken
  units :
    (lineShares false (physicalLines taken)).flatten.map
        Share.unit =
      ((pieces taken).map LyricPiece.unit).filter fun u =>
        !u.isNewline
  elements :
    line.measures.flatMap (fun m =>
        m.beats.flatMap Beat.elements) =
      ((lineShares false
        (physicalLines taken)).flatten.filter
        Share.isInside).flatMap Share.elements
  barlines :
    line.measures.countP LyricMeasure.barline =
      ((pieces taken).map LyricPiece.unit).countP
        LyricUnit.isBarline

/- Lines have all units but those that end a line. -/
theorem flatten_unitLines
    (units : List LyricUnit) :
    (unitLines units).flatten =
      units.filter fun u => !u.isNewline := by
  have hAll :
      ∀ us : List LyricUnit,
        (us.splitOnP LyricUnit.isNewline).flatten =
          us.filter fun u => !u.isNewline := by
    intro us
    induction us with
    | nil =>
        rfl
    | cons u us ih =>
        rw [List.splitOnP_cons_eq_if_modifyHead]
        by_cases hNewline : u.isNewline = true
        · rw [if_pos hNewline, List.flatten_cons,
            List.nil_append, ih,
            List.filter_cons_of_neg (by simp [hNewline])]
        · rw [if_neg hNewline,
            List.filter_cons_of_pos (by simp [hNewline]),
            ← ih]
          cases hParts : us.splitOnP LyricUnit.isNewline with
          | nil =>
              exact absurd hParts (List.splitOnP_ne_nil _ us)
          | cons part parts =>
              rfl
  rw [unitLines, ← hAll]
  exact List.flatten_filter_ne_nil

/- No barline is among the units that end a line. -/
theorem countP_barline_units
    (units : List LyricUnit) :
    (units.filter fun u => !u.isNewline).countP
        LyricUnit.isBarline =
      units.countP LyricUnit.isBarline := by
  rw [List.countP_filter]
  refine List.countP_congr fun u _ => ?_
  cases u with
  | mark t =>
      cases hKind : t.kind <;>
        simp [LyricUnit.isBarline, LyricUnit.isNewline,
          Token.isNewline, hKind]
  | group g =>
      simp [LyricUnit.isBarline]

/-
  The measures of all lines hold the elements of all shares
  but the barlines.
-/
theorem elements_flatMap_measuresOf
    (lines : List (List Share)) :
    (lines.flatMap measuresOf).flatMap (fun m =>
        m.beats.flatMap Beat.elements) =
      (lines.flatten.filter Share.isInside).flatMap
        Share.elements := by
  induction lines with
  | nil =>
      rfl
  | cons line lines ih =>
      rw [List.flatMap_cons, List.flatMap_append, ih,
        elements_measuresOf, List.flatten_cons,
        List.filter_append, List.flatMap_append]

/-
  The measures with a barline are as many as
  the barlines of all lines.
-/
theorem countP_barline_flatMap_measuresOf
    (lines : List (List Share)) :
    (lines.flatMap measuresOf).countP LyricMeasure.barline =
      lines.flatten.countP fun x => x.unit.isBarline := by
  induction lines with
  | nil =>
      rfl
  | cons line lines ih =>
      rw [List.flatMap_cons, List.countP_append, ih,
        countP_barline_measuresOf, List.flatten_cons,
        List.countP_append]

/-
  The line that the grammar tells has all
  that its section has.
-/
theorem LyricLine.ofLines_holdsAll
    (taken : List Token) :
    (ofLines (physicalLines taken)).HoldsAll taken := by
  have hUnits :
      (lineShares false (physicalLines taken)).flatten.map
          Share.unit =
        ((pieces taken).map LyricPiece.unit).filter fun u =>
          !u.isNewline := by
    rw [map_unit_lineShares, physicalLines, flatten_unitLines]
  refine ⟨flatMap_tokens_pieces taken, hUnits,
    elements_flatMap_measuresOf _, ?_⟩
  rw [← countP_barline_units, ← hUnits, List.countP_map]
  exact countP_barline_flatMap_measuresOf _

/-
  The lyric line of every block is what the written lines of
  its lyric section mean, and has all that the section says.
-/
theorem Score.lyrics_follow_grammar
    {text : String}
    {score : Score}
    (hParse : parse text = .ok score) :
    score.blocks.map Block.lyricLines =
        (Manuscript.lyricSections (tokenize text)).map
          (fun taken =>
            [LyricLine.ofLines (physicalLines taken)]) ∧
      (Manuscript.lyricSections
        (tokenize text)).flatten.Sublist (tokenize text) ∧
      ∀ taken ∈ Manuscript.lyricSections (tokenize text),
        (LyricLine.ofLines (physicalLines taken)).HoldsAll
          taken := by
  refine ⟨?_, Manuscript.lyricSections_sublist _,
    fun taken _ => LyricLine.ofLines_holdsAll taken⟩
  rcases exists_manuscript hParse with ⟨m, hRead, rfl⟩
  have hLines :=
    congrArg
      (List.map fun lines => [LyricLine.ofLines lines])
      (Manuscript.read_lyrics hRead)
  rw [List.map_map, List.map_map] at hLines
  rw [ofManuscript, List.map_map]
  refine
    Eq.trans (List.map_congr_left fun stanza _ => ?_) hLines
  rw [Function.comp_apply, Function.comp_apply,
    Block.ofStanza, LyricLine.ofUnits_eq]

/-
  Two written lines: a dot and a group lead, another group
  stands in a beat over a line end, and a beat is open where
  its line ends.
-/
def strung : String :=
  "T\n\n.[N2] la.la [T90\n]=*| -\ndo |\n(c/e)d\n"

/-
  Its lyric lines follow the grammar, and nothing of its
  section is lost.
-/
theorem strung_follows_grammar :
    ∃ score,
      Score.parse strung = .ok score ∧
        score.blocks.map Block.lyricLines =
          (Manuscript.lyricSections (tokenize strung)).map
            (fun taken =>
              [LyricLine.ofLines (physicalLines taken)]) ∧
        (Manuscript.lyricSections
          (tokenize strung)).flatten.Sublist
          (tokenize strung) ∧
        ∀ taken ∈ Manuscript.lyricSections
          (tokenize strung),
          (LyricLine.ofLines (physicalLines taken)).HoldsAll
            taken := by
  have hRead : (Score.parse strung).isOk = true := by
    decide +kernel
  rcases Outcome.exists_eq_ok hRead with ⟨score, hParse⟩
  exact ⟨score, hParse, Score.lyrics_follow_grammar hParse⟩

end LyricScore
