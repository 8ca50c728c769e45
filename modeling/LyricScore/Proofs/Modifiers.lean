import LyricScore.Proofs.Conservation

/-
  This file shows where modifiers get lost.  At every place at
  which a run of letters may start, modifiers without letters
  are an error of the whole text, unless they cancel; and the
  token that is passed over where no run starts is the one
  that was looked at, unless modifiers that cancel stand
  before it.

  Key definitions include:
    * `Token.MayStartRun`
    * `ChordVisits`, `LineVisits`, `LinesVisit`
    * `StanzasVisit`, `Manuscript.VisitsRun`

  Key theorems include:
    * `readChordEntry_of_silence`, `readPitchUnit_of_silence`
    * `Manuscript.VisitsRun.error`
    * `Score.modifiers_followed`
    * `modifiers_lost_only_if_they_cancel`
-/

namespace LyricScore

------------------------------------------------------------
-- Errors of units
------------------------------------------------------------

/- An error of the unit that is read first. -/
theorem Stop.andThen_error
    {α β : Type}
    {unit : Except Stop (α × List Token)}
    {remarks : α → List Remark}
    {others : α → List Token → Except Stop (List α × β)}
    {e : ScoreError}
    (hUnit : unit.mapError error = .error e) :
    (andThen unit remarks others).mapError error =
      .error e := by
  cases unit with
  | error s =>
      cases hUnit
      rfl
  | ok v =>
      cases hUnit

/- An error behind the unit that is read first. -/
theorem Stop.andThen_error_later
    {α β : Type}
    {unit : Except Stop (α × List Token)}
    {remarks : α → List Remark}
    {others : α → List Token → Except Stop (List α × β)}
    {a : α}
    {after : List Token}
    {e : ScoreError}
    (hUnit : unit = .ok (a, after))
    (hOthers : (others a after).mapError error = .error e) :
    (andThen unit remarks others).mapError error =
      .error e := by
  subst hUnit
  simp only [andThen]
  cases hLater : others a after with
  | error s =>
      rw [hLater] at hOthers
      exact hOthers
  | ok v =>
      rw [hLater] at hOthers
      cases hOthers

/-
  A token of a pitch line that a run may start with: it is no
  barline, and opens neither a group nor a chord.
-/
structure Token.MayStartRun
    (t : Token) : Prop where
  barline : t.kind ≠ .barline
  bracket : t.kind ≠ .openBracket
  parenthesis : t.kind ≠ .openParenthesis

/-
  Where a run may start, a unit is the run
  or a token passed over.
-/
theorem readPitchUnit_of_mayStartRun
    {fin t : Token}
    {rest : List Token}
    (hStart : t.MayStartRun) :
    readPitchUnit fin t rest =
      match readRun fin (t :: rest) with
      | .error e => .error ⟨e, []⟩
      | .ok (ps, after) =>
          .ok
            (if ps = [] then
                (.stray t, after.tail)
              else (.run ps, after)) := by
  unfold readPitchUnit
  cases readRun fin (t :: rest) <;>
    simp only [if_neg hStart.barline, if_neg hStart.bracket,
      if_neg hStart.parenthesis]

------------------------------------------------------------
-- Places of runs
------------------------------------------------------------

section Visits

variable (fin : Token)

/-
  Reading the entries of a chord comes to
  tokens that may be a run.
-/
inductive ChordVisits : List Token → List Token → Prop where
  | here {t : Token} {rest : List Token}
      (hOpen : t.kind ≠ .closeParenthesis) :
      ChordVisits (t :: rest) (t :: rest)
  | later {t : Token} {rest after us : List Token}
      {entry : ChordEntry}
      (hOpen : t.kind ≠ .closeParenthesis)
      (hEntry :
        readChordEntry fin (t :: rest) = .ok (entry, after))
      (hLater : ChordVisits after us) :
      ChordVisits (t :: rest) us

/-
  Reading a written pitch line comes to
  tokens that may be a run.
-/
inductive LineVisits : List Token → List Token → Prop where
  | here {t : Token} {rest : List Token}
      (hLine : t.kind ≠ .newline)
      (hStart : t.MayStartRun) :
      LineVisits (t :: rest) (t :: rest)
  | chord {t : Token} {rest us : List Token}
      (hOpening : t.kind = .openParenthesis)
      (hChord : ChordVisits fin rest us) :
      LineVisits (t :: rest) us
  | later {t : Token} {rest after us : List Token}
      {unit : PitchUnit}
      (hLine : t.kind ≠ .newline)
      (hUnit : readPitchUnit fin t rest = .ok (unit, after))
      (hLater : LineVisits after us) :
      LineVisits (t :: rest) us

/-
  Reading the pitch lines of a block comes to tokens that
  may be a run.
-/
inductive LinesVisit : List Token → List Token → Prop where
  | line {t : Token} {rest us : List Token}
      (hLine : t.kind ≠ .newline)
      (hHere : LineVisits fin (t :: rest) us) :
      LinesVisit (t :: rest) us
  | newline {t : Token} {rest us : List Token}
      (hNewline : t.kind = .newline)
      (hGap : atNewline rest = false)
      (hLater : LinesVisit rest us) :
      LinesVisit (t :: rest) us
  | later {t : Token} {rest after us : List Token}
      {units : List PitchUnit}
      (hLine : t.kind ≠ .newline)
      (hRead :
        readPitchLine fin (t :: rest) = .ok (units, after))
      (hLater : LinesVisit after us) :
      LinesVisit (t :: rest) us

/- Reading stanzas comes to tokens that may be a run. -/
inductive StanzasVisit : List Token → List Token → Prop where
  | pitches {t : Token} {rest after us : List Token}
      {lyrics : List (List LyricUnit)}
      (hStart : t.kind ≠ .newline)
      (hLyrics :
        readLyricLines fin (t :: rest) =
          .ok (lyrics, after))
      (hPitches : LinesVisit fin after us) :
      StanzasVisit (t :: rest) us
  | newline {t : Token} {rest us : List Token}
      (hNewline : t.kind = .newline)
      (hLater : StanzasVisit rest us) :
      StanzasVisit (t :: rest) us
  | later {t : Token} {rest after us : List Token}
      {stanza : Stanza}
      (hStart : t.kind ≠ .newline)
      (hStanza :
        readStanza fin (t :: rest) = .ok (stanza, after))
      (hLater : StanzasVisit after us) :
      StanzasVisit (t :: rest) us

/-
  Reading the tokens of a text, the last of which is `fin`,
  comes to a place in a pitch line or a chord where `us` may
  start with a run.
-/
def Manuscript.VisitsRun
    (ts us : List Token) : Prop :=
  ∃ body,
    ts = body ++ [fin] ∧
      fin.kind = .endOfText ∧
      (∀ t ∈ body, t.kind ≠ .endOfText) ∧
      StanzasVisit fin
        (readTitle (body.dropWhile Token.isNewline)).2 us

end Visits

section Suffixes

variable {fin : Token}
variable {ts us : List Token}

/- Reading a chord comes to ends of its tokens. -/
theorem ChordVisits.suffix
    (hVisits : ChordVisits fin ts us) :
    us <:+ ts := by
  induction hVisits with
  | here _ =>
      exact List.suffix_rfl
  | later _ hEntry _ ih =>
      exact ih.trans (readChordEntry_suffix hEntry)

theorem LineVisits.suffix
    (hVisits : LineVisits fin ts us) :
    us <:+ ts := by
  induction hVisits with
  | here _ _ =>
      exact List.suffix_rfl
  | chord _ hChord =>
      exact hChord.suffix.trans (List.suffix_cons _ _)
  | later _ hUnit _ ih =>
      exact ih.trans (readPitchUnit_suffix hUnit)

theorem LinesVisit.suffix
    (hVisits : LinesVisit fin ts us) :
    us <:+ ts := by
  induction hVisits with
  | line _ hHere =>
      exact hHere.suffix
  | newline _ _ _ ih =>
      exact ih.trans (List.suffix_cons _ _)
  | later _ hRead _ ih =>
      exact ih.trans (readPitchLine_suffix hRead)

/- Reading stanzas comes to ends of their tokens. -/
theorem StanzasVisit.suffix
    (hVisits : StanzasVisit fin ts us) :
    us <:+ ts := by
  induction hVisits with
  | pitches _ hLyrics hPitches =>
      exact hPitches.suffix.trans
        (readLyricLines_suffix hLyrics)
  | newline _ _ ih =>
      exact ih.trans (List.suffix_cons _ _)
  | later _ hStanza _ ih =>
      exact ih.trans (readStanza_suffix hStanza)

/-
  The tokens from such a place on are the
  last ones of the text.
-/
theorem Manuscript.VisitsRun.mem
    {t : Token}
    (hVisits : VisitsRun fin ts us)
    (hMember : t ∈ us) :
    t ∈ ts := by
  rcases hVisits with ⟨body, rfl, -, -, hStanzas⟩
  have hSuffix :=
    (hStanzas.suffix.trans (readTitle_suffix _)).trans
      (List.dropWhile_suffix Token.isNewline)
  exact List.mem_append_left _ (hSuffix.subset hMember)

end Suffixes

------------------------------------------------------------
-- Errors at these places
------------------------------------------------------------

section Errors

variable {fin : Token}
variable {ts us : List Token}
variable {e : ScoreError}

/- A run that fails inside of a chord fails the chord. -/
theorem ChordVisits.error
    (hVisits : ChordVisits fin ts us)
    (hRun : readRun fin us = .error e) :
    (readChordEntries fin ts).mapError Stop.error =
      .error e := by
  induction hVisits with
  | here hOpen =>
      rw [readChordEntries_cons, if_neg hOpen]
      apply Stop.andThen_error
      rw [readChordEntry, hRun]
      rfl
  | later hOpen hEntry _ ih =>
      rw [readChordEntries_cons, if_neg hOpen, hEntry]
      exact Stop.andThen_error_later rfl (ih hRun)

/- A run that fails on a pitch line fails the line. -/
theorem LineVisits.error
    (hVisits : LineVisits fin ts us)
    (hRun : readRun fin us = .error e) :
    (readPitchLine fin ts).mapError Stop.error = .error e := by
  induction hVisits with
  | here hLine hStart =>
      rw [readPitchLine_cons, if_neg hLine]
      apply Stop.andThen_error
      rw [readPitchUnit_of_mayStartRun hStart, hRun]
      rfl
  | @chord t rest us hOpening hChord =>
      rcases Outcome.mapError_eq_error.mp
          (hChord.error hRun) with
        ⟨s, hStop, rfl⟩
      have hLine : t.kind ≠ .newline := by
        rw [hOpening]
        decide
      rw [readPitchLine_cons, if_neg hLine]
      apply Stop.andThen_error
      rw [readPitchUnit, hOpening, if_neg (by decide),
        if_neg (by decide), if_pos rfl, hStop]
      rfl
  | later hLine hUnit _ ih =>
      rw [readPitchLine_cons, if_neg hLine]
      exact Stop.andThen_error_later hUnit (ih hRun)

theorem LinesVisit.error
    (hVisits : LinesVisit fin ts us)
    (hRun : readRun fin us = .error e) :
    (readPitchLines fin ts).mapError Stop.error = .error e := by
  induction hVisits with
  | line hLine hHere =>
      rw [readPitchLines_cons, if_neg hLine]
      exact Stop.andThen_error (hHere.error hRun)
  | newline hNewline hGap _ ih =>
      rw [readPitchLines_cons, if_pos hNewline, hGap]
      exact ih hRun
  | later hLine hRead _ ih =>
      rw [readPitchLines_cons, if_neg hLine]
      exact Stop.andThen_error_later hRead (ih hRun)

/- A run that fails in one of some stanzas fails them all. -/
theorem StanzasVisit.error
    (hVisits : StanzasVisit fin ts us)
    (hRun : readRun fin us = .error e) :
    (readStanzas fin ts).mapError Stop.error = .error e := by
  induction hVisits with
  | pitches hStart hLyrics hPitches =>
      rcases Outcome.mapError_eq_error.mp
          (hPitches.error hRun) with
        ⟨s, hStop, rfl⟩
      rw [readStanzas_cons, if_neg hStart, readStanza, hLyrics]
      simp only [hStop]
      rfl
  | newline hNewline _ ih =>
      rw [readStanzas_cons, if_pos hNewline]
      exact ih hRun
  | later hStart hStanza _ ih =>
      rcases Outcome.mapError_eq_error.mp (ih hRun) with
        ⟨s, hStop, rfl⟩
      rw [readStanzas_cons, if_neg hStart, hStanza]
      simp only [hStop]
      rfl

/- An error at a place of a run is the error of the text. -/
theorem Manuscript.VisitsRun.error
    (hVisits : VisitsRun fin ts us)
    (hRun : readRun fin us = .error e) :
    Score.ofTokens ts = .error e := by
  rcases hVisits with ⟨body, rfl, hFin, hBody, hStanzas⟩
  rcases Outcome.mapError_eq_error.mp
      (hStanzas.error hRun) with
    ⟨s, hStop, rfl⟩
  rw [Score.ofTokens, read_append hFin hBody, ofBody]
  cases hStart : body.dropWhile Token.isNewline with
  | nil =>
      rw [hStart, readTitle] at hStanzas
      cases hStanzas
  | cons t rest =>
      rw [hStart] at hStop
      simp only [hStop]

end Errors

------------------------------------------------------------
-- Tokens that are passed over
------------------------------------------------------------

section Silence

variable {fin : Token}
variable {ts rest : List Token}

/-
  Where no run starts, an entry of a
  chord is the next token.
-/
theorem readChordEntry_of_silence
    (hRun : readRun fin ts = .ok ([], rest)) :
    readChordEntry fin ts =
      .ok (.stray (rest.headD fin), rest.tail) := by
  rw [readChordEntry, hRun]
  rfl

/-
  Where no run starts, the next token of a
  pitch line is passed over.
-/
theorem readPitchUnit_of_silence
    {t : Token}
    (hStart : t.MayStartRun)
    (hRun : readRun fin (t :: ts) = .ok ([], rest)) :
    readPitchUnit fin t ts = .ok (.stray t, rest.tail) := by
  rw [readPitchUnit_of_mayStartRun hStart, hRun]
  rfl

end Silence

------------------------------------------------------------
-- Modifiers of a text
------------------------------------------------------------

/-
  A place that swallows a token is one at
  which modifiers dangle.
-/
theorem PitchPlace.Swallows.dangles
    {p : PitchPlace}
    (hSwallows : p.Swallows) :
    p.Dangles := by
  rcases hSwallows with ⟨hCancels, t, hHead, hMinds⟩
  have hName : t.kind ≠ .identifier := by
    intro hKind
    unfold Nesting.Minds at hMinds
    split at hMinds <;> simp [hKind] at hMinds
  refine ⟨?_, hCancels, ?_⟩
  · intro hGroup
    rw [hGroup] at hMinds
    exact hMinds
  · rintro ⟨u, hu, l, ls, hLetters⟩
    cases Option.mem_unique hHead hu
    rw [Token.letters?, if_neg hName] at hLetters
    cases hLetters

/-
  In the pitch sections of a text that is a score, modifiers
  are followed by letters, as long as none dangle that cancel.
-/
theorem Score.modifiers_followed
    {text : String}
    {score : Score}
    {index : Nat}
    {ps : List PitchPlace}
    (hParse : Score.parse text = .ok score)
    (hSection :
      (Manuscript.pitchSections (tokenize text))[index]? =
        some ps)
    (hDangles :
      ∀ qs ∈ (Manuscript.pitchSections (tokenize text)).take
        (index + 1),
        ∀ p ∈ qs, ¬ p.Dangles) :
    ∀ p ∈ ps, p.Followed := by
  rcases exists_manuscript hParse with ⟨m, hRead, rfl⟩
  have hWrites :=
    Manuscript.read_writes index
      (fun qs hqs p hp hSwallows =>
        hDangles qs hqs p hp hSwallows.dangles) hRead
  rw [hSection] at hWrites
  cases hStanza : m.stanzas[index]? with
  | none =>
      rw [hStanza] at hWrites
      cases hWrites
  | some stanza =>
      rw [hStanza] at hWrites
      cases hWrites with
      | some hWrites =>
          refine hWrites.followed.resolve_left ?_
          rintro ⟨p, hp, hHere⟩
          have hTaken :
              ((Manuscript.pitchSections
                (tokenize text)).take (index + 1))[index]? =
                some ps := by
            rw [List.getElem?_take_of_lt index.lt_succ_self,
              hSection]
          exact hDangles ps (List.mem_of_getElem? hTaken) p
            hp hHere

/-
  Modifiers without letters are an error of the text wherever
  a run may start, unless they cancel.
-/
theorem Score.parse_of_lone_modifiers
    {text : String}
    {fin : Token}
    {us : List Token}
    (hVisits : Manuscript.VisitsRun fin (tokenize text) us)
    (hNote : ¬ StartsWithNote (behindModifiers us))
    (hModifiers : modifiers us ≠ [])
    (hCancels : ¬ Cancels (modifiers us)) :
    Score.parse text =
      .error
        (.missing .note
          ((behindModifiers us).headD fin)) := by
  have hText : ∀ t ∈ us, t.HasText :=
    fun t ht => hasText_of_mem_tokenize (hVisits.mem ht)
  rcases readRun_cases fin hText with
    ⟨hStarts, -⟩ |
      ⟨-, ⟨hNone, -⟩ | ⟨hNothing, -⟩ | ⟨-, -, hRun⟩⟩
  · exact absurd hStarts hNote
  · exact absurd hNone hModifiers
  · exact absurd hNothing hCancels
  · exact hVisits.error hRun

/-
  What becomes of modifiers.  Where a run may start, pitches
  are read if letters stand behind the modifiers; if not, then
  nothing is taken where no modifiers are, and all modifiers
  are an error at the token behind them, unless they are
  shifts that cancel.  What is passed over where no run starts
  is the token that was looked at, unless such shifts stand
  before it.  In a text, modifiers without letters are an
  error, and those of a score are followed by letters, with
  the same exception: shifts that cancel are passed over.
-/
theorem modifiers_lost_only_if_they_cancel
    {ts : List Token}
    (fin : Token)
    (hText : ∀ t ∈ ts, t.HasText) :
    (StartsWithNote (behindModifiers ts) →
        ∃ p ps,
          readRun fin ts =
            .ok (p :: ps, (behindModifiers ts).tail)) ∧
      (¬ StartsWithNote (behindModifiers ts) →
        ¬ Cancels (modifiers ts) →
        (modifiers ts ≠ [] →
            readRun fin ts =
              .error
                (.missing .note
                  ((behindModifiers ts).headD fin))) ∧
          (modifiers ts = [] →
            readRun fin ts = .ok ([], ts) ∧
              ∀ t rest,
                ts = t :: rest →
                  readChordEntry fin ts =
                      .ok (.stray t, rest) ∧
                    (t.MayStartRun →
                      readPitchUnit fin t rest =
                        .ok (.stray t, rest)))) ∧
      (¬ StartsWithNote (behindModifiers ts) →
        Cancels (modifiers ts) →
        readRun fin ts = .ok ([], behindModifiers ts)) ∧
      (∀ text,
        Manuscript.VisitsRun fin (tokenize text) ts →
          ¬ StartsWithNote (behindModifiers ts) →
          ¬ Cancels (modifiers ts) →
          modifiers ts ≠ [] →
          Score.parse text =
            .error
              (.missing .note
                ((behindModifiers ts).headD fin))) ∧
      ∀ text score index ps,
        Score.parse text = .ok score →
          (Manuscript.pitchSections
              (tokenize text))[index]? =
            some ps →
          (∀ qs ∈
              (Manuscript.pitchSections
                (tokenize text)).take (index + 1),
              ∀ p ∈ qs, ¬ p.Dangles) →
          ∀ p ∈ ps, p.Followed := by
  have hCases := readRun_cases fin hText
  refine ⟨?_, ?_, ?_, ?_, ?_⟩
  · intro hNote
    rcases hCases with ⟨-, hRun⟩ | ⟨hNone, -⟩
    · exact hRun
    · exact absurd hNote hNone
  · intro hNote hCancels
    rcases hCases with
      ⟨hStarts, -⟩ |
        ⟨-,
          ⟨hNone, hRun⟩ | ⟨hNothing, -⟩ | ⟨hSome, -, hRun⟩⟩
    · exact absurd hStarts hNote
    · refine ⟨fun hModifiers => absurd hNone hModifiers,
        fun _ => ⟨hRun, ?_⟩⟩
      rintro t rest rfl
      exact ⟨readChordEntry_of_silence hRun,
        fun hStart => readPitchUnit_of_silence hStart hRun⟩
    · exact absurd hNothing hCancels
    · exact ⟨fun _ => hRun, fun hNone => absurd hNone hSome⟩
  · intro hNote hCancels
    rcases hCases with
      ⟨hStarts, -⟩ |
        ⟨-, ⟨hNone, -⟩ | ⟨-, hRun⟩ | ⟨-, hOthers, -⟩⟩
    · exact absurd hStarts hNote
    · exact absurd hNone hCancels.some_shift
    · exact hRun
    · exact absurd hCancels hOthers
  · intro text hVisits hNote hCancels hModifiers
    exact Score.parse_of_lone_modifiers hVisits hNote
      hModifiers hCancels
  · intro text score index ps hParse hSection hDangles
    exact Score.modifiers_followed hParse hSection hDangles

/- A chord with a shift before what is no letter. -/
def wailing : String :=
  "T\n\nla|\n(c ^x)\n"

/- What is left of it where the shift starts. -/
def wailingShift : List Token :=
  [⟨.caret, "^", 4, 4, 5⟩, ⟨.identifier, "x", 4, 5, 6⟩,
    ⟨.closeParenthesis, ")", 4, 6, 7⟩,
    ⟨.newline, "\n", 4, 7, 8⟩]

/- Its pitch section. -/
def wailingPitches : List Token :=
  ⟨.newline, "\n", 3, 4, 5⟩ ::
    ⟨.openParenthesis, "(", 4, 1, 2⟩ ::
    ⟨.identifier, "c", 4, 2, 3⟩ :: wailingShift

/- Its lyrics and its pitch section. -/
def wailingStanza : List Token :=
  ⟨.identifier, "la", 3, 1, 3⟩ ::
    ⟨.barline, "|", 3, 3, 4⟩ :: wailingPitches

/- Reading it comes to the shift. -/
theorem wailing_visits :
    Manuscript.VisitsRun ⟨.endOfText, "", 5, 1, 1⟩
      (tokenize wailing) wailingShift := by
  have hTitle :
      (readTitle
          ((tokenize wailing).dropLast.dropWhile
            Token.isNewline)).2 =
        ⟨.newline, "\n", 2, 1, 2⟩ :: wailingStanza := by
    decide +kernel
  have hLyrics :
      readLyricLines ⟨.endOfText, "", 5, 1, 1⟩
          wailingStanza =
        .ok
          ([[.mark ⟨.identifier, "la", 3, 1, 3⟩,
              .mark ⟨.barline, "|", 3, 3, 4⟩]],
            wailingPitches) := by
    decide +kernel
  have hEntry :
      readChordEntry ⟨.endOfText, "", 5, 1, 1⟩
          (⟨.identifier, "c", 4, 2, 3⟩ :: wailingShift) =
        .ok
          (.run [⟨.c, none, 0, ⟨4, 2⟩⟩], wailingShift) := by
    decide +kernel
  refine ⟨(tokenize wailing).dropLast, by decide +kernel,
    rfl, by decide +kernel, ?_⟩
  rw [hTitle]
  refine .newline rfl (.pitches (by decide) hLyrics ?_)
  exact .newline rfl rfl
    (.line (by decide)
      (.chord rfl
        (.later (by decide) hEntry (.here (by decide)))))

/- Its shift has no letter, so it is no score. -/
theorem wailing_is_no_score :
    (∀ t ∈ wailingShift, t.HasText) ∧
      Manuscript.VisitsRun ⟨.endOfText, "", 5, 1, 1⟩
        (tokenize wailing) wailingShift ∧
      Score.parse wailing =
        .error
          (.missing .note ⟨.identifier, "x", 4, 5, 6⟩) := by
  have hText : ∀ t ∈ wailingShift, t.HasText := by
    unfold Token.HasText
    decide
  have hNote :
      ¬ StartsWithNote (behindModifiers wailingShift) := by
    decide +kernel
  have hCancels : ¬ Cancels (modifiers wailingShift) := by
    decide
  have hModifiers : modifiers wailingShift ≠ [] := by
    decide
  have hAll :=
    modifiers_lost_only_if_they_cancel
      ⟨.endOfText, "", 5, 1, 1⟩ hText
  exact ⟨hText, wailing_visits,
    hAll.2.2.2.1 wailing wailing_visits hNote hCancels
      hModifiers⟩

/-
  The exception: of two barlines, the one behind shifts that
  cancel is lost.
-/
example :
    (Score.parse "T\n\nla|\n^/|c|\n").map (fun score =>
        score.blocks.map fun b =>
          b.pitchLines.map fun l =>
            l.measures.map (·.barline)) =
      .ok [[[true]]] := by
  decide +kernel

end LyricScore
