import LyricScore.Proofs.Manuscript.Append
import LyricScore.Proofs.Score.Alike

/-
  This file shows that an empty line is all that paragraphs
  need between them: whatever stands behind one is read there
  as it would be behind any other title.  Its blocks and its
  errors differ only in the lines where they stand.

  Key definitions include:
    * `Stanza.LowerBlocks`

  Key theorems include:
    * `readStanzas_lower`
    * `Score.parse_behind_title`
    * `Score.parse_behind_gap`
    * `Score.parse_paragraphs`
-/

namespace LyricScore

------------------------------------------------------------
-- Stanzas further down
------------------------------------------------------------

/-
  Stanzas whose blocks differ only in that one's stand so
  many lines further down.
-/
def Stanza.LowerBlocks
    (n : Nat)
    (as bs : List Stanza) : Prop :=
  bs.map Block.ofStanza =
    (as.map Block.ofStanza).map
      (Block.mapLocations (Location.lower n))

/-
  Stanzas that differ only in being
  lower become such blocks.
-/
theorem Stanza.lowerBlocks_of_like
    {n : Nat}
    {as bs : List Stanza}
    (hStanzas :
      List.Forall₂ (Stanza.Like (Location.lower n) id)
        as bs) :
    LowerBlocks n as bs := by
  induction hStanzas with
  | nil =>
      rfl
  | cons hStanza _ ih =>
      have hBlock :=
        Block.ofStanza_alike (Location.concur_lower n)
          hStanza
      rw [Block.mapLocations_id, id_eq] at hBlock
      unfold LowerBlocks at ih ⊢
      rw [List.map_cons, List.map_cons, List.map_cons, ih,
        hBlock]

/-
  Stanzas that are read from tokens so many lines
  further down have their blocks there, or the error
  there that the others have.  In errors every place is
  moved; in blocks unknown places stay.
-/
theorem readStanzas_lower
    {fin : Token}
    {ts : List Token}
    (n : Nat)
    (hLines : ∀ t ∈ ts ++ [fin], 0 < t.line) :
    Outcome.Like (Stop.Like (Location.down n) id)
      (Stanza.LowerBlocks n) (readStanzas fin ts)
      (readStanzas (fin.lower n)
        (ts.map (Token.lower n))) := by
  have hKnown :
      ∀ t ∈ ts ++ [fin],
        t.location.lower n = (t.lower n).location := by
    intro t ht
    exact if_neg (Int.ne_of_gt (hLines t ht))
  rw [List.forall_mem_append,
    List.forall_mem_singleton] at hKnown
  have hFin : fin.Like (Location.down n) id (fin.lower n) :=
    ⟨rfl, rfl, rfl⟩
  have hDown :=
    readStanzas_alike (Location.inStep_down n) hFin
      (spacedAlike_lower n none fun t (_ : t ∈ ts) => rfl)
  have hFin :
      fin.Like (Location.lower n) id (fin.lower n) :=
    ⟨rfl, rfl, hKnown.2⟩
  have hLower :=
    readStanzas_alike (Location.concur_lower n).toInStep
      hFin (spacedAlike_lower n none hKnown.1)
  generalize readStanzas fin ts = x at hDown hLower ⊢
  generalize readStanzas (fin.lower n)
    (ts.map (Token.lower n)) = y at hDown hLower ⊢
  cases hDown with
  | error hErrors =>
      exact .error hErrors
  | ok _ =>
      cases hLower with
      | ok hStanzas =>
          exact .ok (Stanza.lowerBlocks_of_like hStanzas)

------------------------------------------------------------
-- Stanzas behind paragraphs
------------------------------------------------------------

/- The empty line before another text. -/
theorem tokenize_emptyLine
    (rest : String) :
    ∃ ends,
      2 ≤ ends.length ∧
        (∀ t ∈ ends, t.kind = .newline) ∧
        tokenize ("\n\n" ++ rest) =
          ends ++ (tokenize rest).map (Token.lower 2) := by
  have hFirst :
      tokenize "\n\n" =
        [⟨.newline, "\n", 1, 1, 2⟩,
            ⟨.newline, "\n", 2, 1, 2⟩] ++
          [⟨.endOfText, "", 3, 1, 1⟩] := by
    decide +kernel
  have hLines : "\n\n".toList.count '\n' = 2 := by
    decide
  have hBoth :=
    (tokenize_append (by decide) hLines hFirst).2 rest
  refine ⟨_, ?_, ?_, hBoth⟩
  · decide
  · decide

/- A title and an empty line before another text. -/
theorem tokenize_titleLine
    (rest : String) :
    ∃ title ends : Token,
      ∃ blank,
        title.kind = .identifier ∧
          title.text = "T" ∧
          ends.kind = .newline ∧
          blank.kind = .newline ∧
          tokenize ("T\n\n" ++ rest) =
            title :: ends :: blank ::
              (tokenize rest).map (Token.lower 2) := by
  have hFirst :
      tokenize "T\n\n" =
        [⟨.identifier, "T", 1, 1, 2⟩,
            ⟨.newline, "\n", 1, 2, 3⟩,
            ⟨.newline, "\n", 2, 1, 2⟩] ++
          [⟨.endOfText, "", 3, 1, 1⟩] := by
    decide +kernel
  have hLines : "T\n\n".toList.count '\n' = 2 := by
    decide
  exact ⟨_, _, _, rfl, rfl, rfl, rfl,
    (tokenize_append (by decide) hLines hFirst).2 rest⟩

namespace Score

/-
  The score of tokens up to the closing one is that of the
  manuscript that they are.
-/
theorem ofTokens_append
    {fin : Token}
    {ts : List Token}
    (hFin : fin.kind = .endOfText)
    (hOpen : ∀ t ∈ ts, t.kind ≠ .endOfText) :
    ofTokens (ts ++ [fin]) =
      ((Manuscript.ofBody fin ts).mapError Stop.error).map
        ofManuscript := by
  unfold ofTokens
  rw [Manuscript.read_append hFin hOpen]
  cases Manuscript.ofBody fin ts <;> rfl

section Behind

/- The tokens of a text that starts two lines further down. -/
variable {rest : String}
variable {ts : List Token}
variable {fin : Token}
variable
  (hRest :
    (tokenize rest).map (Token.lower 2) = ts ++ [fin])
variable (hFin : fin.kind = .endOfText)
variable (hOpen : ∀ t ∈ ts, t.kind ≠ .endOfText)

include hRest hFin hOpen

/-
  Behind a title and an empty line there are
  the stanzas of the text.
-/
theorem parse_behind_title :
    parse ("T\n\n" ++ rest) =
      ((readStanzas fin ts).mapError Stop.error).map
        fun stanzas => ⟨["T"], stanzas.map Block.ofStanza⟩ := by
  rcases tokenize_titleLine rest with
    ⟨t, u, v, hTitle, hText, hEnd, hBlank, hTokens⟩
  rw [hRest] at hTokens
  have hOpen :
      ∀ w ∈ t :: u :: v :: ts, w.kind ≠ .endOfText := by
    rw [List.forall_mem_cons, List.forall_mem_cons,
      List.forall_mem_cons, hTitle, hEnd, hBlank]
    exact ⟨nofun, nofun, nofun, hOpen⟩
  have hBody :
      (t :: u :: v :: ts).dropWhile Token.isNewline =
        t :: u :: v :: ts := by
    simp [Token.isNewline, hTitle]
  have hRead :
      readTitle (t :: u :: v :: ts) = ([[t]], v :: ts) := by
    simp [readTitle_cons, Token.isNewline, atNewline,
      hTitle, hEnd, hBlank]
  have hScore : ofTokens (t :: u :: v :: ts ++ [fin]) = _ :=
    ofTokens_append hFin hOpen
  rw [Manuscript.ofBody_of_title fin hBody, hRead,
    readStanzas_cons, if_pos hBlank, Outcome.mapError_map,
    Outcome.map_map] at hScore
  rw [parse, hTokens, ← hText]
  exact hScore

/-
  Behind another text with a title and an empty line there are
  the stanzas of the text too, as many lines further down.
-/
theorem parse_behind_gap
    {first : String}
    {n : Nat}
    {s : Score}
    (hParse : parse first = .ok s)
    (hTitle : s.title ≠ [])
    (hEnd : first.toList.getLast? = some '\n')
    (hCount : first.toList.count '\n' = n) :
    parse (first ++ "\n\n" ++ rest) =
      ((readStanzas (fin.lower n)
        (ts.map (Token.lower n))).mapError Stop.error).map
        fun stanzas =>
          ⟨s.title,
            s.blocks ++ stanzas.map Block.ofStanza⟩ := by
  rcases tokenize_eq_append first with
    ⟨us, fin', hFirst, hFin', hUs⟩
  rcases tokenize_append hEnd hCount hFirst with
    ⟨⟨last, hLast, hNewline⟩, hBoth⟩
  rcases tokenize_emptyLine rest with
    ⟨ends, hLength, hEnds, hBehind⟩
  have hClosed : Closed us := by
    intro t ht
    rw [← Option.mem_unique hLast ht]
    exact hNewline
  have hEnds' :
      ∀ t ∈ ends.map (Token.lower n), t.kind = .newline :=
    List.forall_mem_map.mpr hEnds
  have hGap :
      Gap
        (ends.map (Token.lower n) ++ ts.map (Token.lower n))
        (ts.map (Token.lower n)) :=
    ⟨_, rfl, by rwa [List.length_map], hEnds'⟩
  have hAlone : ∀ t ∈ us, t.kind ≠ .endOfText :=
    fun t ht => (hUs t ht).1
  rw [parse, hFirst, ofTokens_append hFin' hAlone] at hParse
  rcases Outcome.map_eq_ok.mp hParse with ⟨m, hBody, rfl⟩
  have hTitle : m.title ≠ [] :=
    mt List.map_eq_nil_iff.mpr hTitle
  have hLonger :=
    Manuscript.ofBody_append (fin.lower n) hGap hClosed
      hTitle (Outcome.mapError_eq_ok.mp hBody)
  have hOpen :
      ∀ t ∈ us ++
        (ends.map (Token.lower n) ++
          ts.map (Token.lower n)),
        t.kind ≠ .endOfText := by
    rw [List.forall_mem_append, List.forall_mem_append]
    refine ⟨hAlone, ?_, List.forall_mem_map.mpr hOpen⟩
    intro t ht hKind
    cases hKind.symm.trans (hEnds' t ht)
  have hTokens :
      tokenize (first ++ "\n\n" ++ rest) =
        us ++
          (ends.map (Token.lower n) ++
            ts.map (Token.lower n)) ++ [fin.lower n] := by
    rw [String.append_assoc, hBoth, hBehind, hRest,
      List.map_append, List.map_append, List.map_singleton,
      List.append_assoc, List.append_assoc]
  have hFin : (fin.lower n).kind = .endOfText := hFin
  rw [parse, hTokens, ofTokens_append hFin hOpen, hLonger,
    Outcome.map_map]
  congr 1
  funext stanzas
  simp [ofManuscript]

end Behind

/-
  Paragraphs are independent.  Behind a text with a title that
  ends with a line end, and an empty line, another text has the
  blocks that it has behind any title: they only stand further
  down.  If it is no score there, it is no score here, for the
  same reason and at the same token, which stands further down.
-/
theorem parse_paragraphs
    {first : String}
    {s : Score}
    (rest : String)
    (hParse : parse first = .ok s)
    (hTitle : s.title ≠ [])
    (hEnd : first.toList.getLast? = some '\n') :
    Outcome.Like
      (ScoreError.Like
        (Location.down (first.toList.count '\n')) id)
      (fun t u =>
        u.title = s.title ∧
          u.blocks =
            s.blocks ++
              t.blocks.map
                (Block.mapLocations
                  (Location.lower
                    (first.toList.count '\n'))))
      (parse ("T\n\n" ++ rest))
      (parse (first ++ "\n\n" ++ rest)) := by
  rcases tokenize_eq_append rest with
    ⟨us, fin, hTokens, hFin, hUs⟩
  have hRest :
      (tokenize rest).map (Token.lower 2) =
        us.map (Token.lower 2) ++ [fin.lower 2] := by
    rw [hTokens, List.map_append, List.map_singleton]
  have hFin : (fin.lower 2).kind = .endOfText := hFin
  have hOpen :
      ∀ t ∈ us.map (Token.lower 2), t.kind ≠ .endOfText :=
    List.forall_mem_map.mpr fun t ht => (hUs t ht).1
  have hLines :
      ∀ t ∈ us.map (Token.lower 2) ++ [fin.lower 2],
        0 < t.line := by
    rw [← hRest, List.forall_mem_map]
    intro t ht
    have hLine : 1 ≤ t.line := Unread.line_le_of_mem_tokens ht
    simp only [Token.lower]
    omega
  have hStanzas :=
    readStanzas_lower (first.toList.count '\n') hLines
  rw [parse_behind_title hRest hFin hOpen,
    parse_behind_gap hRest hFin hOpen hParse hTitle hEnd rfl]
  generalize readStanzas _ _ = x at hStanzas ⊢
  generalize readStanzas _ _ = y at hStanzas ⊢
  cases hStanzas with
  | error hErrors =>
      exact .error hErrors
  | ok hBlocks =>
      exact .ok ⟨rfl, congrArg (s.blocks ++ ·) hBlocks⟩

end Score

/-
  A text whose last line end is swallowed, since shifts that
  cancel stand before it.
-/
def unended : String :=
  "Hymn\r\n\r\nla la|\r\n[K#2]c ^/\n"

/-
  The next paragraph is read for itself, only further down.
-/
theorem unended_parse_paragraphs :
    ∃ s t,
      Score.parse unended = .ok s ∧
        s.title ≠ [] ∧
        unended.toList.getLast? = some '\n' ∧
        Score.parse ("T\n\n" ++ "do|\n(d\ne)|") = .ok t ∧
        Outcome.Like
          (ScoreError.Like
            (Location.down (unended.toList.count '\n')) id)
          (fun t u =>
            u.title = s.title ∧
              u.blocks =
                s.blocks ++
                  t.blocks.map
                    (Block.mapLocations
                      (Location.lower
                        (unended.toList.count '\n'))))
          (Score.parse ("T\n\n" ++ "do|\n(d\ne)|"))
          (Score.parse
            (unended ++ "\n\n" ++ "do|\n(d\ne)|")) := by
  have hFirst : (Score.parse unended).isOk = true := by
    decide +kernel
  have hSecond :
      (Score.parse ("T\n\n" ++ "do|\n(d\ne)|")).isOk =
        true := by
    decide +kernel
  rcases Outcome.exists_eq_ok hFirst with ⟨s, hParse⟩
  rcases Outcome.exists_eq_ok hSecond with ⟨t, hRest⟩
  have hName :
      (Score.parse unended).map Score.title =
        .ok ["Hymn"] := by
    decide +kernel
  rw [hParse, Outcome.map_ok, Except.ok.injEq] at hName
  have hTitle : s.title ≠ [] := by
    rw [hName]
    exact List.cons_ne_nil _ _
  have hEnd : unended.toList.getLast? = some '\n' := by
    decide +kernel
  exact ⟨s, t, hParse, hTitle, hEnd, hRest,
    Score.parse_paragraphs "do|\n(d\ne)|" hParse hTitle hEnd⟩

end LyricScore
