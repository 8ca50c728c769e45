import LyricScore.Proofs.Paragraphs
import LyricScore.Proofs.Token.Row

/-
  This file shows that the title of a score is a text with the
  same words.  A title is built from the rows of the first
  paragraph, made tidy; so the lines of the title are a text
  with the same title and nothing else, and each line has the
  tokens of its row, with white space at the same places.

  Key definitions include:
    * `hasWords`
    * `titleRows`
    * `BuiltFrom`

  Key theorems include:
    * `Rows.readTitle_eq`
    * `Manuscript.ofBody_rows`
    * `Score.title_eq`, `Score.parse_of_hasWords`
    * `rowsOf_joined`
    * `Score.title_round_trip`
-/

namespace LyricScore

open Spacing

------------------------------------------------------------
-- Rows of a title
------------------------------------------------------------

/- Whether a row has words. -/
def hasWords
    (row : List Char) : Bool :=
  !(rowTokens 1 row).isEmpty

/- On any line, a row has words or has none. -/
theorem hasWords_iff
    (n : Nat)
    (row : List Char) :
    hasWords row = true ↔ rowTokens n row ≠ [] := by
  have hLine := fun m => rowTokens_add 0 m row
  have hFirst := hLine 1
  have hOther := hLine n
  rw [Nat.zero_add] at hFirst hOther
  simp [hasWords, hFirst, hOther]

/- A row without words has no tokens. -/
theorem rowTokens_of_not_hasWords
    {row : List Char}
    (n : Nat)
    (hNone : ¬ hasWords row = true) :
    rowTokens n row = [] := by
  rwa [hasWords_iff n, not_not] at hNone

/- The words of a row with words: they do not end the line. -/
theorem words_of_hasWords
    {row : List Char}
    (n : Nat)
    (hRow : '\n' ∉ row)
    (hWords : hasWords row = true) :
    rowTokens n row ≠ [] ∧
      ∀ t ∈ rowTokens n row, t.kind ≠ .newline :=
  ⟨(hasWords_iff n row).mp hWords, plain_rowTokens n hRow⟩

/-
  The rows of a title: the first rows with
  words, up to a row without.
-/
def titleRows
    (rows : List (List Char)) : List (List Char) :=
  (rows.dropWhile fun row => !hasWords row).takeWhile hasWords

/- The title line that is built from a row. -/
def rowTitle
    (row : List Char) : String :=
  String.ofList (tidyLine row)

/- The rows of the title are rows with words. -/
theorem mem_titleRows
    {rows : List (List Char)}
    {row : List Char}
    (hRow : row ∈ titleRows rows) :
    row ∈ rows ∧ hasWords row = true :=
  ⟨(List.dropWhile_sublist _).mem
      ((List.takeWhile_sublist _).mem hRow),
    List.mem_takeWhile_imp hRow⟩

/- Rows that all have words are a title. -/
theorem titleRows_of_hasWords
    {rows : List (List Char)}
    (hAll : ∀ row ∈ rows, hasWords row = true) :
    titleRows rows = rows := by
  have hHead :
      (rows.dropWhile fun row => !hasWords row) = rows := by
    cases rows with
    | nil =>
        rfl
    | cons row rows =>
        apply List.dropWhile_cons_of_neg
        simp [hAll row List.mem_cons_self]
  rw [titleRows, hHead]
  exact List.takeWhile_eq_self_iff.mpr hAll

------------------------------------------------------------
-- Reading a title
------------------------------------------------------------

/- The words of a line are a line of the title. -/
theorem readTitle_words
    {words tail : List Token}
    (hWords : words ≠ [])
    (hLine : ∀ t ∈ words, t.kind ≠ .newline)
    (hTail : ∀ t ∈ tail.head?, t.kind = .newline) :
    readTitle (words ++ tail) =
      (words :: (readTitle tail).1,
        (readTitle tail).2) := by
  cases words with
  | nil =>
      exact absurd rfl hWords
  | cons t words =>
      rw [List.forall_mem_cons] at hLine
      have hOpen : ∀ u ∈ words, (!u.isNewline) = true := by
        intro u hu
        simp [Token.isNewline, hLine.2 u hu]
      have hStop :
          (tail.takeWhile fun u => !u.isNewline) = [] ∧
            (tail.dropWhile fun u => !u.isNewline) = tail := by
        cases tail with
        | nil =>
            exact ⟨rfl, rfl⟩
        | cons u tail =>
            have hEnd : ¬ (!u.isNewline) = true := by
              simp [Token.isNewline, hTail u rfl]
            exact ⟨List.takeWhile_cons_of_neg hEnd,
              List.dropWhile_cons_of_neg hEnd⟩
      rw [List.cons_append, readTitle_cons, if_neg hLine.1,
        List.takeWhile_append_of_pos hOpen,
        List.dropWhile_append_of_pos hOpen, hStop.1,
        hStop.2, List.append_nil]

/- Behind the end of a line, an empty row ends the title. -/
theorem readTitle_end
    {ends : Token}
    {tail : List Token}
    (hEnds : ends.kind = .newline)
    (hTail : ∀ t ∈ tail.head?, t.kind = .newline) :
    (readTitle (ends :: tail)).1 = [] := by
  rw [readTitle_cons, if_pos hEnds]
  cases tail with
  | nil =>
      rw [readTitle]
      rfl
  | cons t tail =>
      have hNext : atNewline (t :: tail) = true :=
        decide_eq_true (hTail t rfl)
      rw [if_pos hNext]

/- The first row of some rows, and what ends it. -/
theorem Rows.exists_row
    {n : Nat}
    {rows : List (List Char)}
    {ts : List Token}
    (hRows : Rows n rows ts) :
    ∃ row rest tail,
      rows = row :: rest ∧ ts = rowTokens n row ++ tail ∧
        ∀ t ∈ tail.head?, t.kind = .newline := by
  cases hRows with
  | @last n row =>
      exact ⟨row, [], [], rfl, (List.append_nil _).symm, nofun⟩
  | @cons n row rows ends ts hEnds _ =>
      refine ⟨row, rows, ends :: ts, rfl, rfl, ?_⟩
      rintro t ⟨⟩
      exact hEnds

/- Words do not start with the end of a line. -/
theorem atNewline_words
    {words : List Token}
    (tail : List Token)
    (hWords : words ≠ [])
    (hLine : ∀ t ∈ words, t.kind ≠ .newline) :
    atNewline (words ++ tail) = false := by
  cases words with
  | nil =>
      exact absurd rfl hWords
  | cons t words =>
      exact decide_eq_false (hLine t List.mem_cons_self)

section Reading

variable {n : Nat}
variable {rows : List (List Char)}
variable {ts : List Token}

/-
  From a row with words on, a title is read up to a row
  without: it has the tidy rows, and if there is no such row,
  nothing is left.
-/
theorem Rows.readTitle_eq
    (hRows : Rows n rows ts)
    (hPlain : ∀ row ∈ rows, '\n' ∉ row)
    (hHead : ∀ row ∈ rows.head?, hasWords row = true) :
    (readTitle ts).1.map titleText =
        (rows.takeWhile hasWords).map rowTitle ∧
      ((∀ row ∈ rows, hasWords row = true) →
        (readTitle ts).2 = []) := by
  induction hRows with
  | @last n row =>
      rw [List.forall_mem_singleton] at hPlain
      have hWords : hasWords row = true := hHead row rfl
      rcases words_of_hasWords n hPlain hWords with
        ⟨hNonempty, hLine⟩
      have hRead : readTitle (rowTokens n row ++ []) = _ :=
        readTitle_words hNonempty hLine nofun
      rw [List.append_nil, readTitle] at hRead
      rw [hRead, List.takeWhile_cons_of_pos hWords,
        List.map_cons, titleText_rowTokens n hPlain]
      exact ⟨rfl, fun _ => rfl⟩
  | @cons n row rows ends ts hEnds hRest ih =>
      rw [List.forall_mem_cons] at hPlain
      have hWords : hasWords row = true := hHead row rfl
      rcases words_of_hasWords n hPlain.1 hWords with
        ⟨hNonempty, hLine⟩
      have hEnds' :
          ∀ t ∈ (ends :: ts).head?, t.kind = .newline := by
        rintro t ⟨⟩
        exact hEnds
      rw [readTitle_words hNonempty hLine hEnds',
        List.takeWhile_cons_of_pos hWords, List.map_cons,
        List.map_cons, titleText_rowTokens n hPlain.1,
        List.forall_mem_cons]
      rcases hRest.exists_row with
        ⟨next, more, tail, rfl, rfl, hTail⟩
      by_cases hNext : hasWords next = true
      · have hNextPlain : '\n' ∉ next :=
          hPlain.2 next List.mem_cons_self
        rcases words_of_hasWords (n + 1) hNextPlain
            hNext with
          ⟨hNonempty', hLine'⟩
        have hHead' :
            ∀ row ∈ (next :: more).head?,
              hasWords row = true := by
          rintro row ⟨⟩
          exact hNext
        rcases ih hPlain.2 hHead' with ⟨hTitle, hAfter⟩
        rw [readTitle_cons, if_pos hEnds,
          atNewline_words tail hNonempty' hLine']
        exact ⟨congrArg _ hTitle, fun hAll => hAfter hAll.2⟩
      · rw [rowTokens_of_not_hasWords _ hNext,
          List.nil_append, readTitle_end hEnds hTail,
          List.takeWhile_cons_of_neg hNext]
        exact ⟨rfl,
          fun hAll =>
            absurd (hAll.2 next List.mem_cons_self) hNext⟩

/-
  Where the first row has words, neither rows
  nor line ends are skipped.
-/
theorem Rows.dropWhile_of_hasWords
    (hRows : Rows n rows ts)
    (hPlain : ∀ row ∈ rows, '\n' ∉ row)
    (hHead : ∀ row ∈ rows.head?, hasWords row = true) :
    (rows.dropWhile fun row => !hasWords row) = rows ∧
      ts.dropWhile Token.isNewline = ts ∧
      ts ≠ [] := by
  rcases hRows.exists_row with ⟨row, rest, tail, rfl, rfl, -⟩
  have hWords : hasWords row = true := hHead row rfl
  rcases words_of_hasWords n (hPlain row List.mem_cons_self)
      hWords with
    ⟨hNonempty, hLine⟩
  refine ⟨List.dropWhile_cons_of_neg (by simp [hWords]), ?_⟩
  cases hTokens : rowTokens n row with
  | nil =>
      exact absurd hTokens hNonempty
  | cons t words =>
      rw [hTokens, List.forall_mem_cons] at hLine
      have hHead : ¬ t.isNewline = true := by
        simp [Token.isNewline, hLine.1]
      exact ⟨List.dropWhile_cons_of_neg hHead,
        List.cons_ne_nil _ _⟩

/-
  Behind the ends of empty lines, there are the tokens from
  the first row with words on.
-/
theorem Rows.dropWhile_rows
    (hRows : Rows n rows ts)
    (hPlain : ∀ row ∈ rows, '\n' ∉ row) :
    (rows.dropWhile fun row => !hasWords row) = [] ∧
        ts.dropWhile Token.isNewline = [] ∨
      ∃ m,
        Rows m (rows.dropWhile fun row => !hasWords row)
          (ts.dropWhile Token.isNewline) := by
  have hHead :
      ∀ {row : List Char} {rest : List (List Char)},
        hasWords row = true →
          ∀ row' ∈ (row :: rest).head?,
            hasWords row' = true := by
    rintro row rest hWords _ ⟨⟩
    exact hWords
  induction hRows with
  | @last n row =>
      by_cases hWords : hasWords row = true
      · rcases Rows.last.dropWhile_of_hasWords hPlain
            (hHead hWords) with
          ⟨hRow, hToken, -⟩
        rw [hRow, hToken]
        exact .inr ⟨n, .last⟩
      · rw [rowTokens_of_not_hasWords n hWords,
          List.dropWhile_cons_of_pos (by simp [hWords])]
        exact .inl ⟨rfl, rfl⟩
  | @cons n row rows ends ts hEnds hRest ih =>
      by_cases hWords : hasWords row = true
      · rcases (hRest.cons hEnds).dropWhile_of_hasWords
          hPlain (hHead hWords) with
          ⟨hRow, hToken, -⟩
        rw [hRow, hToken]
        exact .inr ⟨n, hRest.cons hEnds⟩
      · have hEnd : ends.isNewline = true :=
          decide_eq_true hEnds
        rw [List.forall_mem_cons] at hPlain
        rw [rowTokens_of_not_hasWords n hWords,
          List.nil_append,
          List.dropWhile_cons_of_pos (by simp [hWords]),
          List.dropWhile_cons_of_pos hEnd]
        exact ih hPlain.2

end Reading

/-
  The manuscript of the tokens of some rows: its title is that
  of the first rows with words, and if all rows have words,
  nothing is left for stanzas.
-/
theorem Manuscript.ofBody_rows
    {n : Nat}
    {rows : List (List Char)}
    {ts : List Token}
    (fin : Token)
    (hRows : Rows n rows ts)
    (hPlain : ∀ row ∈ rows, '\n' ∉ row) :
    ∃ title after,
      title.map titleText = (titleRows rows).map rowTitle ∧
        ((∀ row ∈ rows, hasWords row = true) → after = []) ∧
        ofBody fin ts =
          (readStanzas fin after).map (mk title) := by
  rcases hRows.dropWhile_rows hPlain with
    ⟨hNone, hTokens⟩ | ⟨m, hRest⟩
  · refine ⟨[], [], ?_, fun _ => rfl, ?_⟩
    · rw [titleRows, hNone]
      rfl
    · rw [ofBody, hTokens, readStanzas]
      rfl
  · have hHead :
        ∀ row ∈
          (rows.dropWhile fun row => !hasWords row).head?,
          hasWords row = true := by
      intro row hRow
      simpa using not_of_mem_head?_dropWhile hRow
    have hPlain' :
        ∀ row ∈ rows.dropWhile fun row => !hasWords row,
          '\n' ∉ row :=
      fun row hRow =>
        hPlain row ((List.dropWhile_sublist _).mem hRow)
    rcases hRest.readTitle_eq hPlain' hHead with
      ⟨hTitle, hAfter⟩
    rcases hRest.dropWhile_of_hasWords hPlain' hHead with
      ⟨-, -, hNonempty⟩
    cases hTokens : ts.dropWhile Token.isNewline with
    | nil =>
        exact absurd hTokens hNonempty
    | cons t rest =>
        rw [hTokens] at hTitle hAfter
        refine ⟨_, _, hTitle, ?_, ofBody_of_title fin hTokens⟩
        intro hAll
        exact hAfter fun row hRow =>
          hAll row ((List.dropWhile_sublist _).mem hRow)

namespace Score

/-
  The score of a text has the title of its rows; stanzas are
  read off what is left behind it, and nothing is left if all
  rows have words.
-/
theorem parse_rows
    (text : String) :
    ∃ fin after,
      ((∀ row ∈ rowsOf text, hasWords row = true) →
          after = []) ∧
        parse text =
          ((readStanzas fin after).mapError Stop.error).map
            fun stanzas =>
            ⟨(titleRows (rowsOf text)).map rowTitle,
              stanzas.map Block.ofStanza⟩ := by
  have hPlain : ∀ row ∈ rowsOf text, '\n' ∉ row :=
    fun row => not_mem_of_mem_partsBetween
  rcases tokenize_rows text with ⟨ts, fin, hTokens, hFin, hRows⟩
  rcases Manuscript.ofBody_rows fin hRows hPlain with
    ⟨title, after, hTitle, hAfter, hBody⟩
  have hOpen : ∀ t ∈ ts, t.kind ≠ .endOfText := by
    rcases tokenize_eq_append text with
      ⟨body, fin', hTokens', -, hBody⟩
    rw [List.append_inj_left' (hTokens.symm.trans hTokens') rfl]
    exact fun t ht => (hBody t ht).1
  refine ⟨fin, after, hAfter, ?_⟩
  rw [parse, hTokens, ofTokens_append hFin hOpen, hBody,
    Outcome.mapError_map, Outcome.map_map, ← hTitle]
  rfl

/-
  The title is what the rows up to the first empty one say.
-/
theorem title_eq
    {text : String}
    {s : Score}
    (hParse : parse text = .ok s) :
    s.title = (titleRows (rowsOf text)).map rowTitle := by
  rcases parse_rows text with ⟨fin, after, -, hRows⟩
  rcases Outcome.map_eq_ok.mp (hRows.symm.trans hParse) with
    ⟨stanzas, -, rfl⟩
  rfl

/-
  A text whose rows all have words is a
  title, and nothing else.
-/
theorem parse_of_hasWords
    {text : String}
    (hAll : ∀ row ∈ rowsOf text, hasWords row = true) :
    parse text = .ok ⟨(rowsOf text).map rowTitle, []⟩ := by
  rcases parse_rows text with ⟨fin, after, hNone, hRows⟩
  rw [hRows, hNone hAll, readStanzas,
    titleRows_of_hasWords hAll]
  rfl

end Score

------------------------------------------------------------
-- Title lines as a text
------------------------------------------------------------

/- The rows of joined title lines are the tidy rows. -/
theorem rowsOf_joined
    {rows : List (List Char)}
    (hRows : rows ≠ [])
    (hPlain : ∀ row ∈ rows, '\n' ∉ row) :
    rowsOf ("\n".intercalate (rows.map rowTitle)) =
      rows.map tidyLine := by
  have hText :
      ("\n".intercalate (rows.map rowTitle)).toList =
        List.intercalate ['\n'] (rows.map tidyLine) := by
    rw [String.toList_intercalate, List.map_map]
    have hLines : String.toList ∘ rowTitle = tidyLine :=
      funext fun row => String.toList_ofList
    rw [hLines]
    rfl
  have hReturn :
      '\r' ∉
        List.intercalate ['\n'] (rows.map tidyLine) := by
    rcases List.exists_cons_of_ne_nil hRows with
      ⟨row, rows, rfl⟩
    rw [List.forall_mem_cons] at hPlain
    rw [List.map_cons, intercalate_cons_eq, List.mem_append,
      List.mem_flatMap]
    rintro (hFirst | ⟨line, hLine, hMember⟩)
    · exact (tidyLine_plain hPlain.1).2 hFirst
    · rcases List.mem_map.mp hLine with ⟨next, hNext, rfl⟩
      rcases List.mem_cons.mp hMember with hEnd | hMember
      · cases hEnd
      · exact (tidyLine_plain (hPlain.2 next hNext)).2 hMember
  rw [rowsOf, hText, joinPairs_of_no_return hReturn,
    partsBetween_intercalate]
  · exact mt List.map_eq_nil_iff.mp hRows
  · exact List.forall_mem_map.mpr fun row hRow =>
      (tidyLine_plain (hPlain row hRow)).1

/- Tidying neither makes words nor takes them away. -/
theorem hasWords_tidyLine
    {row : List Char}
    (hRow : '\n' ∉ row) :
    hasWords (tidyLine row) = hasWords row := by
  rw [Bool.eq_iff_iff, hasWords_iff 1, hasWords_iff 1]
  exact not_congr (sameWords_tidyLine 1 0 hRow).eq_nil_iff

/- Tidy rows are tidy. -/
theorem rowTitle_tidyLine
    {row : List Char}
    (hRow : '\n' ∉ row) :
    rowTitle (tidyLine row) = rowTitle row := by
  rw [rowTitle, rowTitle, ← titleText_rowTokens 1 hRow,
    ← titleText_rowTokens 1 (tidyLine_plain hRow).1]
  exact (titleText_eq (rowTokens_tidyLine_alike 1 hRow)
    (plain_rowTokens 1 hRow)).symm

/- A line of a title has the tokens of the tidy row. -/
theorem tokenize_rowTitle
    {row : List Char}
    (hRow : '\n' ∉ row) :
    ∃ fin,
      tokenize (rowTitle row) =
          rowTokens 1 (tidyLine row) ++ [fin] ∧
        fin.kind = .endOfText := by
  have hTidy := tidyLine_plain hRow
  have hText :
      Unread.ofText (rowTitle row) =
        ⟨1, 1, tidyLine row⟩ := by
    rw [Unread.ofText, rowTitle, String.toList_ofList,
      joinPairs_of_no_return hTidy.2]
  rw [tokenize, hText]
  exact (Unread.tokens_row 1 hTidy.1).2.1

/-
  The title lines of rows with words are a text with these
  lines and nothing else.
-/
theorem Score.parse_joined
    {rows : List (List Char)}
    (hPlain : ∀ row ∈ rows, '\n' ∉ row)
    (hWords : ∀ row ∈ rows, hasWords row = true) :
    parse ("\n".intercalate (rows.map rowTitle)) =
      .ok ⟨rows.map rowTitle, []⟩ := by
  by_cases hNone : rows = []
  · rw [hNone]
    decide +kernel
  · have hRows := rowsOf_joined hNone hPlain
    have hAll :
        ∀ row ∈ rowsOf
          ("\n".intercalate (rows.map rowTitle)),
          hasWords row = true := by
      rw [hRows, List.forall_mem_map]
      intro row hRow
      rw [hasWords_tidyLine (hPlain row hRow), hWords row hRow]
    have hLines :
        (rows.map tidyLine).map rowTitle =
          rows.map rowTitle := by
      rw [List.map_map]
      exact List.map_congr_left fun row hRow =>
        rowTitle_tidyLine (hPlain row hRow)
    rw [parse_of_hasWords hAll, hRows, hLines]

------------------------------------------------------------
-- Lines of a title and lines of a text
------------------------------------------------------------

/-
  A title is built from the lines of a text from the line
  `first` on: the first lines with words, up to one without.
-/
structure BuiltFrom
    (text : String)
    (title : List String)
    (first : Nat) : Prop where
  before : ∀ n < first, wordsOn n (tokenize text) = []
  built : ∀ (k : Nat) (line : String), title[k]? = some line →
    wordsOn (first + k) (tokenize text) ≠ [] ∧
      line = titleText (wordsOn (first + k) (tokenize text))
  behind : wordsOn (first + title.length) (tokenize text) = []

/- On the line of a row are its tokens. -/
theorem wordsOn_of_row
    {text : String}
    {i : Nat}
    {row : List Char}
    (hRow : (rowsOf text)[i]? = some row) :
    wordsOn (1 + i) (tokenize text) =
      rowTokens (1 + i) row := by
  rw [(wordsOn_tokenize text).2 i, hRow]
  rfl

/- Where no row has words, there are none. -/
theorem wordsOn_eq_nil
    {text : String}
    {i : Nat}
    (hRow : ∀ row ∈ (rowsOf text)[i]?, ¬ hasWords row = true) :
    wordsOn (1 + i) (tokenize text) = [] := by
  rw [(wordsOn_tokenize text).2 i]
  cases hAt : (rowsOf text)[i]? with
  | none =>
      rfl
  | some row =>
      exact rowTokens_of_not_hasWords _ (hRow row hAt)

/-
  The rows before a title, those of the
  title, and those behind it.
-/
theorem exists_titleRows
    (rows : List (List Char)) :
    ∃ before behind,
      rows = before ++ (titleRows rows ++ behind) ∧
        (∀ row ∈ before, ¬ hasWords row = true) ∧
        ∀ row ∈ behind.head?, ¬ hasWords row = true := by
  refine ⟨rows.takeWhile fun row => !hasWords row,
    (rows.dropWhile fun row => !hasWords row).dropWhile
      hasWords, ?_, ?_, ?_⟩
  · rw [titleRows, List.takeWhile_append_dropWhile,
      List.takeWhile_append_dropWhile]
  · intro row hRow
    simpa using List.mem_takeWhile_imp hRow
  · intro row hRow
    simpa using not_of_mem_head?_dropWhile hRow

/-
  The words of a title row are those on its line, below the
  rows before the title.
-/
theorem wordsOn_of_titleRow
    {text : String}
    {before behind : List (List Char)}
    (hRows :
      rowsOf text =
        before ++ (titleRows (rowsOf text) ++ behind))
    {k : Nat}
    {row : List Char}
    (hRow : (titleRows (rowsOf text))[k]? = some row) :
    wordsOn (1 + before.length + k) (tokenize text) =
      rowTokens (1 + (before.length + k)) row := by
  have hInside : k < (titleRows (rowsOf text)).length :=
    (List.getElem?_eq_some_iff.mp hRow).1
  have hAt : (rowsOf text)[before.length + k]? = some row := by
    rw [hRows,
      List.getElem?_append_right (Nat.le_add_right _ _),
      Nat.add_sub_cancel_left,
      List.getElem?_append_left hInside, hRow]
  rw [Nat.add_assoc, wordsOn_of_row hAt]

/-
  The rows of a title stand one below the other on the lines
  that it is built from, which have the words of the tidy rows.
-/
theorem builtFrom_titleRows
    (text : String) :
    ∃ first,
      BuiltFrom text
          ((titleRows (rowsOf text)).map rowTitle) first ∧
        ∀ (k : Nat) (row : List Char),
          (titleRows (rowsOf text))[k]? = some row →
            Token.SameWords (rowTokens 1 (tidyLine row))
              (wordsOn (first + k) (tokenize text)) := by
  rcases exists_titleRows (rowsOf text) with
    ⟨before, behind, hRows, hBefore, hBehind⟩
  have hTitle :
      ∀ (k : Nat) (row : List Char),
        (titleRows (rowsOf text))[k]? = some row →
          '\n' ∉ row ∧ hasWords row = true := by
    intro k row hRow
    have hMember := mem_titleRows (List.mem_of_getElem? hRow)
    exact ⟨not_mem_of_mem_partsBetween hMember.1, hMember.2⟩
  refine ⟨1 + before.length, ⟨?_, ?_, ?_⟩, ?_⟩
  · intro n hn
    cases n with
    | zero =>
        exact (wordsOn_tokenize text).1
    | succ i =>
        rw [Nat.add_comm i 1]
        apply wordsOn_eq_nil
        intro row hRow
        rw [hRows, List.getElem?_append_left (by omega)] at hRow
        exact hBefore row (List.mem_of_getElem? hRow)
  · intro k line hLine
    rw [List.getElem?_map, Option.map_eq_some_iff] at hLine
    rcases hLine with ⟨row, hRow, rfl⟩
    rcases hTitle k row hRow with ⟨hPlain, hWords⟩
    rw [wordsOn_of_titleRow hRows hRow,
      titleText_rowTokens _ hPlain]
    exact ⟨(hasWords_iff _ row).mp hWords, rfl⟩
  · rw [List.length_map, Nat.add_assoc]
    apply wordsOn_eq_nil
    rw [hRows,
      List.getElem?_append_right (Nat.le_add_right _ _),
      Nat.add_sub_cancel_left, ← hRows,
      List.getElem?_append_right (Nat.le_refl _),
      Nat.sub_self, ← List.head?_eq_getElem?]
    exact hBehind
  · intro k row hRow
    rw [wordsOn_of_titleRow hRows hRow]
    exact sameWords_tidyLine 1 _ (hTitle k row hRow).1

/-
  Titles are texts with the same words.  The lines of a title,
  joined by line feeds, are a text with this title and no
  blocks; and a line of the title has, up to the closing one,
  tokens of the kinds, with the texts and with the gaps of
  those on the line that it was built from.
-/
theorem Score.title_round_trip
    {text : String}
    {s : Score}
    (hParse : parse text = .ok s) :
    parse ("\n".intercalate s.title) = .ok ⟨s.title, []⟩ ∧
      ∃ first : Nat,
        BuiltFrom text s.title first ∧
          ∀ (k : Nat) (line : String),
            s.title[k]? = some line →
              ∃ ts fin,
                tokenize line = ts ++ [fin] ∧
                  fin.kind = .endOfText ∧
                  Token.SameWords ts
                    (wordsOn (first + k)
                      (tokenize text)) := by
  have hPlain :
      ∀ row ∈ titleRows (rowsOf text), '\n' ∉ row :=
    fun row hRow =>
    not_mem_of_mem_partsBetween (mem_titleRows hRow).1
  rcases builtFrom_titleRows text with ⟨first, hBuilt, hSame⟩
  rw [title_eq hParse]
  refine ⟨?_, first, hBuilt, ?_⟩
  · exact parse_joined hPlain fun row hRow =>
      (mem_titleRows hRow).2
  · intro k line hLine
    rw [List.getElem?_map, Option.map_eq_some_iff] at hLine
    rcases hLine with ⟨row, hRow, rfl⟩
    rcases tokenize_rowTitle
        (hPlain row (List.mem_of_getElem? hRow)) with
      ⟨fin, hTokens, hFin⟩
    exact ⟨_, fin, hTokens, hFin, hSame k row hRow⟩

/-
  A title with signs that touch and signs that do not, digits
  in words, and a stray carriage return.
-/
def inscribed : String :=
  "\r\n  Op.12b  ##&# #\t%é\r\nin 4/4\rtime\n \t\nla|\nc|\n"

/- Its title is read again as it is. -/
theorem inscribed_title_round_trip :
    ∃ s,
      Score.parse inscribed = .ok s ∧
        s.title = ["Op.12b ##&# # %é", "in 4/4 time"] ∧
        s.blocks ≠ [] ∧
        Score.parse ("\n".intercalate s.title) =
          .ok ⟨s.title, []⟩ ∧
        ∃ first : Nat,
          BuiltFrom inscribed s.title first ∧
            ∀ (k : Nat) (line : String),
              s.title[k]? = some line →
                ∃ ts fin,
                  tokenize line = ts ++ [fin] ∧
                    fin.kind = .endOfText ∧
                    Token.SameWords ts
                      (wordsOn (first + k)
                        (tokenize inscribed)) := by
  have hOk : (Score.parse inscribed).isOk = true := by
    decide +kernel
  rcases Outcome.exists_eq_ok hOk with ⟨s, hParse⟩
  have hTitle :
      (Score.parse inscribed).map Score.title =
        .ok ["Op.12b ##&# # %é", "in 4/4 time"] := by
    decide +kernel
  have hBlocks :
      (Score.parse inscribed).map (fun s =>
          s.blocks.length) =
        .ok 1 := by
    decide +kernel
  rw [hParse, Outcome.map_ok, Except.ok.injEq] at hTitle hBlocks
  have hBlocks : s.blocks ≠ [] := by
    rw [← List.length_pos_iff, hBlocks]
    exact Nat.zero_lt_one
  exact ⟨s, hParse, hTitle, hBlocks,
    Score.title_round_trip hParse⟩

end LyricScore
