import LyricScore.Proofs.Cli
import LyricScore.Proofs.Token.Spacing
import LyricScore.Tools

/-
  This file compares a score file with the text in it.  A file
  is read with a line feed for every line end, and a score
  takes a carriage return that stands alone for a blank.  So a
  file compiles as its text if no carriage return stands
  alone, and else as the text with line feeds for them.

  Key definitions include:
    * `LineBreak.InPairs`
    * `LineBreak.lineFeeds`
    * `Cli.Wrote`

  Key theorems include:
    * `LineBreak.universal_eq_map`
    * `Utf8.readFile?_encode`
    * `tokenize_lineFeeds`
    * `Cli.wrote_run`
    * `Cli.file_compiles_as_text`
-/

namespace LyricScore

------------------------------------------------------------
-- Line ends
------------------------------------------------------------

namespace LineBreak

/- Every carriage return stands before a line feed. -/
def InPairs
    (cs : List Char) : Prop :=
  ∀ before after,
    cs = before ++ '\r' :: after → after.head? = some '\n'

/- A text with a line feed for every line end. -/
def lineFeeds
    (text : String) : String :=
  String.ofList (universal text.toList)

/- A line feed for a carriage return. -/
def lineFeed
    (c : Char) : Char :=
  if c = '\r' then '\n' else c

/-
  What is left of carriage returns behind joining pairs
  becomes line feeds.
-/
theorem universal_eq_map
    (cs : List Char) :
    universal cs = (joinPairs cs).map lineFeed := by
  fun_induction joinPairs cs with
  | case1 =>
      rfl
  | case2 c =>
      by_cases hReturn : c = '\r' <;>
        simp [universal, lineFeed, hReturn]
  | case3 c d rest hPair ih =>
      rw [universal, if_pos hPair, ih, List.map_cons]
      rfl
  | case4 c d rest hPair ih =>
      rw [universal, if_neg hPair, ih, List.map_cons, lineFeed]
      split <;> rfl

/-
  No carriage return is left where line ends are universal.
-/
theorem return_not_mem_universal
    (cs : List Char) :
    '\r' ∉ universal cs := by
  rw [universal_eq_map, List.mem_map]
  rintro ⟨c, -, hReturn⟩
  unfold lineFeed at hReturn
  split at hReturn
  · cases hReturn
  · contradiction

theorem inPairs_nil :
    InPairs [] := by
  intro before after hSplit
  cases before <;> cases hSplit

/-
  In pairs, each carriage return stands before a line feed.
-/
theorem inPairs_cons
    {c : Char}
    {cs : List Char} :
    InPairs (c :: cs) ↔
      (c = '\r' → cs.head? = some '\n') ∧ InPairs cs := by
  constructor
  · intro hPairs
    refine ⟨?_, ?_⟩
    · rintro rfl
      exact hPairs [] cs rfl
    · rintro before after rfl
      exact hPairs (c :: before) after rfl
  · rintro ⟨hHead, hPairs⟩ before after hSplit
    cases before with
    | nil =>
        rcases List.cons.inj hSplit with ⟨rfl, rfl⟩
        exact hHead rfl
    | cons d before =>
        exact hPairs before after (List.cons.inj hSplit).2

/-
  No carriage return stands alone just if
  joining pairs leaves none.
-/
theorem inPairs_iff
    {cs : List Char} :
    InPairs cs ↔ '\r' ∉ joinPairs cs := by
  fun_induction joinPairs cs with
  | case1 =>
      simp [inPairs_nil]
  | case2 c =>
      simp [inPairs_cons, inPairs_nil, eq_comm]
  | case3 c d rest hPair ih =>
      rw [inPairs_cons, inPairs_cons, ih, hPair.2]
      simp
  | case4 c d rest hPair ih =>
      have hAlone :
          (c = '\r' → (d :: rest).head? = some '\n') ↔
            '\r' ≠ c := by
        simp only [List.head?_cons, Option.some.injEq]
        exact ⟨fun hNext hReturn =>
            hPair ⟨hReturn.symm, hNext hReturn.symm⟩,
          fun hOther hReturn => absurd hReturn.symm hOther⟩
      rw [inPairs_cons, ih, hAlone, List.mem_cons, not_or]

instance
    (cs : List Char) :
    Decidable (InPairs cs) :=
  decidable_of_iff _ inPairs_iff.symm

/- In pairs, universal line ends are joined pairs. -/
theorem InPairs.universal_eq
    {cs : List Char}
    (hPairs : InPairs cs) :
    universal cs = joinPairs cs := by
  have hKept : ∀ c ∈ joinPairs cs, lineFeed c = id c := by
    intro c hMem
    rw [lineFeed, if_neg, id_eq]
    rintro rfl
    exact inPairs_iff.mp hPairs hMem
  rw [universal_eq_map, List.map_congr_left hKept, List.map_id]

end LineBreak

------------------------------------------------------------
-- Texts of files
------------------------------------------------------------

namespace Utf8

/- What a text is encoded to is decoded to the text. -/
theorem decode?_encode
    (text : String) :
    decode? (encode text) = some text := by
  have hBytes :
      (⟨(encode text).toArray⟩ : ByteArray) =
        text.toUTF8 := by
    simp [encode]
  have hValid : text.toUTF8.IsValidUTF8 := text.isValidUTF8
  rw [decode?, hBytes, String.fromUTF8?, dif_pos hValid]
  rfl

/-
  A text is read from its file with line
  feeds for its line ends.
-/
theorem readFile?_encode
    (text : String) :
    readFile? (encode text) =
      some (LineBreak.lineFeeds text) := by
  rw [readFile?, decode?_encode]
  rfl

end Utf8

/-
  Line feeds for line ends change no token, if no carriage
  return stands alone.
-/
theorem tokenize_lineFeeds
    {text : String}
    (hPairs : LineBreak.InPairs text.toList) :
    tokenize (LineBreak.lineFeeds text) = tokenize text := by
  have hJoined :
      LineBreak.joinPairs (LineBreak.lineFeeds text).toList =
        LineBreak.joinPairs text.toList := by
    rw [LineBreak.lineFeeds, String.toList_ofList,
      Spacing.joinPairs_of_no_return
        (LineBreak.return_not_mem_universal _),
      hPairs.universal_eq]
  rw [tokenize, Unread.ofText, hJoined]
  rfl

/-
  Texts whose line ends are in pairs compile as
  they do with line feeds.
-/
theorem compile_lineFeeds
    {text : String}
    (s : Settings)
    (hPairs : LineBreak.InPairs text.toList) :
    compile s (LineBreak.lineFeeds text) = compile s text := by
  rw [compile, Score.parse, tokenize_lineFeeds hPairs]
  rfl

------------------------------------------------------------
-- Tools
------------------------------------------------------------

/-
  The tool reports the file of a text, if the count of its
  ticks can be written.
-/
theorem Tool.report_of_compiles
    {s : Settings}
    {text : String}
    {c : Compilation}
    (hCompiled : compile s text = .ok c)
    (name : String) :
    ((∃ r, report s name text = .ok r) ↔
        Numeral.Writable c.beatMap.totalTicks) ∧
      ∀ r,
        report s name text = .ok r → r.file = c.midi := by
  rw [report, hCompiled, Outcome.ok_bind]
  by_cases hWritable : Numeral.Writable c.beatMap.totalTicks
  · rw [if_neg (not_not_intro hWritable)]
    refine ⟨⟨fun _ => hWritable, fun _ => ⟨_, rfl⟩⟩, ?_⟩
    intro r hReport
    cases hReport
    rfl
  · rw [if_pos hWritable]
    refine ⟨⟨?_, fun hCan => absurd hCan hWritable⟩, ?_⟩
    · rintro ⟨r, hReport⟩
      cases hReport
    · intro r hReport
      cases hReport

------------------------------------------------------------
-- Command lines
------------------------------------------------------------

namespace Cli

/-
  The end of a program that wrote the music of a compilation
  to an output: it is zero, if the count of ticks is not too
  long to be reported.
-/
structure Wrote
    (f : Folder)
    (output : Path)
    (c : Compilation)
    (ending : Outcome × Folder) : Prop where
  wrote : f.Wrote output c.midi ending.2
  found :
    ¬ output.IsAbsolute →
      ".." ∉ output.names →
      ending.2.look output = .file c.midi
  exit :
    ending.1.exit =
      if Numeral.Writable c.beatMap.totalTicks then .code 0
      else .trouble (.failure (.numeral .tooLongToWrite))

section Runs

variable {format : SettingsFormat}
variable {args : List String}
variable {o : Options}
variable {source output : Path}
variable {f : Folder}
variable {s : Settings}
variable {text : String}

/-
  A job writes to the output that is given,
  or beside its source.
-/
theorem ofOptions_of_output
    (hOutput :
      o.output.or (source.withSuffix? ".mid") =
        some output) :
    Job.ofOptions source o =
      .ok ⟨source, output, o.config⟩ := by
  unfold Job.ofOptions
  cases hGiven : o.output with
  | some given =>
      rw [hGiven] at hOutput
      cases hOutput
      rfl
  | none =>
      rw [hGiven, Option.none_or] at hOutput
      simp only [hOutput]

/-
  A file with a text is compiled as the text with line feeds
  for its line ends.
-/
theorem wrote_run
    {c : Compilation}
    (hOptions : Options.read args = .ok o)
    (hCompile : o.compile = some source)
    (hOutput :
      o.output.or (source.withSuffix? ".mid") = some output)
    (hSettings : Job.HasSettings format f.look o.config s)
    (hSource : f.look source = .file (Utf8.encode text))
    (hWritable : ∀ bytes, ∃ g, f.write output bytes = .ok g)
    (hCompiled :
      LyricScore.compile s (LineBreak.lineFeeds text) =
        .ok c) :
    Wrote f output c (run format args f) := by
  have hRun :
      run format args f =
        (⟨source, output, o.config⟩ : Job).perform format
          f := by
    simp only [run, hOptions, runOptions, hCompile,
      ofOptions_of_output hOutput]
  have hText :
      Job.HasText f.look source
        (LineBreak.lineFeeds text) :=
    ⟨_, hSource, Utf8.readFile?_encode text⟩
  have hMakes :
      (⟨source, output, o.config⟩ : Job).Makes format f.look
        s (LineBreak.lineFeeds text) c :=
    ⟨hSettings, hText, hCompiled⟩
  rcases hWritable c.midi with ⟨g, hWrite⟩
  rcases Job.perform_of_makes hMakes hWrite with
    ⟨hFolder, hExit⟩
  rw [← hFolder] at hWrite
  rw [hRun]
  exact ⟨Folder.wrote_of_write hWrite,
    fun hRelative hStraight =>
      Folder.look_of_write hRelative hStraight hWrite,
    hExit⟩

end Runs

/-
  What a file with a text leaves when it is compiled from a
  command line to an output that can be written.  Whatever the
  line ends of the text are, the file is compiled as the text
  with line feeds for them.  If no carriage return stands
  alone, that is what the text itself is compiled to: the
  output holds its music, which is what the tool reports too,
  and the program ends with zero just if the tool reports,
  that is, if the count of ticks is not too long to be written.
-/
theorem file_compiles_as_text
    {format : SettingsFormat}
    {args : List String}
    {o : Options}
    {source output : Path}
    {f : Folder}
    {s : Settings}
    {text : String}
    (hOptions : Options.read args = .ok o)
    (hCompile : o.compile = some source)
    (hOutput :
      o.output.or (source.withSuffix? ".mid") = some output)
    (hSettings : Job.HasSettings format f.look o.config s)
    (hSource : f.look source = .file (Utf8.encode text))
    (hWritable : ∀ bytes, ∃ g, f.write output bytes = .ok g) :
    (∀ c,
        LyricScore.compile s (LineBreak.lineFeeds text) =
            .ok c →
          Wrote f output c (run format args f)) ∧
      (LineBreak.InPairs text.toList →
        ∀ c,
          LyricScore.compile s text = .ok c →
            Wrote f output c (run format args f) ∧
              ∀ name,
                ((run format args f).1.exit = .code 0 ↔
                    ∃ r,
                      Tool.report s name text = .ok r) ∧
                  ((∃ r,
                      Tool.report s name text = .ok r) ↔
                    Numeral.Writable
                      c.beatMap.totalTicks) ∧
                  ∀ r,
                    Tool.report s name text = .ok r →
                      r.file = c.midi) := by
  have hRun {c : Compilation}
    (hCompiled :
      LyricScore.compile s (LineBreak.lineFeeds text) =
        .ok c) :
      Wrote f output c (run format args f) :=
    wrote_run hOptions hCompile hOutput hSettings hSource
      hWritable hCompiled
  refine ⟨fun c => hRun, ?_⟩
  intro hPairs c hCompiled
  have hWrote :=
    hRun ((compile_lineFeeds s hPairs).trans hCompiled)
  refine ⟨hWrote, ?_⟩
  intro name
  rcases Tool.report_of_compiles hCompiled name with
    ⟨hReports, hFile⟩
  refine ⟨?_, hReports, hFile⟩
  rw [hReports, hWrote.exit]
  split <;> simp [*]

/-
  A folder with two scores: one whose lines end with carriage
  returns and line feeds, and one with a carriage return
  alone where the other ends its lyrics.
-/
def shelf : Folder where
  files := [
    (["pairs.fqs"], Utf8.encode "T\r\n\r\nla|\r\nc|\r\n"),
    (["alone.fqs"], Utf8.encode "T\n\nla|\rc|\n")]

/-
  The first score sounds its pitch either way.  The second is
  one line of lyrics and sounds nothing; its file has two lines,
  and sounds what the first score does.
-/
theorem shelf_compiles_as_text :
    ∃ c,
      LyricScore.compile {} "T\r\n\r\nla|\r\nc|\r\n" =
          .ok c ∧
        (run Yaml.settings ["--compile", "pairs.fqs"]
            shelf).2.look (.ofText "pairs.mid") =
          .file c.midi ∧
        (run Yaml.settings ["--compile", "pairs.fqs"]
            shelf).1.exit =
          .code 0 ∧
        (run Yaml.settings ["--compile", "alone.fqs"]
            shelf).2.look (.ofText "alone.mid") =
          .file c.midi ∧
        ∃ d,
          LyricScore.compile {} "T\n\nla|\rc|\n" = .ok d ∧
            d.midi ≠ c.midi := by
  have hPairsOptions :
      Options.read ["--compile", "pairs.fqs"] =
        .ok { compile := some (.ofText "pairs.fqs") } := by
    decide +kernel
  have hAloneOptions :
      Options.read ["--compile", "alone.fqs"] =
        .ok { compile := some (.ofText "alone.fqs") } := by
    decide +kernel
  have hMusic :
      (LyricScore.compile {} "T\n\nla|\nc|\n").map
          (fun c => (c.midi.length, c.beatMap.totalTicks)) =
        .ok (44, 480) := by
    decide +kernel
  have hSilence :
      (LyricScore.compile {} "T\n\nla|\rc|\n").map (fun d =>
          d.midi.length) =
        .ok 36 := by
    decide +kernel
  rcases Outcome.map_eq_ok.mp hMusic with ⟨c, hCompiled, hMidi⟩
  rcases Outcome.map_eq_ok.mp hSilence with ⟨d, hSilent, hShort⟩
  have hFed :
      LineBreak.lineFeeds "T\r\n\r\nla|\r\nc|\r\n" =
          "T\n\nla|\nc|\n" ∧
        LineBreak.lineFeeds "T\n\nla|\rc|\n" =
          "T\n\nla|\nc|\n" := by
    decide +kernel
  have hInPairs :
      LineBreak.InPairs
        "T\r\n\r\nla|\r\nc|\r\n".toList := by
    decide +kernel
  have hText :
      LyricScore.compile {} "T\r\n\r\nla|\r\nc|\r\n" =
        .ok c := by
    rw [← compile_lineFeeds {} hInPairs, hFed.1, hCompiled]
  have hWritable (name : String)
      (hName : name = "pairs.mid" ∨ name = "alone.mid") :
      ∀ bytes,
        ∃ g, shelf.write (.ofText name) bytes = .ok g := by
    intro bytes
    rcases hName with rfl | rfl <;> exact ⟨_, rfl⟩
  have hPairsOutput :
      (none : Option Path).or
          ((Path.ofText "pairs.fqs").withSuffix? ".mid") =
        some (.ofText "pairs.mid") := by
    decide +kernel
  have hAloneOutput :
      (none : Option Path).or
          ((Path.ofText "alone.fqs").withSuffix? ".mid") =
        some (.ofText "alone.mid") := by
    decide +kernel
  have hPairsSource :
      shelf.look (.ofText "pairs.fqs") =
        .file (Utf8.encode "T\r\n\r\nla|\r\nc|\r\n") := by
    decide +kernel
  have hAloneSource :
      shelf.look (.ofText "alone.fqs") =
        .file (Utf8.encode "T\n\nla|\rc|\n") := by
    decide +kernel
  rcases file_compiles_as_text hPairsOptions rfl
    hPairsOutput .unnamed hPairsSource
    (hWritable _ (.inl rfl)) with
    ⟨-, hPairs⟩
  rcases file_compiles_as_text hAloneOptions rfl
    hAloneOutput .unnamed hAloneSource
    (hWritable _ (.inr rfl)) with
    ⟨hAlone, -⟩
  rw [Prod.mk.injEq] at hMidi
  have hWrote := (hPairs hInPairs c hText).1
  have hExit := hWrote.exit
  rw [hMidi.2, if_pos (by decide +kernel)] at hExit
  refine ⟨c, hText,
    hWrote.found (by decide +kernel) (by decide +kernel),
    hExit,
    (hAlone c (by rw [hFed.2, hCompiled])).found
      (by decide +kernel) (by decide +kernel), d, hSilent,
    ?_⟩
  intro hSame
  rw [hSame, hMidi.1] at hShort
  cases hShort

end Cli

end LyricScore
