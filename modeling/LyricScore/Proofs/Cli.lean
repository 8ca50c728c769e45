import Mathlib.Data.List.Basic
import LyricScore.Cli.Run
import LyricScore.Proofs.Files.Folder
import LyricScore.Yaml.Format

/-
  This file tells what compiling from a command line leaves in
  a folder.  A job fails before it writes or it does not fail:
  all ways to fail lie in its settings, its source and its
  text.  A job that failed leaves the folder as it was, and a
  job that did not writes one file.  The format of settings
  files is any: nothing is assumed of it.

  Key definitions include:
    * `Trouble.exit`
    * `Job.HasText`, `Job.LacksText`
    * `Job.HasSettings`, `Job.LacksSettings`
    * `Job.Makes`, `Job.Fails`

  Key theorems include:
    * `Job.compile_eq_ok_iff`, `Job.compile_eq_error_iff`
    * `Job.perform_of_fails`
    * `Job.perform_of_makes`
    * `Cli.compile_writes_one_file_or_none`
-/

namespace LyricScore

------------------------------------------------------------
-- Ends of a program
------------------------------------------------------------

/-
  How a program ends by a trouble: with one for a settings
  file that is not accepted, a file that cannot be used and a
  text that is no score, and else by the trouble itself.
-/
def Trouble.exit : Trouble → Exit
  | settings _ _ | file _
  | failure (.score (.missing _ _)) => .code 1
  | t => .trouble t

/- A trouble that is reported ends the program with one. -/
theorem Trouble.exit_eq
    (t : Trouble) :
    t.exit = if t.IsReported then .code 1 else .trouble t := by
  cases t with
  | failure e =>
      cases e with
      | score e =>
          cases e <;> rfl
      | _ =>
          rfl
  | _ =>
      rfl

/-
  The outcome of a job that failed ends as its trouble does.
-/
theorem Outcome.exit_ofTrouble
    (j : Job)
    (remarks : List String)
    (t : Trouble) :
    (Outcome.ofTrouble j remarks t).exit = t.exit := by
  rw [Trouble.exit_eq, Outcome.ofTrouble]
  by_cases hReported : t.IsReported
  · rw [if_pos hReported, if_pos hReported]
  · rw [if_neg hReported, if_neg hReported]

/- Only a count of ticks that can be written is reported. -/
theorem Outcome.exit_ofCompilation
    (j : Job)
    (remarks : List String)
    (c : Compilation) :
    (Outcome.ofCompilation j remarks c).exit =
      if Numeral.Writable c.beatMap.totalTicks then .code 0
      else
        .trouble (.failure (.numeral .tooLongToWrite)) := by
  unfold Outcome.ofCompilation Job.successReport
  by_cases hWritable : Numeral.Writable c.beatMap.totalTicks
  · rw [if_pos hWritable, if_pos hWritable]
  · rw [if_neg hWritable, if_neg hWritable]

------------------------------------------------------------
-- Texts of files
------------------------------------------------------------

namespace Job

/- A path leads to a file with a text. -/
def HasText
    (look : Path → Entry)
    (path : Path)
    (text : String) : Prop :=
  ∃ bytes,
    look path = .file bytes ∧
      Utf8.readFile? bytes = some text

/-
  A path leads to no text: it leads to no file, or the bytes
  of the file are no text.
-/
inductive LacksText
    (look : Path → Entry)
    (path : Path) : Trouble → Prop where
  | unreadable {e}
      (hRead : (look path).read path = .error e) :
      LacksText look path (.file e)
  | notText {bytes}
      (hRead : look path = .file bytes)
      (hText : Utf8.readFile? bytes = none) :
      LacksText look path .notText

section Texts

variable {look : Path → Entry}
variable {path : Path}

/- What is read from a path is the text it leads to. -/
theorem readText_eq_ok_iff
    {text : String} :
    readText look path = .ok text ↔ HasText look path text := by
  unfold readText HasText
  cases hEntry : look path with
  | file bytes =>
      cases hText : Utf8.readFile? bytes <;>
        simp [Entry.read, hText]
  | _ =>
      simp [Entry.read]

/-
  Nothing is read just if the path leads to no text, for the
  same trouble.
-/
theorem readText_eq_error_iff
    {t : Trouble} :
    readText look path = .error t ↔ LacksText look path t := by
  constructor
  · intro hFailed
    unfold readText at hFailed
    cases hRead : (look path).read path with
    | error e =>
        rw [hRead] at hFailed
        cases hFailed
        exact .unreadable hRead
    | ok bytes =>
        have hEntry : look path = .file bytes := by
          cases hEntry : look path <;>
            rw [hEntry] at hRead <;> cases hRead
          rfl
        cases hText : Utf8.readFile? bytes with
        | some text =>
            simp [hRead, hText] at hFailed
        | none =>
            simp only [hRead, hText, Outcome.mapError_ok,
              Outcome.ok_bind] at hFailed
            cases hFailed
            exact .notText hEntry hText
  · intro hLacks
    cases hLacks with
    | unreadable hRead =>
        rw [readText, hRead]
        rfl
    | notText hRead hText =>
        simp only [readText, hRead, Entry.read,
          Outcome.mapError_ok, Outcome.ok_bind, hText]
        rfl

end Texts

------------------------------------------------------------
-- Settings
------------------------------------------------------------

/-
  The settings that hold: the defaults if no file is named or
  none is there, and else those that the data in it give.
-/
inductive HasSettings
    (format : SettingsFormat)
    (look : Path → Entry) :
    Option Path → Settings → Prop where
  | unnamed : HasSettings format look none {}
  | absent {path}
      (hAbsent : ¬ (look path).IsPresent) :
      HasSettings format look (some path) {}
  | loaded {path bytes content s}
      (hFile : look path = .file bytes)
      (hRead : format.read bytes = .ok content)
      (hContent :
        Settings.ofContent format.toCoercion content =
          .ok s) :
      HasSettings format look (some path) s

/-
  No settings hold: what is there is no file, no data are read
  from it, or they are not accepted.
-/
inductive LacksSettings
    (format : SettingsFormat)
    (look : Path → Entry) :
    Option Path → Trouble → Prop where
  | unreadable {path e}
      (hPresent : (look path).IsPresent)
      (hEntry : (look path).read path = .error e) :
      LacksSettings format look (some path) (.file e)
  | faulty {path bytes fault}
      (hFile : look path = .file bytes)
      (hRead : format.read bytes = .error fault) :
      LacksSettings format look (some path)
        (.ofLoadError path fault.toLoadError)
  | rejected {path bytes content e}
      (hFile : look path = .file bytes)
      (hRead : format.read bytes = .ok content)
      (hContent :
        Settings.ofContent format.toCoercion content =
          .error e) :
      LacksSettings format look (some path)
        (.settings path e)

section Settings

variable {format : SettingsFormat}
variable {look : Path → Entry}
variable {config : Option Path}

/- What is read as a file is one. -/
theorem read_eq_ok_iff
    {path : Path}
    {bytes : List UInt8} :
    (look path).read path = .ok bytes ↔
      look path = .file bytes := by
  cases look path <;> simp [Entry.read]

/- Where nothing is, no settings are read. -/
theorem settings_of_absent
    {path : Path}
    (hAbsent : ¬ (look path).IsPresent) :
    settings format look (some path) = .ok {} := by
  rw [settings, if_neg hAbsent]
  rfl

/-
  Settings are read in steps: bytes,
  data and what they give.
-/
theorem settings_of_present
    {path : Path}
    (hPresent : (look path).IsPresent) :
    settings format look (some path) =
      (((look path).read path).mapError .file >>= fun bytes =>
        (((format.read bytes).mapError
              ReadFault.toLoadError >>= fun content =>
            (Settings.ofContent format.toCoercion
              content).mapError .rejected)).mapError
          (.ofLoadError path)) := by
  rw [settings, if_pos hPresent]
  cases (look path).read path <;> rfl

/- A file is there. -/
theorem isPresent_of_file
    {path : Path}
    {bytes : List UInt8}
    (hFile : look path = .file bytes) :
    (look path).IsPresent := by
  rw [hFile]
  trivial

/- The settings that are found are those that hold. -/
theorem settings_eq_ok_iff
    {s : Settings} :
    settings format look config = .ok s ↔
      HasSettings format look config s := by
  cases config with
  | none =>
      constructor
      · intro hSettings
        cases hSettings
        exact .unnamed
      · intro hHas
        cases hHas
        rfl
  | some path =>
      by_cases hPresent : (look path).IsPresent
      · simp only [settings_of_present hPresent,
          Outcome.bind_eq_ok, Outcome.mapError_eq_ok,
          read_eq_ok_iff]
        constructor
        · rintro ⟨bytes, hFile, content, hRead, hContent⟩
          exact .loaded hFile hRead hContent
        · intro hHas
          cases hHas with
          | absent hAbsent =>
              exact absurd hPresent hAbsent
          | loaded hFile hRead hContent =>
              exact ⟨_, hFile, _, hRead, hContent⟩
      · rw [settings_of_absent hPresent]
        constructor
        · intro hSettings
          cases hSettings
          exact .absent hPresent
        · intro hHas
          cases hHas with
          | absent hAbsent =>
              rfl
          | loaded hFile _ _ =>
              exact absurd (isPresent_of_file hFile) hPresent

/-
  No settings are found just if none hold,
  for the same trouble.
-/
theorem settings_eq_error_iff
    {t : Trouble} :
    settings format look config = .error t ↔
      LacksSettings format look config t := by
  cases config with
  | none =>
      constructor
      · intro hSettings
        cases hSettings
      · intro hLacks
        cases hLacks
  | some path =>
      by_cases hPresent : (look path).IsPresent
      · simp only [settings_of_present hPresent,
          Outcome.bind_eq_error, Outcome.mapError_eq_error,
          Outcome.mapError_eq_ok, read_eq_ok_iff]
        constructor
        · rintro (⟨e, hEntry, rfl⟩ | ⟨bytes, hFile, _,
            ⟨fault, hRead, rfl⟩ | ⟨content, hRead, e,
              hContent, rfl⟩, rfl⟩)
          · exact .unreadable hPresent hEntry
          · exact .faulty hFile hRead
          · exact .rejected hFile hRead hContent
        · intro hLacks
          cases hLacks with
          | unreadable _ hEntry =>
              exact .inl ⟨_, hEntry, rfl⟩
          | faulty hFile hRead =>
              exact .inr
                ⟨_, hFile, _, .inl ⟨_, hRead, rfl⟩, rfl⟩
          | rejected hFile hRead hContent =>
              exact .inr
                ⟨_, hFile, _,
                  .inr ⟨_, hRead, _, hContent, rfl⟩, rfl⟩
      · rw [settings_of_absent hPresent]
        constructor
        · intro hSettings
          cases hSettings
        · intro hLacks
          cases hLacks with
          | unreadable hThere _ =>
              exact absurd hThere hPresent
          | faulty hFile _ =>
              exact absurd (isPresent_of_file hFile) hPresent
          | rejected hFile _ _ =>
              exact absurd (isPresent_of_file hFile) hPresent

end Settings

------------------------------------------------------------
-- Compiling
------------------------------------------------------------

/- A job makes something of its text with its settings. -/
structure Makes
    (format : SettingsFormat)
    (look : Path → Entry)
    (j : Job)
    (s : Settings)
    (text : String)
    (c : Compilation) : Prop where
  settings : HasSettings format look j.config s
  source : HasText look j.source text
  compiled : LyricScore.compile s text = .ok c

/-
  A job fails: it has no settings, its source has no text, or
  the text cannot be compiled with the settings.
-/
inductive Fails
    (format : SettingsFormat)
    (look : Path → Entry)
    (j : Job) : Trouble → Prop where
  | settings {t}
      (hSettings : LacksSettings format look j.config t) :
      Fails format look j t
  | source {s t}
      (hSettings : HasSettings format look j.config s)
      (hSource : LacksText look j.source t) :
      Fails format look j t
  | text {s text e}
      (hSettings : HasSettings format look j.config s)
      (hSource : HasText look j.source text)
      (hCompile : LyricScore.compile s text = .error e) :
      Fails format look j (.failure e)

section Compiling

variable {format : SettingsFormat}
variable {look : Path → Entry}
variable {j : Job}

/- What is compiled is what the job makes. -/
theorem compile_eq_ok_iff
    {c : Compilation} :
    j.compile format look = .ok c ↔
      ∃ s text, j.Makes format look s text c := by
  simp only [compile, materials, Outcome.bind_eq_ok,
    Outcome.mapError_eq_ok, Outcome.pure_eq,
    Except.ok.injEq, settings_eq_ok_iff, readText_eq_ok_iff]
  constructor
  · rintro
      ⟨⟨s, text⟩, ⟨_, hSettings, _, hSource, hSame⟩,
        hCompiled⟩
    cases hSame
    exact ⟨s, text, hSettings, hSource, hCompiled⟩
  · rintro ⟨s, text, hSettings, hSource, hCompiled⟩
    exact ⟨(s, text), ⟨s, hSettings, text, hSource, rfl⟩,
      hCompiled⟩

/-
  Nothing is compiled just if the job fails,
  for the same trouble.
-/
theorem compile_eq_error_iff
    {t : Trouble} :
    j.compile format look = .error t ↔
      j.Fails format look t := by
  simp only [compile, materials, Outcome.bind_eq_ok,
    Outcome.bind_eq_error, Outcome.mapError_eq_error,
    Outcome.pure_eq, Except.ok.injEq, settings_eq_ok_iff,
    settings_eq_error_iff, readText_eq_ok_iff,
    readText_eq_error_iff]
  constructor
  · rintro
      ((hSettings |
          ⟨s, hSettings,
            hSource | ⟨text, hSource, hNever⟩⟩) |
        ⟨⟨s, text⟩, ⟨_, hSettings, _, hSource, hSame⟩, e,
          hCompile, rfl⟩)
    · exact .settings hSettings
    · exact .source hSettings hSource
    · cases hNever
    · cases hSame
      exact .text hSettings hSource hCompile
  · intro hFails
    cases hFails with
    | settings hSettings =>
        exact .inl (.inl hSettings)
    | source hSettings hSource =>
        exact .inl (.inr ⟨_, hSettings, .inl hSource⟩)
    | text hSettings hSource hCompile =>
        exact .inr
          ⟨_, ⟨_, hSettings, _, hSource, rfl⟩, _, hCompile,
            rfl⟩

/- A job fails, or makes something. -/
theorem fails_or_makes
    (format : SettingsFormat)
    (look : Path → Entry)
    (j : Job) :
    (∃ t, j.Fails format look t) ∨
      ∃ s text c, j.Makes format look s text c := by
  cases hCompile : j.compile format look with
  | error t =>
      exact .inl ⟨t, compile_eq_error_iff.mp hCompile⟩
  | ok c =>
      rcases compile_eq_ok_iff.mp hCompile with
        ⟨s, text, hMakes⟩
      exact .inr ⟨s, text, c, hMakes⟩

end Compiling

------------------------------------------------------------
-- Jobs in a folder
------------------------------------------------------------

section Folders

variable {format : SettingsFormat}
variable {j : Job}
variable {f g : Folder}

/- A job that fails writes nothing. -/
theorem perform_of_fails
    {t : Trouble}
    (hFails : j.Fails format f.look t) :
    (j.perform format f).2 = f ∧
      (j.perform format f).1.exit = t.exit := by
  have hPerform :
      j.perform format f =
        (.ofTrouble j (j.remarks format f.look) t, f) := by
    simp only [perform, compile_eq_error_iff.mpr hFails]
  rw [hPerform]
  exact ⟨rfl,
    Outcome.exit_ofTrouble j (j.remarks format f.look) t⟩

/- Nor does a job that has nowhere to write. -/
theorem perform_of_unwritable
    {s : LyricScore.Settings}
    {text : String}
    {c : Compilation}
    {e : FileError}
    (hMakes : j.Makes format f.look s text c)
    (hWrite : f.write j.output c.midi = .error e) :
    (j.perform format f).2 = f ∧
      (j.perform format f).1.exit = .trouble (.file e) := by
  have hPerform :
      j.perform format f =
        (⟨.trouble (.file e), j.remarks format f.look⟩,
          f) := by
    simp only [perform,
      compile_eq_ok_iff.mpr ⟨s, text, hMakes⟩, hWrite]
  rw [hPerform]
  exact ⟨rfl, rfl⟩

/- Any other job writes what it makes. -/
theorem perform_of_makes
    {s : LyricScore.Settings}
    {text : String}
    {c : Compilation}
    (hMakes : j.Makes format f.look s text c)
    (hWrite : f.write j.output c.midi = .ok g) :
    (j.perform format f).2 = g ∧
      (j.perform format f).1.exit =
        if Numeral.Writable c.beatMap.totalTicks then
          .code 0
        else
          .trouble
            (.failure (.numeral .tooLongToWrite)) := by
  have hPerform :
      j.perform format f =
        (.ofCompilation j (j.remarks format f.look) c,
          g) := by
    simp only [perform,
      compile_eq_ok_iff.mpr ⟨s, text, hMakes⟩, hWrite]
  rw [hPerform]
  exact ⟨rfl,
    Outcome.exit_ofCompilation j
      (j.remarks format f.look) c⟩

end Folders

/- A source with a name has an output. -/
theorem exists_ofOptions
    {source : Path}
    (hName : source.name? ≠ none)
    (o : Options) :
    ∃ output,
      o.output.or (source.withSuffix? ".mid") =
          some output ∧
        ofOptions source o =
          .ok ⟨source, output, o.config⟩ := by
  rcases Option.ne_none_iff_exists'.mp hName with ⟨name, hLast⟩
  unfold ofOptions
  cases o.output with
  | some output =>
      exact ⟨output, rfl, rfl⟩
  | none =>
      simp [Path.withSuffix?, hLast]

end Job

------------------------------------------------------------
-- Command lines
------------------------------------------------------------

namespace Cli

/-
  What compiling from a command line leaves, in whatever
  format settings files are written.  The output is the one
  that is asked for, or the source with the suffix of a MIDI
  file.  The job fails or makes something.  If it fails, for
  whatever reason, the folder is as it was, and the program
  ends with one where the trouble is reported.  If it makes
  something that can be written, then one file is written,
  which holds the music of the text with the settings; it is
  the file at the output, and no other has changed.  The
  program ends with zero then, if the count of ticks that it
  reports is not too long to be written.
-/
theorem compile_writes_one_file_or_none
    {args : List String}
    {o : Options}
    {source : Path}
    (format : SettingsFormat)
    (hOptions : Options.read args = .ok o)
    (hCompile : o.compile = some source)
    (hName : source.name? ≠ none)
    (f : Folder) :
    ∃ j : Job,
      j.source = source ∧
        j.config = o.config ∧
        o.output.or (source.withSuffix? ".mid") =
          some j.output ∧
        ((∃ t, j.Fails format f.look t) ∨
          ∃ s text c, j.Makes format f.look s text c) ∧
        (∀ t, j.Fails format f.look t →
          (run format args f).2 = f ∧
            (run format args f).1.exit = t.exit) ∧
        ∀ s text c, j.Makes format f.look s text c →
          (∀ e, f.write j.output c.midi = .error e →
            (run format args f).2 = f ∧
              (run format args f).1.exit =
                .trouble (.file e)) ∧
          ∀ g, f.write j.output c.midi = .ok g →
            (run format args f).2 = g ∧
              f.Wrote j.output c.midi g ∧
              (¬ j.output.IsAbsolute →
                ".." ∉ j.output.names →
                  g.look j.output = .file c.midi) ∧
              (run format args f).1.exit =
                if Numeral.Writable
                    c.beatMap.totalTicks then
                  .code 0
                else
                  .trouble
                    (.failure
                      (.numeral .tooLongToWrite)) := by
  rcases Job.exists_ofOptions hName o with
    ⟨output, hOutput, hJob⟩
  have hRun :
      run format args f =
        (⟨source, output, o.config⟩ : Job).perform
          format f := by
    simp only [run, hOptions, runOptions, hCompile, hJob]
  rw [hRun]
  refine
    ⟨⟨source, output, o.config⟩, rfl, rfl, hOutput,
      Job.fails_or_makes format f.look _,
      fun t => Job.perform_of_fails, ?_⟩
  intro s text c hMakes
  refine ⟨fun e => Job.perform_of_unwritable hMakes, ?_⟩
  intro g hWrite
  rcases Job.perform_of_makes hMakes hWrite with
    ⟨hFolder, hExit⟩
  refine
    ⟨hFolder, Folder.wrote_of_write hWrite, ?_, hExit⟩
  intro hRelative hStraight
  exact Folder.look_of_write hRelative hStraight hWrite

/-
  A folder with a score whose lines end in two ways, a score
  that breaks off inside a chord, a file where the first is
  compiled to, settings, and a list that is no settings.
-/
def desk : Folder where
  files := [
    (["song.fqs"],
      [84, 10, 10, 108, 97, 124, 13, 10, 99, 124, 10]),
    (["song.mid"], [0]),
    (["torn.fqs"], [84, 10, 10, 108, 97, 124, 10, 40, 99]),
    (["soft.yml"], Utf8.encode "audio:\n  channel: 3\n"),
    (["list.yml"], Utf8.encode "- 3\n")]

/-
  The first score of the desk on the
  channel of its settings.
-/
def softSong : List UInt8 :=
  [77, 84, 104, 100, 0, 0, 0, 6, 0, 0, 0, 1, 1, 224, 77, 84,
    114, 107, 0, 0, 0, 22, 0, 255, 81, 3, 7, 161, 32, 0,
    195, 0, 0, 147, 60, 88, 131, 96, 60, 0, 0, 255, 47, 0]

/-
  The torn score and the list of settings write nothing; the
  song is written with its own settings.
-/
theorem desk_has_one_file_written_or_none :
    ((run Yaml.settings ["--compile", "torn.fqs"] desk).2 =
          desk ∧
        (run Yaml.settings ["--compile", "torn.fqs"]
            desk).1.exit = .code 1) ∧
      ((run Yaml.settings
            ["--compile=song.fqs", "--config=list.yml"]
            desk).2 = desk ∧
        (run Yaml.settings
            ["--compile=song.fqs", "--config=list.yml"]
            desk).1.exit = .code 1) ∧
      ∃ g,
        (run Yaml.settings
              ["--comp=song.fqs", "--config=soft.yml"]
              desk).2 = g ∧
          (run Yaml.settings
              ["--comp=song.fqs", "--config=soft.yml"]
              desk).1.exit = .code 0 ∧
          g.look (.ofText "song.mid") = .file softSong ∧
          g.look (.ofText "torn.fqs") =
            desk.look (.ofText "torn.fqs") := by
  refine ⟨?_, ?_, ?_⟩
  · have hOptions :
        Options.read ["--compile", "torn.fqs"] =
          .ok { compile := some (.ofText "torn.fqs") } := by
      decide +kernel
    rcases compile_writes_one_file_or_none Yaml.settings
        hOptions rfl (by decide) desk with
      ⟨⟨source, output, config⟩, hSource, hConfig, hOutput,
        -, hFails, -⟩
    have hPlace : some output = some (.ofText "torn.mid") := by
      rw [← hOutput]
      decide +kernel
    cases hPlace
    cases hSource
    cases hConfig
    have hTorn :
        (Job.compile Yaml.settings desk.look
            ⟨.ofText "torn.fqs", .ofText "torn.mid", none⟩).map
              Compilation.midi =
          .error
            (.failure
              (.score
                (.missing .closingParenthesis
                  ⟨.endOfText, "", 4, 3, 3⟩))) := by
      decide +kernel
    have hFailed := Job.compile_eq_error_iff.mp
      (Outcome.map_eq_error.mp hTorn)
    exact hFails _ hFailed
  · have hOptions :
        Options.read
            ["--compile=song.fqs", "--config=list.yml"] =
          .ok
            { compile := some (.ofText "song.fqs"),
              config := some (.ofText "list.yml") } := by
      decide +kernel
    rcases compile_writes_one_file_or_none Yaml.settings
        hOptions rfl (by decide) desk with
      ⟨⟨source, output, config⟩, hSource, hConfig, hOutput,
        -, hFails, -⟩
    have hPlace : some output = some (.ofText "song.mid") := by
      rw [← hOutput]
      decide +kernel
    cases hPlace
    cases hSource
    cases hConfig
    have hList :
        (Job.compile Yaml.settings desk.look
            ⟨.ofText "song.fqs", .ofText "song.mid",
              some (.ofText "list.yml")⟩).map
              Compilation.midi =
          .error
            (.settings (.ofText "list.yml")
              .notAMapping) := by
      decide +kernel
    have hFailed := Job.compile_eq_error_iff.mp
      (Outcome.map_eq_error.mp hList)
    exact hFails _ hFailed
  · have hOptions :
        Options.read
            ["--comp=song.fqs", "--config=soft.yml"] =
          .ok
            { compile := some (.ofText "song.fqs"),
              config := some (.ofText "soft.yml") } := by
      decide +kernel
    rcases compile_writes_one_file_or_none Yaml.settings
        hOptions rfl (by decide) desk with
      ⟨⟨source, output, config⟩, hSource, hConfig, hOutput,
        -, -, hMakes⟩
    have hPlace : some output = some (.ofText "song.mid") := by
      rw [← hOutput]
      decide +kernel
    cases hPlace
    cases hSource
    cases hConfig
    have hSong :
        (Job.compile Yaml.settings desk.look
            ⟨.ofText "song.fqs", .ofText "song.mid",
              some (.ofText "soft.yml")⟩).map
              (fun c => (c.midi, c.beatMap.totalTicks)) =
          .ok (softSong, 480) := by
      decide +kernel
    rcases Outcome.map_eq_ok.mp hSong with
      ⟨c, hCompiled, hMade⟩
    rw [Prod.mk.injEq] at hMade
    rcases Job.compile_eq_ok_iff.mp hCompiled with
      ⟨s, text, hMakesSong⟩
    rcases hMakes s text c hMakesSong with ⟨-, hWrites⟩
    have hWritten :
        desk.write (.ofText "song.mid") c.midi =
          .ok (desk.put ["song.mid"] c.midi) := by
      rw [hMade.1]
      decide +kernel
    rcases hWrites _ hWritten with
      ⟨hFolder, -, hFound, hExit⟩
    have hLook := hFound (by decide) (by decide)
    have hWritable : Numeral.Writable 480 := by
      decide +kernel
    rw [hMade.1] at hFolder hLook
    rw [hMade.2, if_pos hWritable] at hExit
    exact ⟨_, hFolder, hExit, hLook, by decide +kernel⟩

end Cli

end LyricScore
