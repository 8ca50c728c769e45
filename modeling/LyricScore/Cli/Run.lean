import LyricScore.Cli.Options
import LyricScore.Compile
import LyricScore.Files.Folder
import LyricScore.Settings.Load
import LyricScore.Text.Utf8

/-
  This file defines what a command line does in a folder: it
  compiles a score file to a MIDI file, next to it or where
  asked.  Everything is read and made before anything is
  written.

  Key definitions include:
    * `Trouble`
    * `Trouble.IsReported`
    * `Job`
    * `Job.ofOptions`
    * `Job.readText`
    * `Job.settings`
    * `Job.compile`
    * `Exit`
    * `Outcome`
    * `Job.perform`
    * `Cli.runOptions`
    * `Cli.run`
-/

namespace LyricScore

------------------------------------------------------------
-- Troubles
------------------------------------------------------------

/-
  Why nothing was compiled: a source has no name that the
  output could be named for, a settings file is not accepted,
  the reader of a settings file broke off, a file cannot be
  used or is no text, or the text cannot be compiled.
-/
inductive Trouble where
  | nameless (path : Path)
  | settings (path : Path) (error : ConfigError)
  | unsettled (path : Path)
  | file (error : FileError)
  | notText
  | failure (error : Failure)
deriving DecidableEq, Repr

namespace Trouble

/-
  A trouble that is reported: a settings file that is not
  accepted, a file that is not there, or a text that is no
  score.  Any other ends the program.
-/
def IsReported : Trouble → Prop
  | settings _ _ | file _
  | failure (.score (.missing _ _)) => True
  | _ => False

instance
    (t : Trouble) :
    Decidable t.IsReported := by
  unfold IsReported
  split <;> infer_instance

/- The wording of a trouble. -/
def message : Trouble → String
  | nameless path =>
      "PosixPath(" ++ Quoted.quote path.text ++
        ") has an empty name"
  | settings path error => error.message path.text
  | unsettled path => "reading " ++ path.text ++ " broke off"
  | file error => error.message
  | notText => "the file is not UTF-8"
  | failure error => error.message

/- The trouble that a settings file makes. -/
def ofLoadError
    (path : Path) : LoadError → Trouble
  | .rejected error => .settings path error
  | .notText => .notText
  | .broken => .unsettled path

end Trouble

------------------------------------------------------------
-- Jobs
------------------------------------------------------------

/-
  A score file to compile, where to, and
  with which settings.
-/
structure Job where
  source : Path
  output : Path
  config : Option Path
deriving DecidableEq, Repr

namespace Job

/- The job of compiling a source as options ask. -/
def ofOptions
    (source : Path)
    (o : Options) : Except Trouble Job :=
  match o.output, source.withSuffix? ".mid" with
  | some output, _ => .ok ⟨source, output, o.config⟩
  | none, some output => .ok ⟨source, output, o.config⟩
  | none, none => .error (.nameless source)

/- The text of a file. -/
def readText
    (look : Path → Entry)
    (path : Path) : Except Trouble String := do
  let bytes ← ((look path).read path).mapError .file
  match Utf8.readFile? bytes with
  | some text => return text
  | none => throw .notText

/- The settings of a file that may be missing. -/
def settings
    (format : SettingsFormat)
    (look : Path → Entry) :
    Option Path → Except Trouble Settings
  | none => .ok {}
  | some path => do
    let bytes ←
      if (look path).IsPresent then
        (((look path).read path).mapError .file).map some
      else .ok none
    (Settings.load format bytes).mapError
      (.ofLoadError path)

/- The settings of a job and the text of its source. -/
def materials
    (format : SettingsFormat)
    (look : Path → Entry)
    (j : Job) : Except Trouble (Settings × String) := do
  let s ← settings format look j.config
  let text ← readText look j.source
  return (s, text)

/- What the source of a job is compiled to. -/
def compile
    (format : SettingsFormat)
    (look : Path → Entry)
    (j : Job) : Except Trouble Compilation := do
  let (s, text) ← j.materials format look
  (LyricScore.compile s text).mapError .failure

/- What is remarked while the source of a job is compiled. -/
def remarks
    (format : SettingsFormat)
    (look : Path → Entry)
    (j : Job) : List String :=
  match j.materials format look with
  | .error _ => []
  | .ok (s, text) =>
    match Score.parse text with
    | .error _ => []
    | .ok score =>
      match score.clampedVoices s.audio with
      | .error _ => []
      | .ok voices => voices.map Voice.clampRemark

/- What is reported of a job that failed. -/
def failureReport
    (j : Job)
    (t : Trouble) : String :=
  "Could not compile " ++ j.source.text ++ ": " ++ t.message

/- What is reported of a job that was done. -/
def successReport
    (j : Job)
    (c : Compilation) : Except Trouble String :=
  if Numeral.Writable c.beatMap.totalTicks then
    .ok
      ("Wrote " ++ j.output.text ++ " (" ++
        toString c.events.length ++ " events, " ++
        toString c.beatMap.totalTicks ++ " ticks)")
  else .error (.failure (.numeral .tooLongToWrite))

end Job

------------------------------------------------------------
-- Outcomes
------------------------------------------------------------

/-
  How a program ends: with a number, by a trouble, or by
  handing over to a server.
-/
inductive Exit where
  | code (number : Nat)
  | trouble (trouble : Trouble)
  | server (settings : Settings) (options : Options)

/- How a program ends, and the lines that it logs. -/
structure Outcome where
  exit : Exit
  log : List String := []

namespace Outcome

/- The outcome of a job that failed before it wrote. -/
def ofTrouble
    (j : Job)
    (remarks : List String)
    (t : Trouble) : Outcome :=
  if t.IsReported then
    ⟨.code 1, remarks ++ [j.failureReport t]⟩
  else ⟨.trouble t, remarks⟩

/- The outcome of a job that was done. -/
def ofCompilation
    (j : Job)
    (remarks : List String)
    (c : Compilation) : Outcome :=
  match j.successReport c with
  | .ok line => ⟨.code 0, remarks ++ [line]⟩
  | .error t => ⟨.trouble t, remarks⟩

end Outcome

/- Do a job in a folder. -/
def Job.perform
    (format : SettingsFormat)
    (j : Job)
    (f : Folder) : Outcome × Folder :=
  let remarks := j.remarks format f.look
  match j.compile format f.look with
  | .error t => (.ofTrouble j remarks t, f)
  | .ok c =>
    match f.write j.output c.midi with
    | .error e => (⟨.trouble (.file e), remarks⟩, f)
    | .ok f => (.ofCompilation j remarks c, f)

namespace Cli

/- Do what options ask for in a folder. -/
def runOptions
    (format : SettingsFormat)
    (o : Options)
    (f : Folder) : Outcome × Folder :=
  match o.compile with
  | some source =>
    match Job.ofOptions source o with
    | .error t => (⟨.trouble t, []⟩, f)
    | .ok j => j.perform format f
  | none =>
    match Job.settings format f.look o.config with
    | .error t => (⟨.trouble t, []⟩, f)
    | .ok s => (⟨.server s o, []⟩, f)

/-
  Do what arguments ask for in a folder, with settings files
  of some format.  Asking for help is no fault.
-/
def run
    (format : SettingsFormat)
    (args : List String)
    (f : Folder) : Outcome × Folder :=
  match Options.read args with
  | .error .help => (⟨.code 0, []⟩, f)
  | .error .misuse => (⟨.code 2, []⟩, f)
  | .ok o => runOptions format o f

end Cli

end LyricScore
